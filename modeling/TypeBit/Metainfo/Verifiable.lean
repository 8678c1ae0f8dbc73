import TypeBit.Metainfo.Tiles

/-! When an accepted torrent is fully verifiable. The piece count, the hash list and the layout
come from three code paths; they agree exactly when the declared hashes cover the payload. -/

namespace TypeBit.Metainfo
open Tiling Bencode

def layerHash (layers : List (InfoHash × List Bytes)) (f : FileEntry) (k : Nat) : Option Bytes :=
  f.root.bind (fun root => (layers.find? (fun l => decide (l.1.asBytes = root))).bind (fun l => l.2[k]?))

namespace Torrent

def exactPieces (t : Torrent) : Nat :=
  match t.kind with
  | .v1 => divCeil (lengths t.files).sum t.pieceLength
  | _ => (t.files.map (fun f => divCeil f.length t.pieceLength)).sum

/-- The hash of piece `i` is one of the file that `info` names: for v1 the piece starts in that
file, for v2 the hash stands in that file's layer at the piece's place. -/
def HashBelongs (t : Torrent) (i : Nat) (info : PieceInfo) (h : Bytes) : Prop :=
  ∃ f, t.files[info.file]? = some f ∧ info.offset < f.length ∧
    match t.kind with
    | .v1 => i * t.pieceLength = ((lengths t.files).take info.file).sum + info.offset
    | _ => layerHash t.pieceLayers f (info.offset / t.pieceLength) = some h

/-- Every piece has a hash and a place, of the same file, and there are no further pieces. -/
structure FullyVerifiable (t : Torrent) : Prop where
  covered : ∀ i < t.pieceCount, ∃ h info, t.pieceHash i = some h ∧ t.pieceInfo i = .ok info ∧
    t.HashBelongs i info h
  ends : ∃ e, t.pieceInfo t.pieceCount = .error e
  exact : t.pieceCount = t.exactPieces
  bounded : t.pieceCount ≤ MAX_PIECES

end Torrent

def declaredInfo (data : Bytes) : Option Dict :=
  match BVal.parse data with
  | .ok (.dict root) => dictAt root "info"
  | _ => none

/-- The declared hashes cover the declared files: enough v1 hashes for the whole payload, or a
pieces root for every non-empty v2 file and no more pieces than the limit. -/
def HashesCover (data : Bytes) : Prop :=
  ∃ info declared, declaredInfo data = some info ∧ intAt info "piece length" = some declared ∧
    if metaVersionOf info = 1 then
      ∃ files pieces, v1Files info = .ok files ∧ bytesAt info "pieces" = some pieces ∧
        divCeil (lengths files).sum (asU32 declared) ≤ pieces.length / 20
    else
      ∃ files, v2Files info = .ok files ∧ (∀ f ∈ files, f.length ≠ 0 → f.root ≠ none) ∧
        (files.map (fun f => divCeil f.length (asU32 declared))).sum ≤ MAX_PIECES

theorem length_chunks (n : Nat) (b : Bytes) : (chunks n b).length = b.length / n := by simp [chunks]

section Layers
variable {pl : Nat} {layers : List (InfoHash × List Bytes)}

def rootedPieces (pl : Nat) (files : List FileEntry) : Nat :=
  (files.map (fun f => if f.root = none then 0 else count pl f.length)).sum

variable {out hashes : List Bytes}

theorem buildV2PieceHashes_cons {f : FileEntry} {tail : List FileEntry}
    (positive : 0 < pl) (built : buildV2PieceHashes pl layers (f :: tail) out = .ok hashes) :
    ∃ own, buildV2PieceHashes pl layers tail (out ++ own) = .ok hashes ∧
      own.length = (if f.root = none then 0 else count pl f.length) ∧
      (f.root ≠ none → f.length ≠ 0 → ∀ k, own[k]? = layerHash layers f k) := by
  unfold buildV2PieceHashes at built
  by_cases empty : f.length = 0
  · rw [if_pos empty] at built
    refine ⟨[], by rwa [List.append_nil], ?_, fun _ nonempty => absurd empty nonempty⟩
    simp [empty, count_zero positive]
  · rw [if_neg empty] at built
    cases rooted : f.root with
    | none =>
      simp only [rooted] at built
      exact ⟨[], by rwa [List.append_nil], by simp, by simp⟩
    | some root =>
      simp only [rooted] at built
      cases layer : layers.find? (fun l => decide (l.1.asBytes = root)) with
      | none => simp [layer] at built
      | some found =>
        simp only [layer] at built
        obtain ⟨sized, built⟩ := guard_eq_ok.mp built
        refine ⟨found.2, built, ?_, ?_⟩
        · simpa [divCeil_eq_count] using sized
        · intro _ _ k
          simp [layerHash, rooted, layer]

variable {files : List FileEntry}

theorem length_buildV2PieceHashes (positive : 0 < pl) (built : buildV2PieceHashes pl layers files out = .ok hashes) :
    hashes.length = out.length + rootedPieces pl files := by
  induction files generalizing out with
  | nil =>
    cases built
    rfl
  | cons f tail ih =>
    obtain ⟨own, rest, size, -⟩ := buildV2PieceHashes_cons positive built
    rw [ih rest, List.length_append, size, rootedPieces, rootedPieces, List.map_cons, List.sum_cons,
      Nat.add_assoc]

theorem buildV2PieceHashes_extends (positive : 0 < pl)
    (built : buildV2PieceHashes pl layers files out = .ok hashes) : out <+: hashes := by
  induction files generalizing out with
  | nil =>
    cases built
    exact List.prefix_rfl
  | cons f tail ih =>
    obtain ⟨own, rest, -⟩ := buildV2PieceHashes_cons positive built
    exact (List.prefix_append out own).trans (ih rest)

theorem getElem?_buildV2PieceHashes (positive : 0 < pl) (built : buildV2PieceHashes pl layers files out = .ok hashes)
    (rooted : ∀ f ∈ files, f.length ≠ 0 → f.root ≠ none) {i k r : Nat}
    (found : locate ((lengths files).map (count pl)) i = some (k, r)) :
    ∃ f, files[k]? = some f ∧ hashes[out.length + i]? = layerHash layers f r := by
  induction files generalizing out i k with
  | nil => simp [lengths, locate] at found
  | cons f tail ih =>
    obtain ⟨own, rest, size, layer⟩ := buildV2PieceHashes_cons positive built
    have ownSize : own.length = count pl f.length := by
      by_cases empty : f.length = 0
      · rw [size, empty, count_zero positive]
        simp
      · rw [size, if_neg (rooted f (by simp) empty)]
    rw [lengths_cons, List.map_cons, locate] at found
    by_cases inside : i < count pl f.length
    · rw [if_pos inside, Option.some.injEq, Prod.mk.injEq] at found
      obtain ⟨rfl, rfl⟩ := found
      have nonempty : f.length ≠ 0 := by
        intro empty
        rw [empty, count_zero positive] at inside
        omega
      obtain ⟨after, whole⟩ := buildV2PieceHashes_extends positive rest
      refine ⟨f, rfl, ?_⟩
      rw [← whole, List.append_assoc, List.getElem?_append_right (by omega), Nat.add_sub_cancel_left,
        List.getElem?_append_left (by omega)]
      exact layer (rooted f (by simp) nonempty) nonempty i
    · rw [if_neg inside, Option.map_eq_some_iff] at found
      obtain ⟨⟨j, s⟩, later, same⟩ := found
      simp only [Prod.mk.injEq] at same
      obtain ⟨rfl, rfl⟩ := same
      obtain ⟨g, file, hash⟩ := ih rest (fun g member => rooted g (List.mem_cons_of_mem _ member)) later
      refine ⟨g, by simpa using file, ?_⟩
      rw [← hash, List.length_append, ownSize]
      congr 1
      omega

end Layers

theorem sum_divCeil (files : List FileEntry) (pl : Nat) :
    (files.map (fun f => divCeil f.length pl)).sum = ((lengths files).map (count pl)).sum := by
  rw [lengths, List.map_map]
  rfl

theorem rootedPieces_le (pl : Nat) (files : List FileEntry) :
    rootedPieces pl files ≤ ((lengths files).map (count pl)).sum := by
  induction files with
  | nil => simp [rootedPieces]
  | cons f tail ih =>
    rw [rootedPieces] at ih
    simp only [rootedPieces, lengths_cons, List.map_cons, List.sum_cons]
    split_ifs <;> omega

theorem rootedPieces_eq_iff {pl : Nat} (positive : 0 < pl) (files : List FileEntry) :
    rootedPieces pl files = ((lengths files).map (count pl)).sum ↔
      ∀ f ∈ files, f.length ≠ 0 → f.root ≠ none := by
  induction files with
  | nil => simp [rootedPieces, lengths]
  | cons f tail ih =>
    have bound := rootedPieces_le pl tail
    have nonzero : f.length ≠ 0 → 0 < count pl f.length := fun nonempty =>
      (lt_count_iff positive).mpr (by omega)
    rw [rootedPieces] at ih bound
    simp only [rootedPieces, lengths_cons, List.map_cons, List.sum_cons, List.forall_mem_cons]
    constructor
    · intro all
      split_ifs at all with missing
      · refine ⟨fun nonempty => absurd (nonzero nonempty) (by omega), ih.mp (by omega)⟩
      · exact ⟨fun _ => missing, ih.mp (by omega)⟩
    · rintro ⟨head, rest⟩
      rw [ih.mpr rest]
      by_cases empty : f.length = 0
      · simp [empty, count_zero positive]
      · rw [if_neg (head empty)]

theorem sum_le_count_mul {pl : Nat} (positive : 0 < pl) (lens : List Nat) :
    lens.sum ≤ (lens.map (count pl)).sum * pl := by
  induction lens with
  | nil => simp
  | cons l tail ih =>
    have head := (count_le_iff positive).mp (le_refl (count pl l))
    simp only [List.map_cons, List.sum_cons, Nat.add_mul]
    omega

theorem sound_of_small {t : Torrent} (shaped : Shaped t)
    (small : (lengths t.files).sum ≤ MAX_PIECES * t.pieceLength) : Sound t := by
  have narrow := shaped.narrow
  have fits : (lengths t.files).sum < 2 ^ 64 := by
    have scaled : MAX_PIECES * t.pieceLength ≤ MAX_PIECES * 2 ^ 32 := Nat.mul_le_mul_left _ (by omega)
    have limit : MAX_PIECES * 2 ^ 32 < 2 ^ 64 := by decide
    omega
  refine ⟨shaped, fits, ?_⟩
  rw [shaped.total, totalLength, foldl_wadd _ (by decide), Nat.zero_add, Nat.mod_eq_of_lt fits]

theorem Placed.file {t : Torrent} (sound : Sound t) {i : Nat} {info : PieceInfo} (here : Placed t i info) :
    ∃ f, t.files[info.file]? = some f ∧ info.offset < f.length ∧
      (t.tileList.take i).sum = ((lengths t.files).take info.file).sum + info.offset := by
  have fits := sound.fits
  have before : (t.tileList.take i).sum ≤ t.tileList.sum := by
    have split := congrArg List.sum (List.take_append_drop i t.tileList)
    rw [List.sum_append] at split
    omega
  rw [sum_tileList sound, ← sound.adds] at before
  obtain ⟨j, place, found⟩ := (locateFrom_ok_iff (Nat.zero_le _) (by omega)
    (files_few sound.toShaped)).mp here.located
  rw [Nat.zero_add] at place
  rw [← place] at found
  obtain ⟨l, segment, inside, start⟩ := (locate_eq_some_iff ..).mp found
  obtain ⟨f, file, rfl⟩ : ∃ f, t.files[info.file]? = some f ∧ f.length = l := by
    simpa [lengths] using segment
  exact ⟨f, file, inside, by omega⟩

theorem verifiable_v1_iff {t : Torrent} (shaped : Shaped t) (kind : t.kind = .v1) {hashes : List Bytes}
    (listed : t.v1Hashes = some hashes) (few : hashes.length ≤ MAX_PIECES) :
    t.FullyVerifiable ↔ divCeil (lengths t.files).sum t.pieceLength ≤ hashes.length := by
  have hashAt (i : Nat) : t.pieceHash i = hashes[i]? := by simp [Torrent.pieceHash, kind, listed]
  have exactEq : t.exactPieces = divCeil (lengths t.files).sum t.pieceLength := by
    simp [Torrent.exactPieces, kind]
  constructor
  · intro verifiable
    rw [← exactEq, ← verifiable.exact]
    by_contra beyond
    obtain ⟨h, info, hashed, -⟩ := verifiable.covered hashes.length (by omega)
    simp [hashAt] at hashed
  · intro enough
    have covered := (count_le_iff shaped.positive).mp (divCeil_eq_count _ _ ▸ enough.trans few)
    have sound := sound_of_small shaped covered
    have layout : t.layoutPieces = divCeil (lengths t.files).sum t.pieceLength := by
      simp [Torrent.layoutPieces, kind, sound.adds]
    have limit : MAX_PIECES < 2 ^ 32 := by decide
    have counted : t.pieceCount = t.layoutPieces := by
      rw [layout, Torrent.pieceCount, kind, sound.adds]
      rw [sound.adds] at enough
      exact Nat.mod_eq_of_lt (by omega)
    refine ⟨?_, pieceInfo_beyond sound (by omega) (by omega), by omega, by omega⟩
    intro i below
    obtain ⟨info, here⟩ := placed sound (counted ▸ below)
    obtain ⟨f, file, inside, start⟩ := here.file sound
    obtain ⟨h, hashed⟩ : ∃ h, hashes[i]? = some h := ⟨hashes[i], List.getElem?_eq_getElem (by omega)⟩
    refine ⟨h, info, (hashAt i).trans hashed, here.info_eq, f, file, inside, ?_⟩
    have abs := here.abs_eq
    simp only [Torrent.pieceAbsOffset, kind, Except.ok.injEq] at abs ⊢
    have product : wmul i t.pieceLength = i * t.pieceLength := by
      apply wmul_of_lt
      have piece := (lt_count_iff shaped.positive).mp
        (show i < count t.pieceLength (lengths t.files).sum by rw [← divCeil_eq_count]; omega)
      have fits := sound.fits
      omega
    omega

theorem verifiable_per_file_iff {t : Torrent} (shaped : Shaped t) (kind : t.kind ≠ .v1) {hashes : List Bytes}
    (listed : t.v2Hashes = some hashes)
    (built : buildV2PieceHashes t.pieceLength t.pieceLayers t.files [] = .ok hashes) :
    t.FullyVerifiable ↔ (∀ f ∈ t.files, f.length ≠ 0 → f.root ≠ none) ∧
      (t.files.map (fun f => divCeil f.length t.pieceLength)).sum ≤ MAX_PIECES := by
  have hashAt (i : Nat) : t.pieceHash i = hashes[i]? := by
    unfold Torrent.pieceHash
    split
    · contradiction
    · simp [listed]
  have exactEq : t.exactPieces = ((lengths t.files).map (count t.pieceLength)).sum := by
    unfold Torrent.exactPieces
    split
    · contradiction
    · exact sum_divCeil _ _
  have counted : t.pieceCount = hashes.length % 2 ^ 32 := by
    unfold Torrent.pieceCount
    split
    · contradiction
    · simp [listed]
  have size := length_buildV2PieceHashes shaped.positive built
  rw [List.length_nil, Nat.zero_add] at size
  have bound := rootedPieces_le t.pieceLength t.files
  have limit : MAX_PIECES < 2 ^ 32 := by decide
  rw [sum_divCeil, ← rootedPieces_eq_iff shaped.positive]
  constructor
  · intro verifiable
    have exactness := verifiable.exact
    have small := verifiable.bounded
    rw [Nat.mod_eq_of_lt (by omega)] at counted
    exact ⟨by omega, by omega⟩
  · rintro ⟨rooted, small⟩
    have covered : (lengths t.files).sum ≤ MAX_PIECES * t.pieceLength :=
      (sum_le_count_mul shaped.positive _).trans (Nat.mul_le_mul_right _ small)
    have sound := sound_of_small shaped covered
    have layout : t.layoutPieces = ((lengths t.files).map (count t.pieceLength)).sum := by
      rw [← length_tileList, tileList_per_file kind, length_tiles]
    rw [Nat.mod_eq_of_lt (by omega)] at counted
    refine ⟨?_, pieceInfo_beyond sound (by omega) (by omega), by omega, by omega⟩
    intro i below
    obtain ⟨info, r, here, offset, found, f, file, inside⟩ :=
      placed_per_file sound kind (show i < t.layoutPieces by omega)
    obtain ⟨g, sameFile, hashed⟩ := getElem?_buildV2PieceHashes shaped.positive built
      ((rootedPieces_eq_iff shaped.positive _).mp rooted) found
    rw [List.length_nil, Nat.zero_add] at hashed
    have same : g = f := Option.some.inj (sameFile.symm.trans file)
    have some : hashes[i]? = some hashes[i] := List.getElem?_eq_getElem (by omega)
    have positive := here.positive
    refine ⟨hashes[i], info, (hashAt i).trans some, here.info_eq, f, file, by omega, ?_⟩
    have quotient : info.offset / t.pieceLength = r := by
      rw [offset, Nat.mul_div_cancel _ shaped.positive]
    split
    · contradiction
    · rw [quotient, ← same, ← hashed, some]

/-- An accepted torrent is fully verifiable exactly when its declared hashes cover its files. -/
theorem fully_verifiable_iff (digests : Digests) (data : Bytes) (t : Torrent)
    (accepted : Torrent.fromBytes digests data = .ok t) : t.FullyVerifiable ↔ HashesCover data := by
  have shaped := fromBytes_shaped accepted
  obtain ⟨root, info, infoRaw, declared, payload, kind, parsed, hasInfo, -, hasLength, -, paid, sort, rfl⟩ :=
    fromBytes_ok accepted
  have found : declaredInfo data = some info := by
    simp [declaredInfo, parsed, dictAt, hasInfo, BVal.asDict]
  unfold payloadOf at paid
  by_cases version : metaVersionOf info = 1
  · rw [if_pos version] at paid
    obtain ⟨files, pieces, listed, hashed, few, rfl⟩ := v1Payload_ok paid
    have isV1 : kind = .v1 := by
      rw [torrentKind, if_pos version] at sort
      cases sort
      rfl
    rw [verifiable_v1_iff shaped isV1 rfl (by rw [length_chunks]; exact few), length_chunks]
    constructor
    · intro enough
      refine ⟨info, declared, found, hasLength, ?_⟩
      rw [if_pos version]
      exact ⟨files, pieces, listed, hashed, enough⟩
    · rintro ⟨otherInfo, otherLength, sameInfo, sameLength, cover⟩
      cases found.symm.trans sameInfo
      cases hasLength.symm.trans sameLength
      rw [if_pos version] at cover
      obtain ⟨otherFiles, otherPieces, sameFiles, samePieces, enough⟩ := cover
      cases listed.symm.trans sameFiles
      cases hashed.symm.trans samePieces
      exact enough
  · rw [if_neg version] at paid
    obtain ⟨files, layers, hashes, v1Hashes, listed, built, rfl⟩ := v2Payload_ok paid
    have notV1 : kind ≠ .v1 := by
      rintro rfl
      rw [torrentKind, if_neg version] at sort
      split_ifs at sort <;> cases sort
    rw [verifiable_per_file_iff shaped notV1 rfl built]
    constructor
    · intro enough
      refine ⟨info, declared, found, hasLength, ?_⟩
      rw [if_neg version]
      exact ⟨files, listed, enough⟩
    · rintro ⟨otherInfo, otherLength, sameInfo, sameLength, cover⟩
      cases found.symm.trans sameInfo
      cases hasLength.symm.trans sameLength
      rw [if_neg version] at cover
      obtain ⟨otherFiles, sameFiles, enough⟩ := cover
      cases listed.symm.trans sameFiles
      exact enough

theorem fully_verifiable_five_bytes :
    ∃ t, Torrent.fromBytes zeroDigests fiveByteTorrent = .ok t ∧
      (t.FullyVerifiable ↔ HashesCover fiveByteTorrent) := by
  have accepted : (Torrent.fromBytes zeroDigests fiveByteTorrent).toOption.map Torrent.totalSize = some 5 := by
    decide
  obtain ⟨t, ok, -⟩ := map_toOption_eq_some.mp accepted
  exact ⟨t, ok, fully_verifiable_iff zeroDigests fiveByteTorrent t ok⟩

def shortHashTorrent : Bytes :=
  ascii "d4:infod6:lengthi5e12:piece lengthi4e6:pieces20:aaaaaaaaaaaaaaaaaaaaee"

/-- A v1 torrent is accepted with fewer hashes than pieces. -/
theorem accepted_without_hashes : ¬ ∀ (digests : Digests) (data : Bytes) (t : Torrent),
    Torrent.fromBytes digests data = .ok t → t.FullyVerifiable := by
  intro always
  have run : (Torrent.fromBytes zeroDigests shortHashTorrent).toOption.map
      (fun t => (t.pieceCount, t.pieceHash 1)) = some (2, none) := by
    decide
  obtain ⟨t, ok, values⟩ := map_toOption_eq_some.mp run
  simp only [Prod.mk.injEq] at values
  obtain ⟨h, info, hashed, -⟩ := (always zeroDigests shortHashTorrent t ok).covered 1 (by omega)
  rw [values.2] at hashed
  cases hashed

end TypeBit.Metainfo
