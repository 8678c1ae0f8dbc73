import TypeBit.Metainfo.Layout

/-! Every accepted torrent's pieces tile its payload: `piece_info`, `piece_abs_offset` and
`locate_offset` all read the same list of tile lengths. -/

namespace TypeBit.Metainfo
open Tiling

namespace Torrent

def tileList (t : Torrent) : List Nat :=
  match t.kind with
  | .v1 => cut t.pieceLength t.totalSize
  | _ => tiles t.pieceLength (lengths t.files)

def layoutPieces (t : Torrent) : Nat :=
  match t.kind with
  | .v1 => divCeil t.totalSize t.pieceLength
  | _ => (t.files.map (fun f => divCeil f.length t.pieceLength)).sum

def lenAt (t : Torrent) (i : Nat) : Nat :=
  match t.pieceInfo i with
  | .ok info => info.len
  | .error _ => 0

end Torrent

structure Sound (t : Torrent) : Prop extends Shaped t where
  fits : (lengths t.files).sum < 2 ^ 64
  adds : (lengths t.files).sum = t.totalSize

theorem length_tileList (t : Torrent) : t.tileList.length = t.layoutPieces := by
  unfold Torrent.tileList Torrent.layoutPieces
  cases t.kind with
  | v1 => exact length_cut _ _
  | v2 => simp [length_tiles, lengths, Function.comp_def, divCeil_eq_count]
  | hybrid => simp [length_tiles, lengths, Function.comp_def, divCeil_eq_count]

variable {t : Torrent}

theorem sum_tileList (sound : Sound t) : t.tileList.sum = t.totalSize := by
  unfold Torrent.tileList
  cases t.kind with
  | v1 => exact sum_cut sound.positive
  | v2 => rw [sum_tiles sound.positive, sound.adds]
  | hybrid => rw [sum_tiles sound.positive, sound.adds]

structure Placed (t : Torrent) (i : Nat) (info : PieceInfo) : Prop where
  info_eq : t.pieceInfo i = .ok info
  abs_eq : t.pieceAbsOffset i = .ok (t.tileList.take i).sum
  located : t.locateOffset (t.tileList.take i).sum = .ok (info.file, info.offset)
  tile : t.tileList[i]? = some info.len
  positive : 0 < info.len
  bounded : info.len ≤ t.pieceLength

theorem files_few (shaped : Shaped t) : 0 + t.files.length ≤ 2 ^ 32 := by
  have few := shaped.few
  simp only [MAX_FILES] at few
  omega

theorem locateOffset_ok (sound : Sound t) {abs k r : Nat}
    (found : locate (lengths t.files) abs = some (k, r)) : t.locateOffset abs = .ok (k, r) := by
  have inside := (locate_isSome_iff (lengths t.files) abs).mp ⟨_, found⟩
  have fits := sound.fits
  unfold Torrent.locateOffset
  rw [locateFrom_ok_iff (by omega) (by omega) (files_few sound.toShaped)]
  exact ⟨k, by omega, found⟩

variable {i : Nat}

theorem placed_v1 (sound : Sound t) (kind : t.kind = .v1) (below : i < t.layoutPieces) : ∃ info, Placed t i info := by
  simp only [Torrent.layoutPieces, kind, divCeil_eq_count] at below
  have start := (lt_count_iff sound.positive).mp below
  have fits := sound.fits
  have adds := sound.adds
  have narrow := sound.narrow
  have positive := sound.positive
  obtain ⟨⟨k, r⟩, found⟩ := (locate_isSome_iff (lengths t.files) (i * t.pieceLength)).mpr (by omega)
  have located := locateOffset_ok sound found
  have taken : (t.tileList.take i).sum = i * t.pieceLength := by
    simp only [Torrent.tileList, kind]
    rw [sum_take_cut positive]
    omega
  have length : min t.pieceLength (t.totalSize - i * t.pieceLength) % 2 ^ 32 =
      min t.pieceLength (t.totalSize - i * t.pieceLength) := Nat.mod_eq_of_lt (by omega)
  refine ⟨⟨k, r, min t.pieceLength (t.totalSize - i * t.pieceLength)⟩, ?_, ?_, ?_, ?_, ?_, ?_⟩
  · unfold Torrent.locateOffset at located
    simp only [Torrent.pieceInfo, kind, divCeil_eq_count, if_neg (by omega : ¬ i ≥ count t.pieceLength t.totalSize),
      wmul_of_lt (by omega : i * t.pieceLength < 2 ^ 64),
      wsub_of_le (by omega : i * t.pieceLength ≤ t.totalSize), length, located]
    rfl
  · simp only [Torrent.pieceAbsOffset, kind, taken, wmul_of_lt (by omega : i * t.pieceLength < 2 ^ 64)]
  · rw [taken, located]
  · simp only [Torrent.tileList, kind]
    exact getElem?_cut below
  · dsimp only
    omega
  · exact min_le_left _ _

section PerFile
variable {t : Torrent} (kind : t.kind ≠ .v1)
include kind

theorem tileList_per_file : t.tileList = tiles t.pieceLength (lengths t.files) := by
  unfold Torrent.tileList
  split
  · contradiction
  · rfl

theorem pieceInfo_per_file (i : Nat) : t.pieceInfo i = (v2Find t.pieceLength i t.files 0 0).map (fun found =>
    ⟨found.1 % 2 ^ 32, wmul found.2.2 t.pieceLength,
      min t.pieceLength (wsub found.2.1.length (wmul found.2.2 t.pieceLength)) % 2 ^ 32⟩) := by
  unfold Torrent.pieceInfo
  split
  · contradiction
  · dsimp only
    cases v2Find t.pieceLength i t.files 0 0 <;> rfl

theorem pieceAbsOffset_per_file (i : Nat) :
    t.pieceAbsOffset i = (v2Find t.pieceLength i t.files 0 0).map (fun found =>
      absFileOffset t.files (wmul found.2.2 t.pieceLength) found.1) := by
  unfold Torrent.pieceAbsOffset
  split
  · contradiction
  · dsimp only
    cases v2Find t.pieceLength i t.files 0 0 <;> rfl

end PerFile

theorem absFileOffset_eq (files : List FileEntry) (rel k : Nat)
    (fits : ((lengths files).take k).sum + rel < 2 ^ 64) :
    absFileOffset files rel k = ((lengths files).take k).sum + rel := by
  have before : lengths (files.take k) = (lengths files).take k := List.map_take
  rw [absFileOffset, foldl_wadd _ (by decide), before, Nat.zero_add, Nat.mod_eq_of_lt (by omega),
    wadd_of_lt fits]

theorem placed_per_file (sound : Sound t) (kind : t.kind ≠ .v1) (below : i < t.layoutPieces) :
    ∃ info r, Placed t i info ∧ info.offset = r * t.pieceLength ∧
      locate ((lengths t.files).map (count t.pieceLength)) i = some (info.file, r) ∧
      ∃ f, t.files[info.file]? = some f ∧ info.offset + info.len ≤ f.length := by
  rw [← length_tileList, tileList_per_file kind, length_tiles] at below
  have fits := sound.fits
  have narrow := sound.narrow
  have positive := sound.positive
  have few := files_few sound.toShaped
  have counts := sum_count_le positive (lengths t.files)
  obtain ⟨⟨k, r⟩, found⟩ := (locate_isSome_iff _ i).mpr below
  obtain ⟨l, segment, inside, tile, start⟩ := tiles_at positive found
  obtain ⟨f, file, rfl⟩ : ∃ f, t.files[k]? = some f ∧ f.length = l := by
    simpa [lengths] using segment
  have index := (List.getElem?_eq_some_iff.mp file).1
  have place : locate (lengths t.files) (((lengths t.files).take k).sum + r * t.pieceLength) =
      some (k, r * t.pieceLength) :=
    (locate_eq_some_iff ..).mpr ⟨f.length, segment, inside, rfl⟩
  have within := (locate_isSome_iff (lengths t.files) _).mp ⟨_, place⟩
  have walk : v2Find t.pieceLength i t.files 0 0 = .ok (k, f, r) :=
    (v2Find_ok_iff positive (by omega) (by omega) (by omega)).mpr ⟨k, by omega, file, found⟩
  have offset : wmul r t.pieceLength = r * t.pieceLength := wmul_of_lt (by omega)
  have length : min t.pieceLength (f.length - r * t.pieceLength) % 2 ^ 32 =
      min t.pieceLength (f.length - r * t.pieceLength) := Nat.mod_eq_of_lt (by omega)
  refine ⟨⟨k, r * t.pieceLength, min t.pieceLength (f.length - r * t.pieceLength)⟩, r,
    ⟨?_, ?_, ?_, ?_, ?_, ?_⟩, rfl, found, f, file, ?_⟩
  · rw [pieceInfo_per_file kind, walk]
    simp only [Except.map, offset, wsub_of_le (by omega : r * t.pieceLength ≤ f.length), length,
      Nat.mod_eq_of_lt (by omega : k < 2 ^ 32)]
  · rw [pieceAbsOffset_per_file kind, walk, tileList_per_file kind, start]
    simp only [Except.map, offset, absFileOffset_eq t.files (r * t.pieceLength) k (by omega)]
  · rw [tileList_per_file kind, start]
    exact locateOffset_ok sound place
  · rw [tileList_per_file kind]
    exact tile
  · dsimp only
    omega
  · exact min_le_left _ _
  · dsimp only
    omega

theorem placed (sound : Sound t) (below : i < t.layoutPieces) : ∃ info, Placed t i info := by
  by_cases kind : t.kind = .v1
  · exact placed_v1 sound kind below
  · obtain ⟨info, -, here, -⟩ := placed_per_file sound kind below
    exact ⟨info, here⟩

theorem pieceInfo_beyond (sound : Sound t) (small : i < 2 ^ 32) (beyond : t.layoutPieces ≤ i) :
    ∃ e, t.pieceInfo i = .error e := by
  by_cases kind : t.kind = .v1
  · simp only [Torrent.layoutPieces, kind] at beyond
    simp [Torrent.pieceInfo, kind, beyond]
  · rw [← length_tileList, tileList_per_file kind, length_tiles] at beyond
    have counts := sum_count_le sound.positive (lengths t.files)
    have fits := sound.fits
    rw [pieceInfo_per_file kind]
    cases walk : v2Find t.pieceLength i t.files 0 0 with
    | error e => exact ⟨e, rfl⟩
    | ok found =>
      obtain ⟨k, f, r⟩ := found
      obtain ⟨j, -, -, located⟩ := (v2Find_ok_iff sound.positive (by omega) (by omega) (by omega)).mp walk
      have inside := (locate_isSome_iff _ i).mp ⟨_, located⟩
      omega

/-- The layout law: the indices with a layout are an initial segment of the 32-bit ones, each piece is where
`locate_offset` finds it, consecutive pieces abut, and together they are the payload. -/
structure TilesPayload (t : Torrent) (n : Nat) : Prop where
  few : n ≤ 2 ^ 32
  segment : ∀ i < 2 ^ 32, (∃ info, t.pieceInfo i = .ok info) ↔ i < n
  located : ∀ i < n, ∀ info, t.pieceInfo i = .ok info → ∃ abs, t.pieceAbsOffset i = .ok abs ∧
    t.locateOffset abs = .ok (info.file, info.offset) ∧ 0 < info.len ∧ info.len ≤ t.pieceLength
  abuts : ∀ i, i + 1 < n → ∀ info abs, t.pieceInfo i = .ok info → t.pieceAbsOffset i = .ok abs →
    t.pieceAbsOffset (i + 1) = .ok (abs + info.len)
  closes : ∀ i, i + 1 = n → ∀ info abs, t.pieceInfo i = .ok info → t.pieceAbsOffset i = .ok abs →
    abs + info.len = t.totalSize
  first : 0 < n → t.pieceAbsOffset 0 = .ok 0
  total : ((List.range n).map t.lenAt).sum = t.totalSize
  inFile : t.kind ≠ .v1 → ∀ i < n, ∀ info, t.pieceInfo i = .ok info →
    ∃ f, t.files[info.file]? = some f ∧ info.offset + info.len ≤ f.length

theorem Placed.of_info (sound : Sound t) (below : i < t.layoutPieces) {info : PieceInfo}
    (known : t.pieceInfo i = .ok info) : Placed t i info := by
  obtain ⟨other, here⟩ := placed sound below
  have same := here.info_eq.symm.trans known
  cases same
  exact here

theorem Placed.end_eq {info : PieceInfo} (here : Placed t i info) {abs : Nat}
    (start : t.pieceAbsOffset i = .ok abs) : abs + info.len = (t.tileList.take (i + 1)).sum := by
  have same := here.abs_eq.symm.trans start
  cases same
  rw [List.take_add_one, here.tile, List.sum_append]
  simp

theorem lens_eq_tileList (sound : Sound t) : (List.range t.layoutPieces).map t.lenAt = t.tileList := by
  apply List.ext_getElem?
  intro i
  by_cases below : i < t.layoutPieces
  · obtain ⟨info, here⟩ := placed sound below
    rw [List.getElem?_map, List.getElem?_range below, here.tile]
    simp [Torrent.lenAt, here.info_eq]
  · rw [List.getElem?_eq_none (by simpa using below), List.getElem?_eq_none (by rw [length_tileList]; omega)]

/-- The pieces of every accepted torrent whose size does not wrap and whose pieces have 32-bit indices tile its payload. -/
theorem layout_tiles_payload (digests : Digests) (data : Bytes) (t : Torrent)
    (accepted : Torrent.fromBytes digests data = .ok t) (fits : (lengths t.files).sum < 2 ^ 64)
    (adds : (lengths t.files).sum = t.totalSize) (few : t.layoutPieces ≤ 2 ^ 32) : ∃ n, TilesPayload t n := by
  have sound : Sound t := ⟨fromBytes_shaped accepted, fits, adds⟩
  refine ⟨t.layoutPieces, ⟨few, ?_, ?_, ?_, ?_, ?_, ?_, ?_⟩⟩
  · intro i small
    constructor
    · rintro ⟨info, known⟩
      by_contra beyond
      obtain ⟨e, failed⟩ := pieceInfo_beyond sound small (by omega)
      rw [known] at failed
      cases failed
    · intro below
      obtain ⟨info, here⟩ := placed sound below
      exact ⟨info, here.info_eq⟩
  · intro i below info known
    have here := Placed.of_info sound below known
    exact ⟨_, here.abs_eq, here.located, here.positive, here.bounded⟩
  · intro i below info abs known start
    have here := Placed.of_info sound (by omega) known
    obtain ⟨next, there⟩ := placed sound below
    rw [there.abs_eq, here.end_eq start]
  · intro i last info abs known start
    have here := Placed.of_info sound (by omega) known
    rw [here.end_eq start, List.take_of_length_le (by rw [length_tileList]; omega), sum_tileList sound]
  · intro some
    obtain ⟨info, here⟩ := placed sound some
    simpa using here.abs_eq
  · rw [lens_eq_tileList sound, sum_tileList sound]
  · intro kind i below info known
    obtain ⟨other, -, here, -, -, inside⟩ := placed_per_file sound kind below
    have same := here.info_eq.symm.trans known
    cases same
    exact inside

def fiveByteTorrent : Bytes :=
  ascii "d4:infod6:lengthi5e12:piece lengthi4e6:pieces40:aaaaaaaaaaaaaaaaaaaabbbbbbbbbbbbbbbbbbbbee"

theorem layout_tiles_five_bytes :
    ∃ t, Torrent.fromBytes zeroDigests fiveByteTorrent = .ok t ∧ ∃ n, TilesPayload t n := by
  have accepted : (Torrent.fromBytes zeroDigests fiveByteTorrent).toOption.map
      (fun t => (lengths t.files, t.totalSize, t.layoutPieces)) = some ([5], 5, 2) := by
    decide
  obtain ⟨t, ok, sizes⟩ := map_toOption_eq_some.mp accepted
  simp only [Prod.mk.injEq] at sizes
  exact ⟨t, ok, layout_tiles_payload zeroDigests fiveByteTorrent t ok (by rw [sizes.1]; decide)
    (by rw [sizes.1, sizes.2.1]; rfl) (by rw [sizes.2.2]; decide)⟩

/-- Past the last piece the v1 offset is a whole piece further on, not the end of the payload. -/
theorem abs_offset_past_last : ¬ ∀ (digests : Digests) (data : Bytes) (t : Torrent),
    Torrent.fromBytes digests data = .ok t → (lengths t.files).sum < 2 ^ 64 →
    (lengths t.files).sum = t.totalSize → t.layoutPieces ≤ 2 ^ 32 →
    ∀ i info abs, t.pieceInfo i = .ok info → t.pieceAbsOffset i = .ok abs →
      t.pieceAbsOffset (i + 1) = .ok (abs + info.len) := by
  intro always
  have sizes : (Torrent.fromBytes zeroDigests fiveByteTorrent).toOption.map
      (fun t => (lengths t.files, t.totalSize, t.layoutPieces)) = some ([5], 5, 2) := by
    decide
  have calls : (Torrent.fromBytes zeroDigests fiveByteTorrent).toOption.map
      (fun t => (t.pieceInfo 1, t.pieceAbsOffset 1, t.pieceAbsOffset 2)) = some (.ok ⟨0, 4, 1⟩, .ok 4, .ok 8) := by
    decide
  obtain ⟨t, ok, recorded⟩ := map_toOption_eq_some.mp sizes
  rw [ok] at calls
  simp only [Except.toOption, Option.map_some, Option.some.injEq, Prod.mk.injEq] at recorded calls
  have step := always zeroDigests fiveByteTorrent t ok (by rw [recorded.1]; decide)
    (by rw [recorded.1, recorded.2.1]; rfl) (by rw [recorded.2.2]; decide) 1 _ 4 calls.1 calls.2.1
  rw [calls.2.2] at step
  cases step

end TypeBit.Metainfo
