import Mathlib.Data.Nat.Log
import TypeBit.Lib.HashTree
import TypeBit.Metainfo.Declared
import TypeBit.Metainfo.Tiles

/-! Verifying a piece. The root a v2 piece is compared by is folded over its own blocks only; BEP 52 hashes the
perfect tree over as many leaves as a whole piece has blocks, blank ones included. -/

namespace TypeBit.Metainfo
open HashTree

/-! ### The code -/

def ZERO_HASH : Bytes := List.replicate 32 0

def blocks (data : Bytes) : List Bytes :=
  (List.range (divCeil data.length BLOCK_LEN)).map (fun i => (data.drop (i * BLOCK_LEN)).take BLOCK_LEN)

def Digests.digest2 (digests : Digests) (a b : Bytes) : Bytes := digests.sha256 (a ++ b)

/-- The root over block hashes: parents hash the concatenation of children, a lone child is promoted unchanged. -/
def merkleRoot (digests : Digests) (leaves : List Bytes) : Bytes :=
  if leaves = [] then ZERO_HASH else (climb digests.digest2 leaves.length leaves).headD ZERO_HASH

def pieceRoot (digests : Digests) (data : Bytes) : Bytes := merkleRoot digests ((blocks data).map digests.sha256)

def Torrent.verifyPiece (digests : Digests) (t : Torrent) (index : Nat) (data : Bytes) : Result Unit := do
  let info ← t.pieceInfo index
  if data.length % 2 ^ 32 ≠ info.len then .error .range
  else match t.kind with
    | .v1 => do
        let expect ← okOr (t.pieceHash index) .range
        if digests.sha1 data ≠ expect.take 20 then .error .hashMismatch else .ok ()
    | _ => do
        let expect ← okOr (t.pieceHash index) .range
        if pieceRoot digests data ≠ expect.take 32 then .error .hashMismatch else .ok ()

theorem verifyPiece_ok_iff (digests : Digests) {t : Torrent} (perFile : t.kind ≠ .v1) (index : Nat) (data : Bytes) :
    t.verifyPiece digests index data = .ok () ↔
      ∃ info expect, t.pieceInfo index = .ok info ∧ data.length % 2 ^ 32 = info.len ∧
        t.pieceHash index = some expect ∧ pieceRoot digests data = expect.take 32 := by
  have unfolded : t.verifyPiece digests index data = (t.pieceInfo index >>= fun info =>
      if data.length % 2 ^ 32 ≠ info.len then .error .range
      else okOr (t.pieceHash index) .range >>= fun expect =>
        if pieceRoot digests data ≠ expect.take 32 then .error .hashMismatch else .ok ()) := by
    cases kind : t.kind with
    | v1 => exact absurd kind perFile
    | v2 => simp only [Torrent.verifyPiece, kind]
    | hybrid => simp only [Torrent.verifyPiece, kind]
  rw [unfolded]
  constructor
  · intro passed
    obtain ⟨info, placed, rest⟩ := bind_eq_ok.mp passed
    obtain ⟨length, rest⟩ := guard_eq_ok.mp rest
    obtain ⟨expect, hashed, rest⟩ := bind_eq_ok.mp rest
    obtain ⟨same, -⟩ := guard_eq_ok.mp rest
    exact ⟨info, expect, placed, not_not.mp length, okOr_eq_ok.mp hashed, not_not.mp same⟩
  · rintro ⟨info, expect, placed, length, hashed, same⟩
    refine bind_eq_ok.mpr ⟨info, placed, guard_eq_ok.mpr ⟨not_not.mpr length, bind_eq_ok.mpr ⟨expect, ?_, ?_⟩⟩⟩
    · exact okOr_eq_ok.mpr hashed
    · exact guard_eq_ok.mpr ⟨not_not.mpr same, rfl⟩

/-! ### BEP 52 -/

/-- The depth of the tree over a piece: the leaves fill up to the blocks of a whole piece, or, when the piece is all of
its file, to the next power of two. -/
def subtreeDepth (pieceLength fileLength len : Nat) : Nat :=
  if fileLength ≤ pieceLength then Nat.clog 2 (divCeil len BLOCK_LEN) else Nat.log 2 (pieceLength / BLOCK_LEN)

/-- The root of the perfect tree over the block hashes, filled up with blank leaves. -/
def subtreeRoot (digests : Digests) (depth : Nat) (data : Bytes) : Bytes :=
  perfect digests.digest2 ZERO_HASH depth (padded ZERO_HASH (2 ^ depth) ((blocks data).map digests.sha256))

theorem length_leaves (digests : Digests) (data : Bytes) :
    ((blocks data).map digests.sha256).length = divCeil data.length BLOCK_LEN := by
  rw [List.length_map, blocks, List.length_map, List.length_range]

theorem pieceRoot_full (digests : Digests) {data : Bytes} {depth : Nat} (full : divCeil data.length BLOCK_LEN = 2 ^ depth) :
    pieceRoot digests data = subtreeRoot digests depth data := by
  have count := (length_leaves digests data).trans full
  have some_leaf : (blocks data).map digests.sha256 ≠ [] := by
    intro none
    have positive : 0 < 2 ^ depth := Nat.two_pow_pos depth
    rw [none, List.length_nil] at count
    omega
  have unpadded : padded ZERO_HASH (2 ^ depth) ((blocks data).map digests.sha256) = (blocks data).map digests.sha256 := by
    rw [padded, count, Nat.sub_self, List.replicate_zero, List.append_nil]
  have climbed := climb_perfect digests.digest2 ZERO_HASH count
    (show depth ≤ ((blocks data).map digests.sha256).length by rw [count]; exact Nat.le_of_lt Nat.lt_two_pow_self)
  rw [pieceRoot, merkleRoot, if_neg some_leaf, climbed, subtreeRoot, unpadded]
  rfl

/-! ### A digest that counts nodes -/

namespace Counting

def enc (v : Nat) : Bytes := (v / 256).toUInt8 :: v.toUInt8 :: List.replicate 30 0

def dec : Bytes → Nat
  | high :: low :: _ => high.toNat * 256 + low.toNat
  | _ => 0

/-- The digest adds the counts of the two halves of a node and one for the node itself. -/
def digests : Digests := ⟨fun _ => List.replicate 20 0, fun b => enc (1 + dec (b.take 32) + dec (b.drop 32))⟩

theorem length_enc (v : Nat) : (enc v).length = 32 := by
  simp [enc]

theorem dec_enc (v : Nat) : dec (enc v) = v % 65536 := by
  change (v / 256).toUInt8.toNat * 256 + v.toUInt8.toNat = v % 65536
  rw [UInt8.toNat_ofNat', UInt8.toNat_ofNat']
  omega

theorem enc_congr {v w : Nat} (same : v % 65536 = w % 65536) : enc v = enc w := by
  have high : (v / 256).toUInt8 = (w / 256).toUInt8 := by
    apply UInt8.toNat.inj
    rw [UInt8.toNat_ofNat', UInt8.toNat_ofNat']
    omega
  have low : v.toUInt8 = w.toUInt8 := by
    apply UInt8.toNat.inj
    rw [UInt8.toNat_ofNat', UInt8.toNat_ofNat']
    omega
  rw [enc, enc, high, low]

theorem enc_weigh (a b : Nat) : enc (weigh a b) = digests.digest2 (enc a) (enc b) := by
  have front : (enc a ++ enc b).take 32 = enc a := List.take_left' (length_enc a)
  have back : (enc a ++ enc b).drop 32 = enc b := List.drop_left' (length_enc a)
  change enc (weigh a b) = enc (1 + dec ((enc a ++ enc b).take 32) + dec ((enc a ++ enc b).drop 32))
  rw [front, back, dec_enc, dec_enc]
  apply enc_congr
  rw [weigh]
  omega

theorem dec_replicate (n : Nat) : dec (List.replicate n 0) = 0 := by
  match n with
  | 0 => rfl
  | 1 => rfl
  | n + 2 => rfl

theorem leaves_zeros (n : Nat) :
    (blocks (List.replicate n 0)).map digests.sha256 = (List.replicate (divCeil n BLOCK_LEN) 1).map enc := by
  have leaf : ∀ m, digests.sha256 (List.replicate m 0) = enc 1 := by
    intro m
    change enc (1 + dec ((List.replicate m 0).take 32) + dec ((List.replicate m 0).drop 32)) = enc 1
    rw [List.take_replicate, List.drop_replicate, dec_replicate, dec_replicate]
  rw [blocks, List.map_map, List.map_replicate, List.length_replicate, List.eq_replicate_iff]
  refine ⟨by rw [List.length_map, List.length_range], ?_⟩
  intro b member
  obtain ⟨i, -, rfl⟩ := List.mem_map.mp member
  rw [Function.comp_apply, List.drop_replicate, List.take_replicate, leaf]

theorem full_of_same {n depth : Nat} (filled : 0 < divCeil n BLOCK_LEN) (below : divCeil n BLOCK_LEN ≤ 2 ^ depth)
    (small : depth ≤ 12)
    (same : pieceRoot digests (List.replicate n 0) = subtreeRoot digests depth (List.replicate n 0)) :
    divCeil n BLOCK_LEN = 2 ^ depth := by
  have cap : 2 ^ depth ≤ 2 ^ 12 := Nat.pow_le_pow_right (by decide) small
  generalize count : divCeil n BLOCK_LEN = m at filled below
  have some_leaf : List.replicate m 1 ≠ [] := by
    rw [ne_eq, List.replicate_eq_nil_iff]
    omega
  have folded : pieceRoot digests (List.replicate n 0) =
      enc ((climb weigh (List.replicate m 1).length (List.replicate m 1)).headD 0) := by
    have hashed : (List.replicate m 1).map enc ≠ [] := by
      rw [ne_eq, List.map_eq_nil_iff]
      exact some_leaf
    rw [pieceRoot, merkleRoot, leaves_zeros, count, if_neg hashed, List.length_map, ← map_climb enc_weigh]
    cases climb weigh (List.replicate m 1).length (List.replicate m 1) <;> rfl
  have filledUp : subtreeRoot digests depth (List.replicate n 0) =
      enc (perfect weigh 0 depth (padded 0 (2 ^ depth) (List.replicate m 1))) := by
    rw [subtreeRoot, leaves_zeros, count, map_perfect enc_weigh, map_padded]
    rfl
  have short := weight_climb (n := (List.replicate m 1).length) (l := List.replicate m 1) (by omega) some_leaf 0
  have length : (padded 0 (2 ^ depth) (List.replicate m 1)).length = 2 ^ depth := by
    rw [padded, List.length_append, List.length_replicate, List.length_replicate]
    omega
  have long := weight_perfect length 0
  rw [List.length_replicate] at short
  rw [folded, filledUp] at same
  have counts := congrArg dec same
  rw [dec_enc, dec_enc, List.length_replicate] at counts
  have leaves : (List.replicate m 1).sum = m := by
    rw [List.sum_replicate_nat, Nat.mul_one]
  have paddedLeaves : (padded 0 (2 ^ depth) (List.replicate m 1)).sum = m := by
    rw [padded, List.sum_append, leaves, List.sum_replicate_nat, Nat.mul_zero, Nat.add_zero]
  omega

end Counting

/-! ### Pieces of an accepted torrent -/

theorem v2Find_ok {pl index fi idx k r : Nat} {f : FileEntry} {files : List FileEntry} (reached : idx ≤ index)
    (found : v2Find pl index files fi idx = .ok (k, f, r)) :
    ∃ i, k = fi + i ∧ files[i]? = some f ∧ r < divCeil f.length pl := by
  induction files generalizing fi idx with
  | nil => cases found
  | cons g tail ih =>
    rw [v2Find] at found
    split at found
    · obtain ⟨i, rfl, listed, inside⟩ := ih reached found
      exact ⟨i + 1, by omega, listed, inside⟩
    · split at found
      next inside =>
        cases found
        refine ⟨0, rfl, rfl, ?_⟩
        have wrapped : wadd idx (divCeil f.length pl) ≤ idx + divCeil f.length pl := Nat.mod_le _ _
        rw [wsub_of_le reached]
        omega
      next beyond =>
        obtain ⟨i, rfl, listed, inside⟩ := ih (Nat.le_of_not_gt beyond) found
        exact ⟨i + 1, by omega, listed, inside⟩

theorem fromBytes_v2 {digests : Digests} {data : Bytes} {t : Torrent} (accepted : Torrent.fromBytes digests data = .ok t)
    (perFile : t.kind ≠ .v1) :
    (∃ k, 14 ≤ k ∧ k ≤ 26 ∧ t.pieceLength = 2 ^ k) ∧ t.files.length ≤ MAX_FILES ∧ ∀ f ∈ t.files, f.length < 2 ^ 63 := by
  have few := (fromBytes_shaped accepted).few
  obtain ⟨v, parsed, rest⟩ := bind_eq_ok.mp accepted
  obtain ⟨root, isDict, rest⟩ := bind_eq_ok.mp rest
  obtain ⟨w, hasInfo, rest⟩ := bind_eq_ok.mp rest
  obtain ⟨-, -, rest⟩ := bind_eq_ok.mp rest
  obtain ⟨infoRaw, captured, rest⟩ := bind_eq_ok.mp rest
  obtain ⟨info, infoDict, rest⟩ := bind_eq_ok.mp rest
  obtain ⟨declared, hasLength, rest⟩ := bind_eq_ok.mp rest
  obtain ⟨-, rest⟩ := guard_eq_ok.mp rest
  obtain ⟨allowed, rest⟩ := guard_eq_ok.mp rest
  obtain ⟨payload, paid, rest⟩ := bind_eq_ok.mp rest
  obtain ⟨kind, sort, built⟩ := bind_eq_ok.mp rest
  cases built
  rw [okOr_eq_ok] at isDict hasInfo infoDict hasLength
  rw [asDict_eq_some] at isDict infoDict
  subst isDict infoDict
  have two : metaVersionOf info = 2 := by
    by_contra other
    rw [torrentKind, if_neg other] at sort
    split at sort
    · cases sort
      exact perFile rfl
    · cases sort
  have power : v2PieceLength (asU32 declared) = true := by
    by_contra other
    exact allowed ⟨two, by simpa using other⟩
  refine ⟨?_, few, ?_⟩
  · obtain ⟨k, listed, same⟩ := List.any_eq_true.mp power
    obtain ⟨lower, upper⟩ := List.mem_range'_1.mp listed
    exact ⟨k, lower, by omega, of_decide_eq_true same⟩
  · have valid := valid_at? (Bencode.parse_valid parsed).2 hasInfo
    exact length_lt_of_v2 valid.2 (by omega) (payloadOf_declared paid).2.1

theorem pieceInfo_v2 {t : Torrent} (perFile : t.kind ≠ .v1) {k : Nat} (upper : k ≤ 26)
    (power : t.pieceLength = 2 ^ k) (few : t.files.length ≤ MAX_FILES) (short : ∀ f ∈ t.files, f.length < 2 ^ 63)
    {index : Nat} {info : PieceInfo} (placed : t.pieceInfo index = .ok info) :
    ∃ f, t.files[info.file]? = some f ∧ 0 < info.len ∧ info.len ≤ t.pieceLength := by
  have wide : 2 ^ k ≤ 2 ^ 26 := Nat.pow_le_pow_right (by decide) upper
  have positive : 0 < 2 ^ k := Nat.two_pow_pos k
  rw [pieceInfo_per_file perFile] at placed
  rcases found : v2Find t.pieceLength index t.files 0 0 with e | ⟨fi, f, rel⟩
  · rw [found] at placed
    cases placed
  · rw [found] at placed
    cases placed
    obtain ⟨i, rfl, listed, inside⟩ := v2Find_ok (Nat.zero_le _) found
    obtain ⟨bound, -⟩ := List.getElem?_eq_some_iff.mp listed
    have length := short f (List.mem_of_getElem? listed)
    have start : rel * t.pieceLength < f.length := by
      rw [divCeil, power] at inside
      rw [power]
      have fewer := (Nat.lt_div_iff_mul_lt positive).mp inside
      omega
    simp only [MAX_FILES] at few
    refine ⟨f, ?_, ?_, ?_⟩
    · dsimp only
      rw [Nat.mod_eq_of_lt (by omega), Nat.zero_add]
      exact listed
    · dsimp only
      rw [wmul_of_lt (by omega), wsub_of_le (by omega), power]
      rw [power] at start
      rw [Nat.mod_eq_of_lt (by omega)]
      omega
    · dsimp only
      rw [wmul_of_lt (by omega), wsub_of_le (by omega), power]
      exact (Nat.mod_le _ _).trans (Nat.min_le_left _ _)

/-- The number of blocks a piece has, against the leaves of its BEP 52 tree: of a whole piece's blocks none is missing,
or, when the piece is all of its file, they are a power of two. -/
def FullTree (t : Torrent) (f : FileEntry) (info : PieceInfo) : Prop :=
  (f.length ≤ t.pieceLength → ∃ k, divCeil info.len BLOCK_LEN = 2 ^ k) ∧
    (t.pieceLength < f.length → divCeil info.len BLOCK_LEN = t.pieceLength / BLOCK_LEN)

theorem fullTree_iff {t : Torrent} {f : FileEntry} {info : PieceInfo} {k : Nat} (lower : 14 ≤ k)
    (power : t.pieceLength = 2 ^ k) :
    FullTree t f info ↔ divCeil info.len BLOCK_LEN = 2 ^ subtreeDepth t.pieceLength f.length info.len := by
  have whole : t.pieceLength / BLOCK_LEN = 2 ^ (k - 14) := by
    rw [power, show BLOCK_LEN = 2 ^ 14 from rfl, Nat.pow_div lower (by decide)]
  unfold FullTree subtreeDepth
  split
  next single =>
    constructor
    · rintro ⟨some_power, -⟩
      obtain ⟨j, count⟩ := some_power single
      rw [count, Nat.clog_pow 2 j (by decide)]
    · intro count
      exact ⟨fun _ => ⟨_, count⟩, fun several => absurd single (by omega)⟩
  next several =>
    rw [whole, Nat.log_pow (by decide)]
    exact ⟨fun full => full.2 (by omega), fun count => ⟨fun single => absurd single several, fun _ => count⟩⟩

/-- The root that `verify_piece` compares is the BEP 52 root of the piece, for every 32-byte digest and all data of its
length, exactly when no blank leaf is needed. -/
theorem piece_root_iff (raw : Bytes) (t : Torrent) (index : Nat) (info : PieceInfo)
    (accepted : ∃ digests, Torrent.fromBytes digests raw = .ok t) (perFile : t.kind ≠ .v1)
    (placed : t.pieceInfo index = .ok info) :
    ∃ f, t.files[info.file]? = some f ∧
      ((∀ digests : Digests, (∀ b, (digests.sha256 b).length = 32) → ∀ data : Bytes, data.length = info.len →
        pieceRoot digests data = subtreeRoot digests (subtreeDepth t.pieceLength f.length info.len) data) ↔
        FullTree t f info) := by
  obtain ⟨digests, accepted⟩ := accepted
  obtain ⟨⟨k, lower, upper, power⟩, few, short⟩ := fromBytes_v2 accepted perFile
  obtain ⟨f, file, filled, below⟩ := pieceInfo_v2 perFile upper power few short placed
  refine ⟨f, file, ?_⟩
  rw [fullTree_iff lower power]
  constructor
  · intro same
    have some_block : 0 < divCeil info.len BLOCK_LEN := by
      simp only [divCeil, BLOCK_LEN]
      omega
    have fewer : divCeil info.len BLOCK_LEN ≤ 2 ^ (k - 14) := by
      have split : 2 ^ k = 2 ^ (k - 14) * BLOCK_LEN := by
        rw [show BLOCK_LEN = 2 ^ 14 from rfl, ← Nat.pow_add, Nat.sub_add_cancel lower]
      rw [power, split] at below
      rw [divCeil, Nat.le_iff_lt_add_one, Nat.div_lt_iff_lt_mul (by decide), Nat.add_mul, Nat.one_mul]
      simp only [BLOCK_LEN] at below ⊢
      omega
    have depth : divCeil info.len BLOCK_LEN ≤ 2 ^ subtreeDepth t.pieceLength f.length info.len ∧
        subtreeDepth t.pieceLength f.length info.len ≤ 12 := by
      unfold subtreeDepth
      split
      · have small := Nat.clog_le_of_le_pow fewer
        exact ⟨Nat.le_pow_clog (by decide) _, by omega⟩
      · rw [power, show BLOCK_LEN = 2 ^ 14 from rfl, Nat.pow_div lower (by decide), Nat.log_pow (by decide)]
        exact ⟨fewer, by omega⟩
    apply Counting.full_of_same some_block depth.1 depth.2
    exact same Counting.digests (fun _ => Counting.length_enc _) (List.replicate info.len 0) List.length_replicate
  · intro full digests _ data length
    rw [← length] at full ⊢
    exact pieceRoot_full digests full

def threeBlocks : Bytes :=
  ascii "d4:infod9:file treed1:ad0:d6:lengthi49152e11:pieces root32:rrrrrrrrrrrrrrrrrrrrrrrrrrrrrrrreee" ++
    ascii "12:meta versioni2e12:piece lengthi65536ee12:piece layersd" ++
      ascii "32:rrrrrrrrrrrrrrrrrrrrrrrrrrrrrrrr32:hhhhhhhhhhhhhhhhhhhhhhhhhhhhhhhhee"

theorem threeBlocks_accepted :
    ∃ t f, Torrent.fromBytes Counting.digests threeBlocks = .ok t ∧ t.kind = .v2 ∧ t.pieceLength = 65536 ∧
      t.files = [f] ∧ f.length = 49152 ∧ t.pieceInfo 0 = .ok ⟨0, 0, 49152⟩ := by
  have accepted : (Torrent.fromBytes Counting.digests threeBlocks).toOption.map
      (fun t => (t.kind, t.pieceLength, t.files.map FileEntry.length, (t.pieceInfo 0).toOption)) =
      some (.v2, 65536, [49152], some ⟨0, 0, 49152⟩) := by
    decide +kernel
  obtain ⟨t, ok, fields⟩ := map_toOption_eq_some.mp accepted
  simp only [Prod.mk.injEq] at fields
  obtain ⟨kind, pieces, files, placed⟩ := fields
  obtain ⟨f, only, length⟩ := List.map_eq_singleton_iff.mp files
  refine ⟨t, f, ok, kind, pieces, only, length, ?_⟩
  cases found : t.pieceInfo 0 with
  | error e =>
    rw [found] at placed
    cases placed
  | ok info =>
    rw [found] at placed
    cases placed
    rfl

theorem piece_root_three_blocks :
    ∃ t f, Torrent.fromBytes Counting.digests threeBlocks = .ok t ∧
      ((∀ digests : Digests, (∀ b, (digests.sha256 b).length = 32) → ∀ data : Bytes, data.length = 49152 →
        pieceRoot digests data = subtreeRoot digests (subtreeDepth t.pieceLength f.length 49152) data) ↔
        FullTree t f ⟨0, 0, 49152⟩) := by
  obtain ⟨t, -, ok, kind, -, -, -, placed⟩ := threeBlocks_accepted
  have perFile : t.kind ≠ .v1 := by
    rw [kind]
    decide
  obtain ⟨f, -, exact⟩ := piece_root_iff threeBlocks t 0 _ ⟨_, ok⟩ perFile placed
  exact ⟨t, f, ok, exact⟩

/-- Its one piece, all zeros, is compared by a root without the fourth leaf. -/
theorem short_piece_root_differs : ¬ ∀ (raw : Bytes) (t : Torrent) (index : Nat) (info : PieceInfo) (f : FileEntry)
    (digests : Digests) (data : Bytes), Torrent.fromBytes digests raw = .ok t → t.kind ≠ .v1 →
      t.pieceInfo index = .ok info → t.files[info.file]? = some f → (∀ b, (digests.sha256 b).length = 32) →
      data.length = info.len →
      pieceRoot digests data = subtreeRoot digests (subtreeDepth t.pieceLength f.length info.len) data := by
  intro always
  obtain ⟨t, f, ok, kind, pieces, only, length, placed⟩ := threeBlocks_accepted
  have perFile : t.kind ≠ .v1 := by
    rw [kind]
    decide
  have listed : t.files[0]? = some f := by
    rw [only]
    rfl
  have same := always threeBlocks t 0 _ f Counting.digests (List.replicate 49152 0) ok perFile placed listed
    (fun _ => Counting.length_enc _) List.length_replicate
  have depth : subtreeDepth t.pieceLength f.length 49152 = 2 := by
    rw [pieces, length]
    decide
  rw [depth] at same
  have full := Counting.full_of_same (by decide) (by decide) (by decide) same
  exact absurd full (by decide)

end TypeBit.Metainfo
