import Mathlib.Data.Set.Function
import Mathlib.Tactic.Ring
import TypeBit.Lib.Radix
import TypeBit.Metainfo.PieceRoot

/-! What a passed verification binds: two strings that pass for one piece are the same, unless two strings that are hashed
collide, or the lengths differ by what the comparison in 32 bits does not see. -/

namespace TypeBit.Metainfo
open HashTree LittleEndian

/-- The strings that are hashed to verify data: its blocks, and the pairs of digests above them. -/
def hashed (digests : Digests) (data : Bytes) : List Bytes :=
  blocks data ++ (allJoins digests.digest2 (blocks data).length ((blocks data).map digests.sha256)).map fun p => p.1 ++ p.2

theorem length_blocks (data : Bytes) : (blocks data).length = divCeil data.length BLOCK_LEN := by
  rw [blocks, List.length_map, List.length_range]

theorem flatten_blocks (data : Bytes) : (blocks data).flatten = data := by
  have front (n : Nat) : ((List.range n).map fun i => (data.drop (i * BLOCK_LEN)).take BLOCK_LEN).flatten =
      data.take (n * BLOCK_LEN) := by
    induction n with
    | zero => rw [Nat.zero_mul, List.take_zero]; rfl
    | succ n ih =>
      rw [List.range_succ, List.map_append, List.flatten_append, ih, List.map_singleton, List.flatten_singleton, Nat.succ_mul,
        List.take_add]
  rw [blocks, front]
  apply List.take_of_length_le
  simp only [divCeil, BLOCK_LEN]
  omega

theorem map_injective_on {α β : Type} {f : α → β} {l m : List α} (apart : ∀ a ∈ l, ∀ b ∈ m, f a = f b → a = b)
    (same : l.map f = m.map f) : l = m := by
  induction l generalizing m with
  | nil => exact (List.map_eq_nil_iff.mp same.symm).symm
  | cons a l ih =>
    cases m with
    | nil => cases same
    | cons b m =>
      obtain ⟨first, rest⟩ := List.cons_eq_cons.mp same
      rw [apart a List.mem_cons_self b List.mem_cons_self first,
        ih (fun c left d right => apart c (List.mem_cons_of_mem a left) d (List.mem_cons_of_mem b right)) rest]

theorem climb_eq_singleton {digests : Digests} {data : Bytes} (filled : data ≠ []) :
    climb digests.digest2 (blocks data).length ((blocks data).map digests.sha256) = [pieceRoot digests data] := by
  have some_leaf : (blocks data).map digests.sha256 ≠ [] := by
    intro none
    apply filled
    rw [← flatten_blocks data, List.map_eq_nil_iff.mp none, List.flatten_nil]
  have positive := List.length_pos_iff.mpr some_leaf
  have single := length_climb digests.digest2 (Nat.le_succ ((blocks data).map digests.sha256).length)
  rw [Nat.min_eq_right positive] at single
  obtain ⟨root, climbed⟩ := List.length_eq_one_iff.mp single
  rw [pieceRoot, merkleRoot, if_neg some_leaf, climbed, List.headD_cons, ← climbed, List.length_map]

theorem pieceRoot_injective {digests : Digests} (wide : ∀ s, (digests.sha256 s).length = 32) {a b : Bytes}
    (length : a.length = b.length)
    (apart : ∀ s ∈ hashed digests a, ∀ u ∈ hashed digests b, digests.sha256 s = digests.sha256 u → s = u)
    (roots : pieceRoot digests a = pieceRoot digests b) : a = b := by
  have count : (blocks a).length = (blocks b).length := by rw [length_blocks, length_blocks, length]
  have leaves : (blocks a).map digests.sha256 = (blocks b).map digests.sha256 := by
    have width (data : Bytes) : ∀ p ∈ allJoins digests.digest2 (blocks data).length ((blocks data).map digests.sha256),
        p.1.length = 32 ∧ p.2.length = 32 := by
      apply allJoins_forall (P := fun s : Bytes => s.length = 32)
      · exact fun c d => wide (c ++ d)
      · intro x member
        obtain ⟨s, -, rfl⟩ := List.mem_map.mp member
        exact wide s
    apply @climb_injective _ digests.digest2 (blocks a).length _ _ (by rw [List.length_map, List.length_map, count])
    · intro p left q right same
      rw [count] at right
      have joined : p.1 ++ p.2 = q.1 ++ q.2 := by
        apply apart _ _ _ _ same
        · exact List.mem_append.mpr (.inr (List.mem_map_of_mem left))
        · exact List.mem_append.mpr (.inr (List.mem_map_of_mem right))
      obtain ⟨first, second⟩ := List.append_inj joined ((width a p left).1.trans (width b q right).1.symm)
      exact Prod.ext first second
    · by_cases none : a = []
      · have none' : b = [] := List.length_eq_zero_iff.mp (length ▸ List.length_eq_zero_iff.mpr none)
        rw [none, none']
      · have filled : b ≠ [] := fun none' => none (List.length_eq_zero_iff.mp (length.trans (List.length_eq_zero_iff.mpr none')))
        rw [climb_eq_singleton none, roots, ← climb_eq_singleton filled, count]
  have blocks_eq : blocks a = blocks b :=
    map_injective_on (fun s left u right => apart s (List.mem_append_left _ left) u (List.mem_append_left _ right)) leaves
  rw [← flatten_blocks a, blocks_eq, flatten_blocks]

theorem verifyPiece_v1 (digests : Digests) {t : Torrent} (one : t.kind = .v1) {index : Nat} {data : Bytes}
    (passed : t.verifyPiece digests index data = .ok ()) :
    ∃ expect, t.pieceHash index = some expect ∧ digests.sha1 data = expect.take 20 := by
  rw [Torrent.verifyPiece, one] at passed
  obtain ⟨info, -, rest⟩ := bind_eq_ok.mp passed
  obtain ⟨-, rest⟩ := guard_eq_ok.mp rest
  obtain ⟨expect, listed, rest⟩ := bind_eq_ok.mp rest
  obtain ⟨same, -⟩ := guard_eq_ok.mp rest
  exact ⟨expect, okOr_eq_ok.mp listed, not_not.mp same⟩

/-- Two strings that pass for one piece are the same exactly if the torrent is v1 or they are of one length, unless there is a
collision among the strings that are hashed for them. -/
theorem verifyPiece_binding_iff {digests : Digests} (wide : ∀ s, (digests.sha256 s).length = 32) {t : Torrent} {index : Nat}
    {a b : Bytes} (first : t.verifyPiece digests index a = .ok ()) (second : t.verifyPiece digests index b = .ok ())
    (sha1 : Set.InjOn digests.sha1 {a, b}) (sha256 : Set.InjOn digests.sha256 {s | s ∈ hashed digests a ∨ s ∈ hashed digests b}) :
    a = b ↔ t.kind = .v1 ∨ a.length = b.length := by
  constructor
  · rintro rfl
    exact .inr rfl
  · intro condition
    by_cases perFile : t.kind ≠ .v1
    · have length := condition.resolve_left perFile
      obtain ⟨_, expect, -, -, hash, root⟩ := (verifyPiece_ok_iff digests perFile index a).mp first
      obtain ⟨_, expect', -, -, hash', root'⟩ := (verifyPiece_ok_iff digests perFile index b).mp second
      have same : expect = expect' := Option.some.inj (hash.symm.trans hash')
      apply pieceRoot_injective wide length fun s left u right => sha256 (.inl left) (.inr right)
      rw [root, root', same]
    · obtain ⟨expect, listed, digest⟩ := verifyPiece_v1 digests (not_not.mp perFile) first
      obtain ⟨expect', listed', digest'⟩ := verifyPiece_v1 digests (not_not.mp perFile) second
      have same : expect = expect' := Option.some.inj (listed.symm.trans listed')
      apply sha1 (Set.mem_insert a {b}) (Set.mem_insert_of_mem a rfl)
      rw [digest, digest', same]

/-! ### Two strings for one piece -/

def tally : Digests :=
  ⟨id, fun s => write 32 (1 + read (s.take 32) + read ((s.drop 32).take 32))⟩

theorem tally_wide (s : Bytes) : (tally.sha256 s).length = 32 := length_write 32 _

theorem tally_pair {a b : Nat} (small : 1 + a + b < 256 ^ 32) :
    tally.digest2 (write 32 a) (write 32 b) = write 32 (1 + a + b) := by
  have width := length_write 32 a
  rw [Digests.digest2]
  change write 32 (1 + read (List.take 32 _) + read (List.take 32 (List.drop 32 _))) = _
  rw [List.take_left' width, List.drop_left' width, List.take_of_length_le (length_write 32 b).le,
    read_write_of_lt (by omega), read_write_of_lt (by omega)]

def lastBlock : Bytes := write 64 5

def long : Bytes := List.replicate (2 ^ 18 * BLOCK_LEN) 0 ++ lastBlock

def short : Bytes := write 32 (2 ^ 19 - 1) ++ write 32 6

theorem blocks_append {front : Bytes} (full : front.length = BLOCK_LEN) (rest : Bytes) :
    blocks (front ++ rest) = front :: blocks rest := by
  have count : divCeil (front ++ rest).length BLOCK_LEN = divCeil rest.length BLOCK_LEN + 1 := by
    rw [List.length_append, full, divCeil, divCeil, BLOCK_LEN]
    omega
  have first : ((front ++ rest).drop (0 * BLOCK_LEN)).take BLOCK_LEN = front := by
    rw [Nat.zero_mul, List.drop_zero, List.take_left' full]
  rw [blocks, count, List.range_succ_eq_map, List.map_cons, first, List.map_map, blocks]
  apply congrArg
  apply List.map_congr_left
  intro i _
  rw [Function.comp_apply, Nat.succ_mul, Nat.add_comm, ← List.drop_drop, List.drop_left' full]

theorem blocks_single {data : Bytes} (filled : 0 < data.length) (fits : data.length ≤ BLOCK_LEN) : blocks data = [data] := by
  have count : divCeil data.length BLOCK_LEN = 1 := by
    rw [divCeil, BLOCK_LEN]
    rw [BLOCK_LEN] at fits
    omega
  rw [blocks, count, List.range_one, List.map_singleton, Nat.zero_mul, List.drop_zero, List.take_of_length_le fits]

theorem blocks_zeros (n : Nat) {last : Bytes} (filled : 0 < last.length) (fits : last.length ≤ BLOCK_LEN) :
    blocks (List.replicate (n * BLOCK_LEN) 0 ++ last) = List.replicate n (List.replicate BLOCK_LEN 0) ++ [last] := by
  induction n with
  | zero =>
    rw [Nat.zero_mul, List.replicate_zero, List.nil_append, blocks_single filled fits]
    rfl
  | succ n ih =>
    rw [Nat.succ_mul, Nat.add_comm, List.replicate_add, List.append_assoc, blocks_append List.length_replicate, ih,
      List.replicate_succ, List.cons_append]

theorem tally_doubled (a k : Nat) (small : (a + 1) * 2 ^ k ≤ 256 ^ 32) :
    doubled tally.digest2 (write 32 a) k = write 32 ((a + 1) * 2 ^ k - 1) := by
  induction k generalizing a with
  | zero => rw [doubled, Nat.pow_zero, Nat.mul_one, Nat.add_sub_cancel]
  | succ k ih =>
    have positive := Nat.two_pow_pos k
    have double : (a + 1) * 2 ^ (k + 1) = (1 + a + a + 1) * 2 ^ k := by
      rw [Nat.pow_succ']
      ring
    have start : 1 + a + a + 1 ≤ (1 + a + a + 1) * 2 ^ k := Nat.le_mul_of_pos_right _ positive
    rw [double] at small ⊢
    rw [doubled, tally_pair (by omega), ih _ small]

theorem tally_block : tally.sha256 (List.replicate BLOCK_LEN 0) = write 32 1 := by
  change write 32 (1 + read ((List.replicate BLOCK_LEN 0).take 32) +
    read (((List.replicate BLOCK_LEN 0).drop 32).take 32)) = _
  rw [List.take_replicate, List.drop_replicate, List.take_replicate]
  rfl

theorem tally_zeros {k : Nat} (small : k ≤ 18) :
    doubled tally.digest2 (tally.sha256 (List.replicate BLOCK_LEN 0)) k = write 32 (2 ^ (k + 1) - 1) := by
  have bound : 2 ^ k ≤ 2 ^ 18 := Nat.pow_le_pow_right (by decide) small
  rw [tally_block, tally_doubled 1 k (by omega), Nat.pow_succ']

theorem lastBlock_digest : tally.sha256 lastBlock = write 32 6 := by decide

theorem length_lastBlock : lastBlock.length = 64 := length_write 64 5

theorem length_short : short.length = 64 := by
  rw [short, List.length_append, length_write, length_write]

theorem length_long : long.length = 2 ^ 32 + 64 := by
  rw [long, List.length_append, List.length_replicate, length_lastBlock]
  rfl

theorem blocks_long : blocks long = List.replicate (2 ^ 18) (List.replicate BLOCK_LEN 0) ++ [lastBlock] :=
  blocks_zeros (2 ^ 18) (by rw [length_lastBlock]; decide) (by rw [length_lastBlock]; decide)

theorem leaves_long : (blocks long).map tally.sha256 =
    List.replicate (2 ^ 18) (tally.sha256 (List.replicate BLOCK_LEN 0)) ++ [write 32 6] := by
  rw [blocks_long, List.map_append, List.map_replicate, List.map_singleton, lastBlock_digest]

theorem blocks_short : blocks short = [short] :=
  blocks_single (by rw [length_short]; decide) (by rw [length_short]; decide)

theorem same_root : pieceRoot tally long = write 32 (2 ^ 19 + 6) ∧
    pieceRoot tally short = write 32 (2 ^ 19 + 6) := by
  have top : tally.digest2 (write 32 (2 ^ 19 - 1)) (write 32 6) =
      write 32 (2 ^ 19 + 6) := by
    rw [tally_pair (by decide)]
    rfl
  constructor
  · have filled : long ≠ [] := by
      intro none
      have length := length_long
      rw [none] at length
      cases length
    have climbed := @climb_eq_singleton tally _ filled
    rw [leaves_long, climb_replicate, tally_zeros le_rfl, top] at climbed
    · exact (List.singleton_inj.mp climbed).symm
    · rw [blocks_long, List.length_append, List.length_replicate]
      omega
  · have filled : short ≠ [] := by
      intro none
      have length := length_short
      rw [none] at length
      cases length
    have climbed := @climb_eq_singleton tally _ filled
    rw [blocks_short, List.map_singleton, climb_singleton] at climbed
    exact (List.singleton_inj.mp climbed).symm.trans top

def preimage (n : Nat) : Bytes :=
  if n = 2 ^ 19 + 6 then short
  else if n = 6 then lastBlock
  else if n = 1 then List.replicate BLOCK_LEN 0
  else write 32 ((n - 1) / 2) ++ write 32 ((n - 1) / 2)

theorem preimage_short : preimage (read (tally.sha256 short)) = short := by
  have digest : tally.sha256 short = write 32 (2 ^ 19 + 6) := by
    change tally.digest2 (write 32 (2 ^ 19 - 1)) (write 32 6) = _
    rw [tally_pair (by decide)]
    rfl
  rw [digest, read_write_of_lt (by decide), preimage, if_pos rfl]

theorem preimage_pair {k : Nat} (small : k < 18) :
    preimage (read
      (tally.digest2 (write 32 (2 ^ (k + 1) - 1)) (write 32 (2 ^ (k + 1) - 1)))) =
      write 32 (2 ^ (k + 1) - 1) ++ write 32 (2 ^ (k + 1) - 1) := by
  have bound : 2 ^ k ≤ 2 ^ 17 := Nat.pow_le_pow_right (by decide) (by omega)
  have positive := Nat.two_pow_pos k
  have double : 2 ^ (k + 1) = 2 * 2 ^ k := Nat.pow_succ'
  rw [double, tally_pair (by omega), read_write_of_lt (by omega), preimage, if_neg (by omega), if_neg (by omega),
    if_neg (by omega)]
  have half : (1 + (2 * 2 ^ k - 1) + (2 * 2 ^ k - 1) - 1) / 2 = 2 * 2 ^ k - 1 := by omega
  rw [half]

theorem preimage_hashed {s : Bytes} (member : s ∈ hashed tally short ∨ s ∈ hashed tally long) :
    preimage (read (tally.sha256 s)) = s := by
  rcases member with one | many
  · rw [hashed, blocks_short, List.map_singleton, List.length_singleton] at one
    rcases List.mem_append.mp one with block | pair
    · rw [List.mem_singleton.mp block]
      exact preimage_short
    · exact absurd pair List.not_mem_nil
  · rw [hashed, leaves_long] at many
    rcases List.mem_append.mp many with block | pair
    · rw [blocks_long] at block
      rcases List.mem_append.mp block with zeros | last
      · rw [List.eq_of_mem_replicate zeros, tally_block]
        rfl
      · rw [List.mem_singleton.mp last, lastBlock_digest]
        rfl
    · obtain ⟨p, combined, rfl⟩ := List.mem_map.mp pair
      rcases mem_allJoins_replicate combined with ⟨k, below, rfl⟩ | rfl
      · rw [tally_zeros (by omega)]
        exact preimage_pair below
      · rw [tally_zeros le_rfl]
        exact preimage_short

def oneBlock : Bytes :=
  ascii "d4:infod9:file treed1:ad0:d6:lengthi64e11:pieces root32:rrrrrrrrrrrrrrrrrrrrrrrrrrrrrrrreee" ++
    ascii "12:meta versioni2e12:piece lengthi16384ee12:piece layersd32:rrrrrrrrrrrrrrrrrrrrrrrrrrrrrrrr32:" ++
      write 32 (2 ^ 19 + 6) ++ ascii "ee"

theorem oneBlock_accepted : ∃ t, Torrent.fromBytes tally oneBlock = .ok t ∧ t.kind = .v2 ∧
    t.pieceInfo 0 = .ok ⟨0, 0, 64⟩ ∧ t.pieceHash 0 = some (write 32 (2 ^ 19 + 6)) := by
  have accepted : (Torrent.fromBytes tally oneBlock).toOption.map (fun t => (t.kind, (t.pieceInfo 0).toOption, t.pieceHash 0)) =
      some (.v2, some ⟨0, 0, 64⟩, some (write 32 (2 ^ 19 + 6))) := by
    decide +kernel
  obtain ⟨t, ok, fields⟩ := map_toOption_eq_some.mp accepted
  simp only [Prod.mk.injEq] at fields
  obtain ⟨kind, placed, hash⟩ := fields
  refine ⟨t, ok, kind, ?_, hash⟩
  cases found : t.pieceInfo 0 with
  | error e =>
    rw [found] at placed
    cases placed
  | ok info =>
    rw [found] at placed
    cases placed
    rfl

theorem both_pass {t : Torrent} (kind : t.kind = .v2) (placed : t.pieceInfo 0 = .ok ⟨0, 0, 64⟩)
    (hash : t.pieceHash 0 = some (write 32 (2 ^ 19 + 6))) :
    t.verifyPiece tally 0 short = .ok () ∧ t.verifyPiece tally 0 long = .ok () := by
  have perFile : t.kind ≠ .v1 := by
    rw [kind]
    decide
  have width : (write 32 (2 ^ 19 + 6)).take 32 = write 32 (2 ^ 19 + 6) :=
    List.take_of_length_le (length_write 32 _).le
  obtain ⟨long_root, short_root⟩ := same_root
  rw [verifyPiece_ok_iff tally perFile, verifyPiece_ok_iff tally perFile, length_short, length_long]
  exact ⟨⟨_, _, placed, rfl, hash, short_root.trans width.symm⟩, ⟨_, _, placed, rfl, hash, long_root.trans width.symm⟩⟩

theorem hashed_apart : Set.InjOn tally.sha256 {s | s ∈ hashed tally short ∨ s ∈ hashed tally long} := by
  have inverse : Set.LeftInvOn (fun d => preimage (read d)) tally.sha256
    {s | s ∈ hashed tally short ∨ s ∈ hashed tally long} := fun s member => preimage_hashed member
  exact inverse.injOn

theorem verifyPiece_binding_oneBlock : ∃ t, Torrent.fromBytes tally oneBlock = .ok t ∧
    (short = long ↔ t.kind = .v1 ∨ short.length = long.length) := by
  obtain ⟨t, ok, kind, placed, hash⟩ := oneBlock_accepted
  obtain ⟨first, second⟩ := both_pass kind placed hash
  exact ⟨t, ok, verifyPiece_binding_iff tally_wide first second Function.injective_id.injOn hashed_apart⟩

/-- The two pass for one piece, and are not the same. -/
theorem verifyPiece_not_binding : ¬ ∀ (digests : Digests) (raw : Bytes) (t : Torrent) (index : Nat) (a b : Bytes),
    (∀ s, (digests.sha256 s).length = 32) → Torrent.fromBytes digests raw = .ok t →
      t.verifyPiece digests index a = .ok () → t.verifyPiece digests index b = .ok () →
      Set.InjOn digests.sha1 {a, b} → Set.InjOn digests.sha256 {s | s ∈ hashed digests a ∨ s ∈ hashed digests b} → a = b := by
  intro always
  obtain ⟨t, ok, kind, placed, hash⟩ := oneBlock_accepted
  obtain ⟨first, second⟩ := both_pass kind placed hash
  have same := always tally oneBlock t 0 short long tally_wide ok first second Function.injective_id.injOn hashed_apart
  have lengths := congrArg List.length same
  rw [length_short, length_long] at lengths
  omega

end TypeBit.Metainfo
