import TypeBit.Bitfield.Words

/-! The network form of a bitset (`to_bytes` and `from_bytes` of `bitfield.rs`): a byte for every eight bits, the most
significant bit first. A field without spare bits comes back from its bytes. -/

namespace TypeBit.Bitfield

def Tight (b : Bitfield) : Prop := ∀ i, b.len ≤ i → bitAt b.words i = false

theorem bitAt_modify_or {words : List (BitVec 64)} {w : Nat} (inside : w < words.length) (mask : BitVec 64) (i : Nat) :
    bitAt (words.modify w (· ||| mask)) i = (bitAt words i || (decide (w = i / 64) && mask.getLsbD (i % 64))) := by
  rw [bitAt_modify inside, bitAt]
  split_ifs with same
  · simp [same]
  · simp [same]

theorem tight_new (len : Nat) : Tight (new len) := (exact_new len).padding

theorem tight_set {b : Bitfield} (tight : Tight b) (i : Nat) : Tight (b.set i) := by
  intro j past
  rw [len_set] at past
  by_cases inside : i < b.len
  · rw [bitAt_set b (by omega)]
    exact tight j past
  · rw [set, if_pos (Nat.le_of_not_lt inside)]
    exact tight j past

theorem tight_fromBytes {bytes : Bytes} {count : Nat} {b : Bitfield} (loaded : fromBytes bytes count = .ok b) :
    Tight b :=
  (exact_fromBytes loaded).padding

theorem eq_of_get {a b : Bitfield} (len : a.len = b.len) (bits : ∀ i, a.get i = b.get i) (tightA : Tight a)
    (tightB : Tight b) (countedA : Counted a) (countedB : Counted b) : a = b := by
  have count : a.count = b.count := by
    rw [countedA, countedB, len]
    exact List.countP_congr fun i _ => by rw [bits i]
  have at? : ∀ i, bitAt a.words i = bitAt b.words i := by
    intro i
    by_cases inside : i < b.len
    · rw [← get_eq_bitAt inside, ← get_eq_bitAt (len ▸ inside), bits]
    · rw [tightA i (by omega), tightB i (by omega)]
  have words : a.words = b.words := by
    apply List.ext_getElem
    · rw [a.shape, b.shape, len]
    · intro w inA inB
      apply BitVec.eq_of_getLsbD_eq
      intro k below
      have word : (64 * w + k) / 64 = w := by omega
      have place : (64 * w + k) % 64 = k := by omega
      have same := at? (64 * w + k)
      rw [bitAt, bitAt, word, place, List.getD_eq_getElem _ _ inA, List.getD_eq_getElem _ _ inB] at same
      exact same
  cases a
  cases b
  dsimp only at len count words
  subst len count words
  rfl

/-! ### Bytes and bits -/

def octetBit (byte : UInt8) (k : Nat) : Bool := byte.toBitVec.reverse.getLsbD k

@[simp] theorem octetBit_zero (k : Nat) : octetBit 0 k = false := by
  have mirrored : (0 : UInt8).toBitVec.reverse = 0#8 := by decide
  rw [octetBit, mirrored]
  exact BitVec.getLsbD_zero

theorem octetBit_toByte (b : Bitfield) (i : Nat) {k : Nat} (below : k < 8) :
    octetBit (b.toByte i) k = bitAt b.words (8 * i + k) := by
  have unaligned : ¬ (i * 8 % 64 > 56 ∧ i * 8 / 64 + 1 < b.words.length) := by omega
  have word : (8 * i + k) / 64 = i * 8 / 64 := by omega
  have place : (8 * i + k) % 64 = i * 8 % 64 + k := by omega
  rw [octetBit, toByte]
  dsimp only
  rw [if_neg unaligned, BitVec.reverse_reverse_eq, BitVec.getLsbD_setWidth, BitVec.getLsbD_ushiftRight, bitAt, word, place]
  simp [below, Bitfield.word]

theorem bitAt_loadByte {words : List (BitVec 64)} {i : Nat} (inside : i < 8 * words.length) (byte : UInt8) (n : Nat) :
    bitAt (loadByte words i byte) n = (bitAt words n || (decide (i = n / 8) && octetBit byte (n % 8))) := by
  have unaligned : ∀ l : List (BitVec 64), ¬ (i * 8 % 64 > 56 ∧ i * 8 / 64 + 1 < l.length) := by
    intro l
    omega
  unfold loadByte
  dsimp only
  rw [if_neg (unaligned _), bitAt_modify_or (by omega)]
  congr 1
  have inWord : n % 64 < 64 := Nat.mod_lt n (by decide)
  have close : n % 64 - i * 8 % 64 < 64 := by omega
  rw [BitVec.getLsbD_shiftLeft, BitVec.getLsbD_setWidth, octetBit, decide_eq_true inWord, decide_eq_true close,
    Bool.true_and, Bool.true_and]
  by_cases same : i = n / 8
  · have word : i * 8 / 64 = n / 64 := by omega
    have place : n % 64 - i * 8 % 64 = n % 8 := by omega
    have late : ¬ n % 64 < i * 8 % 64 := by omega
    rw [decide_eq_true word, decide_eq_false late, decide_eq_true same, place]
    rfl
  · rw [decide_eq_false same, Bool.false_and]
    by_cases word : i * 8 / 64 = n / 64
    · by_cases early : n % 64 < i * 8 % 64
      · rw [decide_eq_true early, Bool.not_true, Bool.false_and, Bool.and_false]
      · have beyond : 8 ≤ n % 64 - i * 8 % 64 := by omega
        rw [BitVec.getLsbD_of_ge _ _ beyond, Bool.and_false, Bool.and_false]
    · rw [decide_eq_false word, Bool.false_and]

theorem bitAt_loadBytes (words : List (BitVec 64)) (bytes : Bytes) (room : bytes.length ≤ 8 * words.length) (n : Nat) :
    bitAt (loadBytes words bytes) n = (bitAt words n || octetBit (bytes.getD (n / 8) 0) (n % 8)) := by
  induction bytes using List.reverseRecOn with
  | nil => simp [loadBytes]
  | append_singleton bytes byte ih =>
    rw [List.length_append, List.length_singleton] at room
    have last : loadBytes words (bytes ++ [byte]) = loadByte (loadBytes words bytes) bytes.length byte := by
      simp [loadBytes, List.zipIdx_append]
    rw [last, bitAt_loadByte (by rw [length_loadBytes]; omega), ih (by omega), Bool.or_assoc]
    congr 1
    rcases Nat.lt_trichotomy (n / 8) bytes.length with before | here | after
    · rw [List.getD_append _ _ _ _ before, decide_eq_false (by omega), Bool.false_and, Bool.or_false]
    · rw [List.getD_eq_default _ _ (Nat.le_of_eq here.symm), here, List.getD_append_right _ _ _ _ (le_refl _),
        decide_eq_true rfl]
      simp
    · rw [List.getD_eq_default _ _ (Nat.le_of_lt after), decide_eq_false (by omega), Bool.false_and, Bool.or_false,
        List.getD_eq_default _ _ (by rw [List.length_append, List.length_singleton]; omega)]

theorem spare_eq_zero {byte : UInt8} {used : Nat} (inside : used < 8) (partly : used ≠ 0)
    (clear : ∀ k, used ≤ k → k < 8 → octetBit byte k = false) :
    byte &&& (((1 : UInt8) <<< (8 - used).toUInt8) - 1) = 0 := by
  have mask : ∀ used < 8, used ≠ 0 → ∀ j < 8,
      (((1 : UInt8) <<< (8 - used).toUInt8) - 1).toBitVec.getLsbD j = decide (j < 8 - used) := by decide
  apply UInt8.toBitVec_inj.mp
  apply BitVec.eq_of_getLsbD_eq
  intro j below
  have zero : (0 : UInt8).toBitVec.getLsbD j = false := BitVec.getLsbD_zero
  rw [UInt8.toBitVec_and, BitVec.getLsbD_and, mask used inside partly j below, zero]
  by_cases spare : j < 8 - used
  · have bit := clear (7 - j) (by omega) (by omega)
    have mirror : 8 - 1 - (7 - j) = j := by omega
    rw [octetBit, BitVec.getLsbD_reverse, BitVec.getMsbD, mirror] at bit
    have inByte : 7 - j < 8 := by omega
    rw [decide_eq_true inByte, Bool.true_and] at bit
    rw [bit, Bool.false_and]
  · rw [decide_eq_false spare, Bool.and_false]

theorem fromBytes_toBytes {b : Bitfield} (tight : Tight b) (counted : Counted b) : fromBytes b.toBytes b.len = .ok b := by
  have length : b.toBytes.length = divCeil b.len 8 := by simp [toBytes]
  have octet : ∀ i < divCeil b.len 8, b.toBytes.getD i 0 = b.toByte i := by
    intro i inside
    rw [List.getD_eq_getElem _ _ (length ▸ inside)]
    simp [toBytes]
  have padded : ¬ (b.len % 8 ≠ 0 ∧ b.toBytes.getLastD 0 &&& ((1 <<< (8 - b.len % 8).toUInt8) - 1) ≠ 0) := by
    rintro ⟨partly, spare⟩
    apply spare
    apply spare_eq_zero (Nat.mod_lt _ (by decide)) partly
    intro k used below
    have last : b.toBytes.getLastD 0 = b.toByte (b.len / 8) := by
      have full : divCeil b.len 8 = b.len / 8 + 1 := by
        unfold divCeil
        omega
      rw [toBytes, full, List.range_succ, List.map_append, List.map_singleton, List.getLastD_concat]
    rw [last, octetBit_toByte b _ below]
    apply tight
    omega
  have loaded : ∃ c, fromBytes b.toBytes b.len = .ok c := by
    unfold fromBytes
    rw [if_neg (not_not.mpr length), if_neg padded]
    exact ⟨_, rfl⟩
  obtain ⟨c, loaded⟩ := loaded
  have len := len_fromBytes loaded
  rw [loaded]
  congr 1
  refine eq_of_get len (fun i => ?_) (tight_fromBytes loaded) tight (counted_fromBytes loaded) counted
  by_cases inside : i < b.len
  · rw [get_eq_bitAt (len.symm ▸ inside), get_eq_bitAt inside]
    obtain ⟨-, rest⟩ := guard_eq_ok.mp loaded
    obtain ⟨-, value⟩ := guard_eq_ok.mp rest
    cases value
    have sized : (loadBytes (List.replicate (divCeil b.len 64) 0) b.toBytes).length = divCeil b.len 64 := by
      rw [length_loadBytes, List.length_replicate]
    have room : b.toBytes.length ≤ 8 * (List.replicate (divCeil b.len 64) (0 : BitVec 64)).length := by
      rw [length, List.length_replicate, divCeil, divCeil]
      omega
    have index : 8 * (i / 8) + i % 8 = i := by omega
    rw [bitAt_maskLast sized, decide_eq_true inside, Bool.and_true, bitAt_loadBytes _ _ room, bitAt_replicate, Bool.false_or,
      octet _ (by unfold divCeil; omega), octetBit_toByte b _ (Nat.mod_lt i (by decide)), index]
  · rw [get_of_ge (by omega), get_of_ge (by omega)]

end TypeBit.Bitfield
