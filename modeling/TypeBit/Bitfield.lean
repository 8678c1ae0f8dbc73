import Mathlib.Data.List.GetD
import Mathlib.Data.List.Induction
import TypeBit.Basic

/-! The compact bitset of `bitfield.rs`: 64-bit words, a length and a cached population count. The
number of words always fits the length, so no word access is out of range. -/

namespace TypeBit

/-- A bitset over 64-bit words; `to_bytes` and `from_bytes` use the network order. -/
structure Bitfield where
  words : List (BitVec 64)
  len : Nat
  count : Nat
  shape : words.length = divCeil len 64
  deriving DecidableEq

namespace Bitfield

def new (len : Nat) : Bitfield := ⟨List.replicate (divCeil len 64) 0, len, 0, List.length_replicate⟩

instance : Inhabited Bitfield := ⟨new 0⟩

def isEmpty (b : Bitfield) : Bool := decide (b.len = 0)

def word (b : Bitfield) (w : Nat) : BitVec 64 := b.words.getD w 0

def bit (i : Nat) : BitVec 64 := 1#64 <<< (i % 64)

def get (b : Bitfield) (i : Nat) : Bool :=
  if i ≥ b.len then false else decide (b.word (i / 64) &&& bit i ≠ 0)

def set (b : Bitfield) (i : Nat) : Bitfield :=
  if i ≥ b.len then b
  else if b.word (i / 64) &&& bit i = 0 then
    ⟨b.words.modify (i / 64) (· ||| bit i), b.len, b.count + 1, by rw [List.length_modify, b.shape]⟩
  else b

def clear (b : Bitfield) (i : Nat) : Bitfield :=
  if i ≥ b.len then b
  else if b.word (i / 64) &&& bit i ≠ 0 then
    ⟨b.words.modify (i / 64) (· &&& ~~~bit i), b.len, b.count - 1, by rw [List.length_modify, b.shape]⟩
  else b

def trailingZeros (w : BitVec 64) : Nat := ((List.range 64).find? w.getLsbD).getD 64
def countOnes (w : BitVec 64) : Nat := (List.range 64).countP w.getLsbD

def scanSet : List (BitVec 64) → Nat → Option Nat
  | [], _ => none
  | x :: tail, w => if x ≠ 0 then some (w * 64 + trailingZeros x) else scanSet tail (w + 1)

def nextSetFrom (b : Bitfield) (start : Nat) : Option Nat :=
  if start ≥ b.len then none
  else if b.word (start / 64) >>> (start % 64) ≠ 0 then
    some (start + trailingZeros (b.word (start / 64) >>> (start % 64)))
  else scanSet (b.words.drop (start / 64 + 1)) (start / 64 + 1)

def firstSet (b : Bitfield) : Option Nat := b.nextSetFrom 0

def scanClear : List (BitVec 64) → Nat → Option Nat
  | [], _ => none
  | x :: tail, w => if ~~~x ≠ 0 then some (w * 64 + trailingZeros (~~~x)) else scanClear tail (w + 1)

def nextClearFrom (b : Bitfield) (start : Nat) : Option Nat :=
  if start ≥ b.len then none
  else
    let inv := ~~~b.word (start / 64) &&& ~~~(bit start - 1)
    (if inv ≠ 0 then some (start / 64 * 64 + trailingZeros inv)
      else scanClear (b.words.drop (start / 64 + 1)) (start / 64 + 1)).filter (fun i => decide (i < b.len))

def bitsFrom (b : Bitfield) : Nat → Option Nat → List Nat
  | _, none => []
  | 0, some _ => []
  | fuel + 1, some i => i :: bitsFrom b fuel (b.nextSetFrom (i + 1))

def setBits (b : Bitfield) : List Nat := b.bitsFrom b.len b.firstSet

def toByte (b : Bitfield) (i : Nat) : UInt8 :=
  let w := i * 8 / 64
  let s := i * 8 % 64
  let low := (b.word w >>> s).setWidth 8
  let byte := if s > 56 ∧ w + 1 < b.words.length then low ||| (b.word (w + 1) <<< (64 - s)).setWidth 8 else low
  ⟨byte.reverse⟩

def toBytes (b : Bitfield) : Bytes := (List.range (divCeil b.len 8)).map b.toByte

def loadByte (words : List (BitVec 64)) (i : Nat) (byte : UInt8) : List (BitVec 64) :=
  let w := i * 8 / 64
  let s := i * 8 % 64
  let rb := byte.toBitVec.reverse.setWidth 64
  let words := words.modify w (· ||| (rb <<< s))
  if s > 56 ∧ w + 1 < words.length then words.modify (w + 1) (· ||| (rb >>> (64 - s))) else words

theorem length_loadByte (words : List (BitVec 64)) (i : Nat) (byte : UInt8) :
    (loadByte words i byte).length = words.length := by
  unfold loadByte
  simp only
  split_ifs <;> simp

def loadBytes (words : List (BitVec 64)) (bytes : Bytes) : List (BitVec 64) :=
  bytes.zipIdx.foldl (fun words e => loadByte words e.2 e.1) words

theorem length_loadBytes (words : List (BitVec 64)) (bytes : Bytes) :
    (loadBytes words bytes).length = words.length := by
  unfold loadBytes
  induction bytes.zipIdx generalizing words with
  | nil => rfl
  | cons e tail ih => rw [List.foldl_cons, ih, length_loadByte]

def maskLast (words : List (BitVec 64)) (count : Nat) : List (BitVec 64) :=
  if count % 64 = 0 then words else words.modify (words.length - 1) (· &&& (bit count - 1))

theorem length_maskLast (words : List (BitVec 64)) (count : Nat) : (maskLast words count).length = words.length := by
  unfold maskLast
  split_ifs <;> simp

/-- Load from network-format bytes; spare bits of the last byte must be zero. -/
def fromBytes (bytes : Bytes) (count : Nat) : Result Bitfield :=
  if bytes.length ≠ divCeil count 8 then .error .protocol
  else if count % 8 ≠ 0 ∧ (bytes.getLastD 0) &&& ((1 <<< (8 - count % 8).toUInt8) - 1) ≠ 0 then .error .protocol
  else
    let words := maskLast (loadBytes (List.replicate (divCeil count 64) 0) bytes) count
    .ok ⟨words, count, (words.map countOnes).sum, by
      rw [length_maskLast, length_loadBytes, List.length_replicate]⟩

/-! ### Bits -/

variable {b : Bitfield} {i count : Nat}

theorem get_of_ge (past : b.len ≤ i) : b.get i = false := if_pos past

theorem masked_eq_zero_iff (w : BitVec 64) (i : Nat) : w &&& bit i = 0 ↔ w.getLsbD (i % 64) = false := by
  have inside : i % 64 < 64 := Nat.mod_lt _ (by decide)
  have mask : bit i = BitVec.twoPow 64 (i % 64) := (BitVec.twoPow_eq 64 (i % 64)).symm
  rw [mask, BitVec.and_twoPow]
  by_cases isSet : w.getLsbD (i % 64) = true
  · have marked : (BitVec.twoPow 64 (i % 64)).getLsbD (i % 64) = true := by simp [inside]
    have nonzero : BitVec.twoPow 64 (i % 64) ≠ 0#64 := by
      intro zero
      rw [zero, BitVec.getLsbD_zero] at marked
      cases marked
    simp [isSet, nonzero]
  · simp [isSet]

theorem get_eq (b : Bitfield) (i : Nat) :
    b.get i = (decide (i < b.len) && (b.word (i / 64)).getLsbD (i % 64)) := by
  unfold get
  by_cases inside : i < b.len
  · rw [if_neg (by omega)]
    simp only [ne_eq, masked_eq_zero_iff, Bool.not_eq_false, inside, decide_true, Bool.true_and, Bool.decide_eq_true]
  · rw [if_pos (by omega)]
    simp [inside]

theorem word_in_range (b : Bitfield) (inside : i < b.len) : i / 64 < b.words.length := by
  rw [b.shape, divCeil]
  omega

theorem getD_modify (l : List (BitVec 64)) (w v : Nat) (f : BitVec 64 → BitVec 64) (inside : w < l.length) :
    (l.modify w f).getD v 0 = if w = v then f (l.getD v 0) else l.getD v 0 := by
  rw [List.getD_eq_getElem?_getD, List.getD_eq_getElem?_getD, List.getElem?_modify]
  by_cases same : w = v
  · subst same
    simp [inside]
  · simp [same]

theorem getLsbD_bit (i j : Nat) : (bit i).getLsbD (j % 64) = decide (i % 64 = j % 64) := by
  have mask : bit i = BitVec.twoPow 64 (i % 64) := (BitVec.twoPow_eq 64 (i % 64)).symm
  rw [mask, BitVec.getLsbD_twoPow]
  simp [Nat.mod_lt i (by decide : 64 > 0)]

theorem same_place_iff (i j : Nat) : i / 64 = j / 64 ∧ i % 64 = j % 64 ↔ i = j := by
  constructor
  · omega
  · rintro rfl
    exact ⟨rfl, rfl⟩

@[simp] theorem len_set (b : Bitfield) (i : Nat) : (b.set i).len = b.len := by
  unfold set
  split_ifs <;> rfl

@[simp] theorem len_clear (b : Bitfield) (i : Nat) : (b.clear i).len = b.len := by
  unfold clear
  split_ifs <;> rfl

theorem get_new (len i : Nat) : (new len).get i = false := by
  have zero : (new len).word (i / 64) = 0 := by
    simp only [word, new, List.getD_eq_getElem?_getD, List.getElem?_replicate]
    split_ifs <;> rfl
  rw [get_eq, zero]
  simp

theorem get_set (b : Bitfield) (i j : Nat) :
    (b.set i).get j = (b.get j || (decide (i = j) && decide (i < b.len))) := by
  by_cases inside : i < b.len
  · by_cases clearBit : b.word (i / 64) &&& bit i = 0
    · have words : (b.set i).word (j / 64) =
          if i / 64 = j / 64 then b.word (j / 64) ||| bit i else b.word (j / 64) := by
        rw [set, if_neg (by omega), if_pos clearBit]
        exact getD_modify _ _ _ _ (b.word_in_range inside)
      rw [get_eq, get_eq, len_set, words]
      by_cases sameWord : i / 64 = j / 64
      · rw [if_pos sameWord, BitVec.getLsbD_or, getLsbD_bit]
        have place := same_place_iff i j
        by_cases sameBit : i % 64 = j % 64
        · have same : i = j := place.mp ⟨sameWord, sameBit⟩
          subst same
          simp [inside]
        · have other : i ≠ j := fun same => sameBit (same ▸ rfl)
          simp [sameBit, other]
      · have other : i ≠ j := fun same => sameWord (same ▸ rfl)
        simp [sameWord, other]
    · have unchanged : b.set i = b := by rw [set, if_neg (by omega), if_neg clearBit]
      rw [unchanged]
      by_cases same : i = j
      · subst same
        have present : b.get i = true := by
          rw [get, if_neg (by omega)]
          exact decide_eq_true clearBit
        simp [present]
      · simp [same]
  · have unchanged : b.set i = b := by rw [set, if_pos (by omega)]
    rw [unchanged]
    simp [inside]

theorem set_of_get (present : b.get i = true) : b.set i = b := by
  unfold get at present
  unfold set
  by_cases past : i ≥ b.len
  · rw [if_pos past]
  · rw [if_neg past] at present
    rw [if_neg past, if_neg (of_decide_eq_true present)]

theorem get_clear (b : Bitfield) (i j : Nat) : (b.clear i).get j = (b.get j && decide (i ≠ j)) := by
  by_cases inside : i < b.len
  · by_cases present : b.word (i / 64) &&& bit i ≠ 0
    · have words : (b.clear i).word (j / 64) =
          if i / 64 = j / 64 then b.word (j / 64) &&& ~~~bit i else b.word (j / 64) := by
        rw [clear, if_neg (by omega), if_pos present]
        exact getD_modify _ _ _ _ (b.word_in_range inside)
      rw [get_eq, get_eq, len_clear, words]
      by_cases sameWord : i / 64 = j / 64
      · rw [if_pos sameWord, BitVec.getLsbD_and, BitVec.getLsbD_not, getLsbD_bit]
        have place := same_place_iff i j
        have below : j % 64 < 64 := Nat.mod_lt _ (by decide)
        by_cases sameBit : i % 64 = j % 64
        · have same : i = j := place.mp ⟨sameWord, sameBit⟩
          simp [same]
        · have other : i ≠ j := fun same => sameBit (same ▸ rfl)
          simp [sameBit, other, below]
      · have other : i ≠ j := fun same => sameWord (same ▸ rfl)
        simp [sameWord, other]
    · have unchanged : b.clear i = b := by rw [clear, if_neg (by omega), if_neg present]
      have absent : b.get i = false := by
        rw [get, if_neg (by omega)]
        exact decide_eq_false present
      rw [unchanged]
      by_cases same : i = j
      · subst same
        simp [absent]
      · simp [same]
  · have unchanged : b.clear i = b := by rw [clear, if_pos (by omega)]
    rw [unchanged]
    by_cases same : i = j
    · subst same
      simp [get_of_ge (Nat.not_lt.mp inside)]
    · simp [same]

theorem count_le_set (b : Bitfield) (i : Nat) : b.count ≤ (b.set i).count := by
  unfold set
  split_ifs
  · exact le_refl _
  · exact Nat.le_succ _
  · exact le_refl _

theorem len_fromBytes {bytes : Bytes} (loaded : fromBytes bytes count = .ok b) : b.len = count := by
  obtain ⟨-, rest⟩ := guard_eq_ok.mp loaded
  obtain ⟨-, value⟩ := guard_eq_ok.mp rest
  cases value
  rfl

example : ((new 100).set 3).setBits = [3] := by decide

/-! ### The cached count -/

def Counted (b : Bitfield) : Prop := b.count = (List.range b.len).countP b.get

theorem counted_new (len : Nat) : Counted (new len) := by
  have none : (List.range len).countP (new len).get = 0 := List.countP_eq_zero.mpr (by simp [get_new])
  exact none.symm

theorem countP_range_flip {n i : Nat} (inside : i < n) {p q : Nat → Bool} (before : p i = false) (after : q i = true)
    (same : ∀ j, j ≠ i → q j = p j) : (List.range n).countP q = (List.range n).countP p + 1 := by
  induction n with
  | zero => exact absurd inside (Nat.not_lt_zero i)
  | succ n ih =>
    rw [List.range_succ, List.countP_append, List.countP_append]
    rcases Nat.lt_succ_iff_lt_or_eq.mp inside with below | last
    · have top : n ≠ i := by omega
      rw [ih below]
      simp [same n top]
      omega
    · subst last
      have rest : (List.range i).countP q = (List.range i).countP p := by
        refine List.countP_congr fun j member => ?_
        rw [same j (by have := List.mem_range.mp member; omega)]
      simp [rest, before, after]

theorem counted_set (counted : Counted b) (i : Nat) : Counted (b.set i) := by
  by_cases fresh : i < b.len ∧ b.get i = false
  · obtain ⟨inside, clearBit⟩ := fresh
    have counts : (b.set i).count = b.count + 1 := by
      rw [get, if_neg (by omega), decide_eq_false_iff_not, not_not] at clearBit
      rw [set, if_neg (by omega), if_pos clearBit]
    unfold Counted
    rw [counts, len_set, counted]
    refine (countP_range_flip inside clearBit ?_ ?_).symm
    · simp [get_set, inside]
    · intro j other
      simp [get_set, Ne.symm other]
  · have unchanged : b.set i = b := by
      unfold set
      split_ifs with past clearBit
      · rfl
      · refine absurd ⟨by omega, ?_⟩ fresh
        rw [get, if_neg past, decide_eq_false_iff_not, not_not]
        exact clearBit
      · rfl
    rw [unchanged]
    exact counted

theorem counted_clear (counted : Counted b) (i : Nat) : Counted (b.clear i) := by
  by_cases present : i < b.len ∧ b.get i = true
  · obtain ⟨inside, setBit⟩ := present
    have counts : (b.clear i).count = b.count - 1 := by
      rw [get, if_neg (by omega), decide_eq_true_iff] at setBit
      rw [clear, if_neg (by omega), if_pos setBit]
    have flipped : (List.range b.len).countP b.get = (List.range b.len).countP (b.clear i).get + 1 := by
      refine countP_range_flip inside ?_ setBit ?_
      · simp [get_clear]
      · intro j other
        simp [get_clear, Ne.symm other]
    unfold Counted
    rw [counts, len_clear, counted, flipped]
    omega
  · have unchanged : b.clear i = b := by
      unfold clear
      split_ifs with past setBit
      · rfl
      · refine absurd ⟨by omega, ?_⟩ present
        rw [get, if_neg past]
        exact decide_eq_true setBit
      · rfl
    rw [unchanged]
    exact counted

theorem get_of_count_zero (counted : Counted b) (none : b.count = 0) (i : Nat) : b.get i = false := by
  by_cases inside : i < b.len
  · rw [Counted, none] at counted
    have absent := List.countP_eq_zero.mp counted.symm i (List.mem_range.mpr inside)
    simpa using absent
  · exact get_of_ge (Nat.not_lt.mp inside)

theorem sum_countOnes (words : List (BitVec 64)) : (words.map countOnes).sum =
    (List.range (64 * words.length)).countP (fun i => (words.getD (i / 64) 0).getLsbD (i % 64)) := by
  induction words using List.reverseRecOn with
  | nil => rfl
  | append_singleton words w ih =>
    rw [List.map_append, List.sum_append, ih, List.length_append, List.length_singleton, Nat.mul_add, Nat.mul_one,
      List.range_add, List.countP_append, List.countP_map]
    congr 1
    · refine List.countP_congr fun i member => ?_
      have below : i / 64 < words.length := by
        have := List.mem_range.mp member
        omega
      rw [List.getD_append _ _ _ _ below]
    · rw [List.map_singleton, List.sum_singleton, countOnes]
      refine List.countP_congr fun i member => ?_
      have below := List.mem_range.mp member
      have word : (64 * words.length + i) / 64 = words.length := by omega
      have bit : (64 * words.length + i) % 64 = i := by omega
      simp [word, bit]

theorem getLsbD_mask (count j : Nat) :
    (bit count - 1).getLsbD j = decide (j < count % 64) := by
  have shift : (bit count).toNat = 2 ^ (count % 64) := by
    have small : 2 ^ (count % 64) < 2 ^ 64 := Nat.pow_lt_pow_right (by decide) (Nat.mod_lt _ (by decide))
    simp [bit, Nat.shiftLeft_eq]
    exact small
  have pos : 0 < 2 ^ (count % 64) := Nat.two_pow_pos _
  have value : (bit count - 1).toNat = 2 ^ (count % 64) - 1 := by
    rw [BitVec.toNat_sub_of_le, shift]
    · rfl
    · rw [BitVec.le_def, shift]
      exact pos
  rw [BitVec.getLsbD, value, Nat.testBit_two_pow_sub_one]

theorem maskLast_past {words : List (BitVec 64)} (sized : words.length = divCeil count 64)
    (past : count ≤ i) (inside : i < 64 * words.length) :
    ((maskLast words count).getD (i / 64) 0).getLsbD (i % 64) = false := by
  unfold maskLast
  unfold divCeil at sized
  rw [if_neg (by omega), getD_modify _ _ _ _ (by omega), if_pos (by omega), BitVec.getLsbD_and,
    getLsbD_mask]
  have late : ¬ i % 64 < count % 64 := by omega
  simp [late]

theorem counted_masked {words : List (BitVec 64)} (sized : words.length = divCeil count 64)
    (shape : (maskLast words count).length = divCeil count 64) :
    Counted ⟨maskLast words count, count, ((maskLast words count).map countOnes).sum, shape⟩ := by
  have room : count ≤ 64 * words.length := by
    rw [sized, divCeil]
    omega
  unfold Counted
  dsimp only
  rw [sum_countOnes, length_maskLast, ← Nat.add_sub_cancel' room, List.range_add, List.countP_append, List.countP_map]
  have spare : (List.range (64 * words.length - count)).countP
      ((fun i => ((maskLast words count).getD (i / 64) 0).getLsbD (i % 64)) ∘ (count + ·)) = 0 := by
    refine List.countP_eq_zero.mpr fun i member => ?_
    have below := List.mem_range.mp member
    simp only [Function.comp_apply, maskLast_past sized (Nat.le_add_right count i) (by omega)]
    exact Bool.false_ne_true
  rw [spare, Nat.add_zero]
  refine List.countP_congr fun i member => ?_
  rw [get_eq]
  simp [word, List.mem_range.mp member]

theorem counted_fromBytes {bytes : Bytes} (loaded : fromBytes bytes count = .ok b) : Counted b := by
  obtain ⟨-, rest⟩ := guard_eq_ok.mp loaded
  obtain ⟨-, value⟩ := guard_eq_ok.mp rest
  cases value
  have sized : (loadBytes (List.replicate (divCeil count 64) 0) bytes).length = divCeil count 64 := by
    rw [length_loadBytes, List.length_replicate]
  exact counted_masked sized _

/-! ### Scanning for a clear bit -/

theorem trailingZeros_spec {w : BitVec 64} (nonzero : w ≠ 0) :
    trailingZeros w < 64 ∧ w.getLsbD (trailingZeros w) = true ∧ ∀ j < trailingZeros w, w.getLsbD j = false := by
  unfold trailingZeros
  cases found : (List.range 64).find? w.getLsbD with
  | some k =>
    obtain ⟨marked, inside, below⟩ := List.find?_range_eq_some.mp found
    refine ⟨List.mem_range.mp inside, marked, fun j earlier => ?_⟩
    simpa using below j earlier
  | none =>
    refine absurd (BitVec.eq_of_getLsbD_eq fun i inside => ?_) nonzero
    have unmarked := List.find?_range_eq_none.mp found i inside
    simpa using unmarked

def bitAt (words : List (BitVec 64)) (i : Nat) : Bool := (words.getD (i / 64) 0).getLsbD (i % 64)

theorem bitAt_cons (x : BitVec 64) (tail : List (BitVec 64)) (i : Nat) :
    bitAt (x :: tail) i = if i < 64 then x.getLsbD i else bitAt tail (i - 64) := by
  unfold bitAt
  split
  · rename_i first
    rw [Nat.div_eq_of_lt first, Nat.mod_eq_of_lt first, List.getD_cons_zero]
  · rename_i later
    have word : i / 64 = (i - 64) / 64 + 1 := by omega
    have place : i % 64 = (i - 64) % 64 := by omega
    rw [word, place, List.getD_cons_succ]

theorem scanClear_spec (words : List (BitVec 64)) (w : Nat) :
    match scanClear words w with
    | some i => ∃ k, i = w * 64 + k ∧ bitAt words k = false ∧ ∀ j < k, bitAt words j = true
    | none => ∀ j < 64 * words.length, bitAt words j = true := by
  induction words generalizing w with
  | nil => exact fun j inside => absurd inside (Nat.not_lt_zero j)
  | cons x tail ih =>
    rw [scanClear]
    by_cases full : ~~~x ≠ 0
    · rw [if_pos full]
      obtain ⟨inside, marked, below⟩ := trailingZeros_spec full
      refine ⟨trailingZeros (~~~x), rfl, ?_, fun j earlier => ?_⟩
      · rw [bitAt_cons, if_pos inside]
        simpa [BitVec.getLsbD_not, inside] using marked
      · have small : j < 64 := by omega
        rw [bitAt_cons, if_pos small]
        simpa [BitVec.getLsbD_not, small] using below j earlier
    · rw [if_neg full]
      have ones : ∀ j < 64, x.getLsbD j = true := by
        intro j inside
        have zero := congrArg (fun w => w.getLsbD j) (not_not.mp full)
        simpa [BitVec.getLsbD_not, inside] using zero
      have rest := ih (w + 1)
      cases found : scanClear tail (w + 1) with
      | none =>
        rw [found] at rest
        intro j inside
        rw [bitAt_cons]
        split
        · exact ones j (by omega)
        · exact rest (j - 64) (by rw [List.length_cons] at inside; omega)
      | some i =>
        rw [found] at rest
        obtain ⟨k, place, clear, below⟩ := rest
        refine ⟨k + 64, by omega, ?_, fun j earlier => ?_⟩
        · rw [bitAt_cons, if_neg (by omega), Nat.add_sub_cancel]
          exact clear
        · rw [bitAt_cons]
          split
          · exact ones j (by omega)
          · exact below (j - 64) (by omega)

theorem get_eq_bitAt (inside : i < b.len) : b.get i = bitAt b.words i := by
  rw [get_eq]
  simp [inside, word, bitAt]

theorem bitAt_drop (words : List (BitVec 64)) (n k : Nat) : bitAt (words.drop n) k = bitAt words (64 * n + k) := by
  have word : (64 * n + k) / 64 = n + k / 64 := by omega
  have place : (64 * n + k) % 64 = k % 64 := by omega
  unfold bitAt
  rw [word, place, List.getD_eq_getElem?_getD, List.getD_eq_getElem?_getD, List.getElem?_drop]

theorem nextClearFrom_spec (b : Bitfield) (start : Nat) :
    match b.nextClearFrom start with
    | some i => start ≤ i ∧ i < b.len ∧ b.get i = false
    | none => ∀ i, start ≤ i → i < b.len → b.get i = true := by
  unfold nextClearFrom
  by_cases past : start ≥ b.len
  · rw [if_pos past]
    intro i after inside
    omega
  · rw [if_neg past]
    dsimp only
    generalize scanned : (if ~~~b.word (start / 64) &&& ~~~(bit start - 1) ≠ 0 then
        some (start / 64 * 64 + trailingZeros (~~~b.word (start / 64) &&& ~~~(bit start - 1)))
      else scanClear (b.words.drop (start / 64 + 1)) (start / 64 + 1)) = found
    have masked : ∀ k < 64, (~~~b.word (start / 64) &&& ~~~(bit start - 1)).getLsbD k =
        (!bitAt b.words (start / 64 * 64 + k) && decide (start % 64 ≤ k)) := by
      intro k inside
      have word : (start / 64 * 64 + k) / 64 = start / 64 := by omega
      have place : (start / 64 * 64 + k) % 64 = k := by omega
      have late : (!decide (k < start % 64)) = decide (start % 64 ≤ k) := by simp [← decide_not]
      rw [BitVec.getLsbD_and, BitVec.getLsbD_not, BitVec.getLsbD_not, getLsbD_mask, bitAt, word, place, late]
      simp [inside, Bitfield.word]
    generalize ~~~b.word (start / 64) &&& ~~~(bit start - 1) = inv at masked scanned
    have first : match found with
        | some i => start ≤ i ∧ bitAt b.words i = false ∧ ∀ j, start ≤ j → j < i → bitAt b.words j = true
        | none => ∀ j, start ≤ j → j < b.len → bitAt b.words j = true := by
      by_cases here : inv ≠ 0
      · rw [if_pos here] at scanned
        subst scanned
        obtain ⟨inside, marked, below⟩ := trailingZeros_spec here
        rw [masked _ inside, Bool.and_eq_true, Bool.not_eq_true', decide_eq_true_eq] at marked
        refine ⟨by omega, marked.1, fun j after earlier => ?_⟩
        have unmarked := below (j % 64) (by omega)
        have index : start / 64 * 64 + j % 64 = j := by omega
        rw [masked _ (by omega), index] at unmarked
        have late : start % 64 ≤ j % 64 := by omega
        simpa [late] using unmarked
      · rw [if_neg here] at scanned
        have ones : ∀ j, start ≤ j → j < (start / 64 + 1) * 64 → bitAt b.words j = true := by
          intro j after inside
          have unmarked := congrArg (fun w => w.getLsbD (j % 64)) (not_not.mp here)
          have index : start / 64 * 64 + j % 64 = j := by omega
          simp only [masked _ (Nat.mod_lt j (by decide)), index] at unmarked
          have late : start % 64 ≤ j % 64 := by omega
          simpa [late] using unmarked
        have rest := scanClear_spec (b.words.drop (start / 64 + 1)) (start / 64 + 1)
        rw [scanned] at rest
        cases found with
        | some i =>
          obtain ⟨k, place, clear, below⟩ := rest
          rw [bitAt_drop] at clear
          refine ⟨by omega, ?_, fun j after earlier => ?_⟩
          · rw [place, Nat.mul_comm]
            exact clear
          · by_cases same : j < (start / 64 + 1) * 64
            · exact ones j after same
            · have set := below (j - (start / 64 + 1) * 64) (by omega)
              rw [bitAt_drop] at set
              rwa [show 64 * (start / 64 + 1) + (j - (start / 64 + 1) * 64) = j by omega] at set
        | none =>
          intro j after inside
          by_cases same : j < (start / 64 + 1) * 64
          · exact ones j after same
          · have shape := b.shape
            have set := rest (j - (start / 64 + 1) * 64) (by
              rw [List.length_drop, shape, divCeil]
              omega)
            rw [bitAt_drop] at set
            rwa [show 64 * (start / 64 + 1) + (j - (start / 64 + 1) * 64) = j by omega] at set
    cases found with
    | none =>
      intro i after inside
      rw [get_eq_bitAt inside]
      exact first i after inside
    | some i =>
      obtain ⟨after, clear, below⟩ := first
      by_cases inside : i < b.len
      · have kept : Option.filter (fun i => decide (i < b.len)) (some i) = some i := by simp [Option.filter, inside]
        rw [kept]
        exact ⟨after, inside, by rw [get_eq_bitAt inside, clear]⟩
      · have dropped : Option.filter (fun i => decide (i < b.len)) (some i) = none := by simp [Option.filter, inside]
        rw [dropped]
        intro j later within
        rw [get_eq_bitAt within]
        exact below j later (by omega)

end Bitfield
end TypeBit
