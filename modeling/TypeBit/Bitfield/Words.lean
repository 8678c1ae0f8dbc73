import TypeBit.Bitfield

/-! The operations of the bitset on whole words, against their definitions bit by bit. -/

namespace TypeBit.Bitfield

/-! ### The code -/

def setAll (b : Bitfield) : Bitfield :=
  ⟨maskLast (b.words.map (fun _ => BitVec.allOnes 64)) b.len, b.len, b.len, by
    rw [length_maskLast, List.length_map, b.shape]⟩

def clearAll (b : Bitfield) : Bitfield :=
  ⟨b.words.map (fun _ => 0), b.len, 0, by rw [List.length_map, b.shape]⟩

def allSet (b : Bitfield) : Bool := decide (b.count = b.len)

def leadingZeros (w : BitVec 64) : Nat := ((List.range 64).find? (fun j => w.getLsbD (63 - j))).getD 64

def scanLast (words : List (BitVec 64)) : Nat → Option Nat
  | 0 => none
  | w + 1 =>
      if words.getD w 0 ≠ 0 then some (w * 64 + (63 - leadingZeros (words.getD w 0))) else scanLast words w

def lastSet (b : Bitfield) : Option Nat := scanLast b.words b.words.length

def zipWords (f : BitVec 64 → BitVec 64 → BitVec 64) : List (BitVec 64) → List (BitVec 64) → List (BitVec 64)
  | x :: xs, y :: ys => f x y :: zipWords f xs ys
  | xs, _ => xs

theorem length_zipWords (f : BitVec 64 → BitVec 64 → BitVec 64) (xs ys : List (BitVec 64)) :
    (zipWords f xs ys).length = xs.length := by
  induction xs generalizing ys with
  | nil => rfl
  | cons x xs ih =>
    cases ys with
    | nil => rfl
    | cons y ys => rw [zipWords, List.length_cons, ih, List.length_cons]

def recount (words : List (BitVec 64)) : Nat := (words.map countOnes).sum

def orInto (b other : Bitfield) : Bitfield :=
  let words := zipWords (· ||| ·) b.words other.words
  ⟨words, b.len, recount words, by rw [length_zipWords, b.shape]⟩

def andNot (b other : Bitfield) : Bitfield :=
  let words := zipWords (fun x y => x &&& ~~~y) b.words other.words
  ⟨words, b.len, recount words, by rw [length_zipWords, b.shape]⟩

def lowMask (n : Nat) : BitVec 64 := if n = 64 then BitVec.allOnes 64 else (1#64 <<< n) - 1

def countRange (b : Bitfield) (start stop : Nat) : Nat :=
  if start ≥ stop ∨ start ≥ b.len then 0
  else
    let stop := min stop b.len
    let w0 := start / 64
    let w1 := (stop - 1) / 64
    if w0 = w1 then countOnes (b.word w0 &&& (lowMask (stop - start) <<< (start % 64)))
    else
      let firstMask := ~~~((1#64 <<< (start % 64)) - 1)
      let n := countOnes (b.word w0 &&& firstMask)
      let n := (List.range' (w0 + 1) (w1 - (w0 + 1))).foldl (fun n w => n + countOnes (b.word w)) n
      n + countOnes (b.word w1 &&& lowMask ((stop - 1) % 64 + 1))

/-! ### Exact fields -/

/-- The count is right and the bits past the length are clear. -/
structure Exact (b : Bitfield) : Prop where
  counted : Counted b
  padding : ∀ i, b.len ≤ i → bitAt b.words i = false

variable {b : Bitfield}

theorem Exact.bitAt_eq (exact : Exact b) (i : Nat) : bitAt b.words i = b.get i := by
  by_cases inside : i < b.len
  · exact (get_eq_bitAt inside).symm
  · rw [exact.padding i (by omega), get_of_ge (by omega)]

variable {words : List (BitVec 64)} {i : Nat}

theorem bitAt_past (past : 64 * words.length ≤ i) : bitAt words i = false := by
  rw [bitAt, List.getD_eq_default _ _ (by omega)]
  simp

theorem bitAt_map (f : BitVec 64 → BitVec 64) (words : List (BitVec 64)) (inside : i < 64 * words.length) :
    bitAt (words.map f) i = (f (words.getD (i / 64) 0)).getLsbD (i % 64) := by
  have bound : i / 64 < words.length := by omega
  rw [bitAt, List.getD_eq_getElem _ _ (by rw [List.length_map]; exact bound), List.getD_eq_getElem _ _ bound,
    List.getElem_map]

theorem exact_of_words (count : b.count = recount b.words) (padding : ∀ i, b.len ≤ i → bitAt b.words i = false) : Exact b := by
  have room : b.len ≤ 64 * b.words.length := by
    rw [b.shape, divCeil]
    omega
  have spare : (List.range (64 * b.words.length - b.len)).countP (bitAt b.words ∘ (b.len + ·)) = 0 := by
    apply List.countP_eq_zero.mpr
    intro i _
    rw [Function.comp_apply, padding _ (Nat.le_add_right _ _)]
    exact Bool.false_ne_true
  constructor
  · have split : (List.range (64 * b.words.length)).countP (bitAt b.words) =
        (List.range b.len).countP (bitAt b.words) := by
      rw [← Nat.add_sub_cancel' room, List.range_add, List.countP_append, List.countP_map, spare, Nat.add_zero]
    rw [Counted, count, recount, sum_countOnes]
    apply split.trans
    apply List.countP_congr
    intro i member
    rw [get_eq_bitAt (List.mem_range.mp member)]
  · exact padding

/-! ### The operations keep fields exact -/

theorem bitAt_modify {w : Nat} (inside : w < words.length) (f : BitVec 64 → BitVec 64) (j : Nat) :
    bitAt (words.modify w f) j = if w = j / 64 then (f (words.getD (j / 64) 0)).getLsbD (j % 64) else bitAt words j := by
  rw [bitAt, getD_modify _ _ _ _ inside]
  split_ifs <;> rfl

theorem bitAt_set (b : Bitfield) {i j : Nat} (other : i ≠ j) : bitAt (b.set i).words j = bitAt b.words j := by
  unfold set
  split_ifs with past fresh
  · rfl
  · dsimp only
    rw [bitAt_modify (b.word_in_range (by omega))]
    split_ifs with same
    · have apart : i % 64 ≠ j % 64 := fun place => other ((same_place_iff i j).mp ⟨same, place⟩)
      rw [BitVec.getLsbD_or, getLsbD_bit, decide_eq_false apart, Bool.or_false]
      rfl
    · rfl
  · rfl

theorem bitAt_clear (b : Bitfield) {i j : Nat} (other : i ≠ j) : bitAt (b.clear i).words j = bitAt b.words j := by
  unfold clear
  split_ifs with past present
  · rfl
  · dsimp only
    rw [bitAt_modify (b.word_in_range (by omega))]
    split_ifs with same
    · have apart : i % 64 ≠ j % 64 := fun place => other ((same_place_iff i j).mp ⟨same, place⟩)
      have below : j % 64 < 64 := Nat.mod_lt _ (by decide)
      rw [BitVec.getLsbD_and, BitVec.getLsbD_not, getLsbD_bit, decide_eq_false apart, decide_eq_true below]
      simp [bitAt]
    · rfl
  · rfl

theorem bitAt_replicate (n i : Nat) : bitAt (List.replicate n 0) i = false := by
  have zero : (List.replicate n (0 : BitVec 64)).getD (i / 64) 0 = 0 := by
    simp only [List.getD_eq_getElem?_getD, List.getElem?_replicate]
    split_ifs <;> rfl
  rw [bitAt, zero]
  simp

theorem bitAt_maskLast {count : Nat} (sized : words.length = divCeil count 64) (i : Nat) :
    bitAt (maskLast words count) i = (bitAt words i && decide (i < count)) := by
  by_cases inside : i < 64 * words.length
  · by_cases past : count ≤ i
    · rw [decide_eq_false (by omega), Bool.and_false]
      exact maskLast_past sized past inside
    · rw [decide_eq_true (by omega), Bool.and_true, maskLast]
      split_ifs with whole
      · rfl
      · rw [divCeil] at sized
        rw [bitAt_modify (by omega)]
        split_ifs with last
        · rw [BitVec.getLsbD_and, getLsbD_mask, decide_eq_true (by omega), Bool.and_true]
          rfl
        · rfl
  · have outside : 64 * words.length ≤ i := Nat.not_lt.mp inside
    have masked : bitAt (maskLast words count) i = false := by
      apply bitAt_past
      rwa [length_maskLast]
    rw [masked, bitAt_past outside, Bool.false_and]

theorem bitAt_zipWords {f : BitVec 64 → BitVec 64 → BitVec 64} {xs ys : List (BitVec 64)} (same : xs.length = ys.length)
    (inside : i < 64 * xs.length) :
    bitAt (zipWords f xs ys) i = (f (xs.getD (i / 64) 0) (ys.getD (i / 64) 0)).getLsbD (i % 64) := by
  have word : ∀ w < xs.length, (zipWords f xs ys).getD w 0 = f (xs.getD w 0) (ys.getD w 0) := by
    clear inside
    induction xs generalizing ys with
    | nil => simp
    | cons x xs ih =>
      cases ys with
      | nil => simp at same
      | cons y ys =>
        intro w below
        cases w with
        | zero => rfl
        | succ w =>
          simp only [List.length_cons, Nat.add_right_cancel_iff, Nat.add_lt_add_iff_right] at same below
          exact ih same w below
  rw [bitAt, word _ (by omega)]

theorem exact_new (len : Nat) : Exact (new len) := by
  constructor
  · exact counted_new len
  · intro i _
    exact bitAt_replicate _ i

theorem Exact.set (exact : Exact b) (i : Nat) : Exact (b.set i) := by
  constructor
  · exact counted_set exact.counted i
  · intro j past
    rw [len_set] at past
    by_cases inside : i < b.len
    · rw [bitAt_set b (by omega)]
      exact exact.padding j past
    · rw [Bitfield.set, if_pos (by omega)]
      exact exact.padding j past

theorem Exact.clear (exact : Exact b) (i : Nat) : Exact (b.clear i) := by
  constructor
  · exact counted_clear exact.counted i
  · intro j past
    rw [len_clear] at past
    by_cases inside : i < b.len
    · rw [bitAt_clear b (by omega)]
      exact exact.padding j past
    · rw [Bitfield.clear, if_pos (by omega)]
      exact exact.padding j past

theorem bitAt_setAll (b : Bitfield) (i : Nat) : bitAt b.setAll.words i = decide (i < b.len) := by
  have sized : (b.words.map (fun _ => BitVec.allOnes 64)).length = divCeil b.len 64 := by rw [List.length_map, b.shape]
  rw [setAll, bitAt_maskLast sized]
  by_cases inside : i < b.len
  · have shape := b.shape
    rw [divCeil] at shape
    rw [bitAt_map _ _ (by omega), BitVec.getLsbD_allOnes, decide_eq_true (Nat.mod_lt i (by decide)), Bool.true_and]
  · rw [decide_eq_false inside, Bool.and_false]

theorem exact_setAll (b : Bitfield) : Exact b.setAll := by
  have marked : ∀ i < b.len, b.setAll.get i = true := by
    intro i inside
    rw [get_eq_bitAt (show i < b.setAll.len from inside), bitAt_setAll, decide_eq_true inside]
  constructor
  · have all : (List.range b.len).countP b.setAll.get = (List.range b.len).length :=
      List.countP_eq_length.mpr fun i member => marked i (List.mem_range.mp member)
    rw [List.length_range] at all
    exact all.symm
  · intro i past
    rw [bitAt_setAll, decide_eq_false (show ¬ i < b.len from Nat.not_lt.mpr past)]

theorem exact_clearAll (b : Bitfield) : Exact b.clearAll := by
  have zeros : b.clearAll.words = List.replicate b.words.length 0 := List.map_const' ..
  have unmarked : ∀ i, bitAt b.clearAll.words i = false := by
    intro i
    rw [zeros, bitAt_replicate]
  constructor
  · have none : (List.range b.clearAll.len).countP b.clearAll.get = 0 := by
      apply List.countP_eq_zero.mpr
      intro i member
      rw [get_eq_bitAt (List.mem_range.mp member), unmarked]
      exact Bool.false_ne_true
    exact none.symm
  · intro i _
    exact unmarked i

theorem exact_fromBytes {bytes : Bytes} {count : Nat} (loaded : fromBytes bytes count = .ok b) : Exact b := by
  constructor
  · exact counted_fromBytes loaded
  · intro i past
    rw [len_fromBytes loaded] at past
    obtain ⟨-, rest⟩ := guard_eq_ok.mp loaded
    obtain ⟨-, value⟩ := guard_eq_ok.mp rest
    cases value
    have sized : (loadBytes (List.replicate (divCeil count 64) 0) bytes).length = divCeil count 64 := by
      rw [length_loadBytes, List.length_replicate]
    dsimp only
    rw [bitAt_maskLast sized, decide_eq_false (by omega), Bool.and_false]

section merge
variable {b other : Bitfield}

theorem same_words (same : b.len = other.len) : b.words.length = other.words.length := by
  rw [b.shape, other.shape, same]

theorem Exact.orInto (exact : Exact b) (same : b.len = other.len) (otherExact : Exact other) : Exact (b.orInto other) := by
  apply exact_of_words rfl
  intro i past
  change bitAt (zipWords (· ||| ·) b.words other.words) i = false
  by_cases inside : i < 64 * b.words.length
  · have mine := exact.padding i past
    have theirs := otherExact.padding i (same ▸ past)
    rw [bitAt] at mine theirs
    rw [bitAt_zipWords (same_words same) inside, BitVec.getLsbD_or, mine, theirs, Bool.false_or]
  · exact bitAt_past (by rw [length_zipWords]; omega)

theorem Exact.andNot (exact : Exact b) (same : b.len = other.len) : Exact (b.andNot other) := by
  apply exact_of_words rfl
  intro i past
  change bitAt (zipWords (fun x y => x &&& ~~~y) b.words other.words) i = false
  by_cases inside : i < 64 * b.words.length
  · have mine := exact.padding i past
    rw [bitAt] at mine
    rw [bitAt_zipWords (same_words same) inside, BitVec.getLsbD_and, mine, Bool.false_and]
  · exact bitAt_past (by rw [length_zipWords]; omega)

end merge

/-- What a sequence of operations can make of a field. -/
inductive Built : Bitfield → Prop where
  | new (len : Nat) : Built (new len)
  | set {b : Bitfield} (i : Nat) : Built b → Built (b.set i)
  | clear {b : Bitfield} (i : Nat) : Built b → Built (b.clear i)
  | setAll {b : Bitfield} : Built b → Built b.setAll
  | clearAll {b : Bitfield} : Built b → Built b.clearAll
  | fromBytes {b : Bitfield} {bytes : Bytes} {count : Nat} : fromBytes bytes count = .ok b → Built b
  | orInto {b other : Bitfield} : Built b → Built other → b.len = other.len → Built (b.orInto other)
  | andNot {b other : Bitfield} : Built b → Built other → b.len = other.len → Built (b.andNot other)

theorem Built.exact (built : Built b) : Exact b := by
  induction built with
  | new len => exact exact_new len
  | set i _ ih => exact ih.set i
  | clear i _ ih => exact ih.clear i
  | setAll _ _ => exact exact_setAll _
  | clearAll _ _ => exact exact_clearAll _
  | fromBytes loaded => exact exact_fromBytes loaded
  | orInto _ _ same mine theirs => exact mine.orInto same theirs
  | andNot _ _ same mine _ => exact mine.andNot same

end TypeBit.Bitfield
