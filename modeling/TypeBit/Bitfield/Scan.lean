import TypeBit.Bitfield.Words

/-! The scans of the bitset: the next set or clear bit, the last set bit and the set bits of a range, found a word at a
time, are the ones found bit by bit. -/

namespace TypeBit.Bitfield

/-! ### Bit by bit -/

def firstFrom (p : Nat → Bool) (start stop : Nat) : Option Nat :=
  (List.range stop).find? (fun i => decide (start ≤ i) && p i)

def lastBelow (p : Nat → Bool) : Nat → Option Nat
  | 0 => none
  | n + 1 => if p n then some n else lastBelow p n

def countFrom (p : Nat → Bool) (n start stop : Nat) : Nat :=
  (List.range n).countP (fun i => decide (start ≤ i) && decide (i < stop) && p i)

section find
variable {p : Nat → Bool} {start stop : Nat}

theorem firstFrom_eq_some {i : Nat} (after : start ≤ i) (inside : i < stop) (here : p i = true)
    (below : ∀ j, start ≤ j → j < i → p j = false) : firstFrom p start stop = some i := by
  apply List.find?_range_eq_some.mpr
  refine ⟨by simp [after, here], List.mem_range.mpr inside, ?_⟩
  intro j earlier
  by_cases late : start ≤ j
  · simp [below j late earlier]
  · simp [late]

theorem firstFrom_eq_none (absent : ∀ j, start ≤ j → j < stop → p j = false) : firstFrom p start stop = none := by
  apply List.find?_range_eq_none.mpr
  intro j inside
  by_cases late : start ≤ j
  · simp [absent j late inside]
  · simp [late]

theorem firstFrom_skip {mid : Nat} (low : start ≤ mid) (absent : ∀ j, start ≤ j → j < mid → p j = false) :
    firstFrom p start stop = firstFrom p mid stop := by
  unfold firstFrom
  congr 1
  funext j
  by_cases late : mid ≤ j
  · simp [late, low.trans late]
  · by_cases after : start ≤ j
    · simp [late, absent j after (by omega)]
    · simp [late, after]

theorem firstFrom_congr {q : Nat → Bool} (same : ∀ i < stop, p i = q i) :
    firstFrom p start stop = firstFrom q start stop := by
  have members : ∀ i ∈ List.range stop, p i = q i := fun i member => same i (List.mem_range.mp member)
  unfold firstFrom
  generalize List.range stop = l at members ⊢
  induction l with
  | nil => rfl
  | cons i l ih =>
    have rest := ih fun j member => members j (List.mem_cons_of_mem i member)
    rw [List.find?_cons, List.find?_cons, members i List.mem_cons_self, rest]

theorem firstFrom_filter {bound : Nat} (within : bound ≤ stop) :
    (firstFrom p start stop).filter (fun i => decide (i < bound)) = firstFrom p start bound := by
  cases found : firstFrom p start stop with
  | none =>
    have absent := List.find?_range_eq_none.mp found
    symm
    apply firstFrom_eq_none
    intro j after inside
    simpa [after] using absent j (by omega)
  | some i =>
    obtain ⟨here, member, below⟩ := List.find?_range_eq_some.mp found
    rw [Bool.and_eq_true, decide_eq_true_eq] at here
    have earlier : ∀ j, start ≤ j → j < i → p j = false := by
      intro j after before
      simpa [after] using below j before
    by_cases inside : i < bound
    · rw [firstFrom_eq_some here.1 inside here.2 earlier]
      simp [Option.filter, inside]
    · rw [firstFrom_eq_none fun j after low => earlier j after (by omega)]
      simp [Option.filter, inside]

theorem lastBelow_eq_some {i n : Nat} (inside : i < n) (here : p i = true) (above : ∀ j, i < j → j < n → p j = false) :
    lastBelow p n = some i := by
  induction n with
  | zero => omega
  | succ n ih =>
    rw [lastBelow]
    by_cases top : i = n
    · rw [← top, if_pos here]
    · rw [above n (by omega) (by omega), if_neg Bool.false_ne_true]
      exact ih (by omega) (fun j later below => above j later (by omega))

end find

/-! ### The next bit -/

theorem bitAt_map_not (words : List (BitVec 64)) {i : Nat} (inside : i < 64 * words.length) :
    bitAt (words.map (~~~·)) i = !bitAt words i := by
  rw [bitAt_map _ _ inside, BitVec.getLsbD_not, decide_eq_true (Nat.mod_lt i (by decide)), Bool.true_and]
  rfl

theorem scanSet_eq_scanClear (words : List (BitVec 64)) (w : Nat) : scanSet words w = scanClear (words.map (~~~·)) w := by
  induction words generalizing w with
  | nil => rfl
  | cons x tail ih => rw [scanSet, List.map_cons, scanClear, BitVec.not_not, ih]

theorem scanClear_lt {words : List (BitVec 64)} {w i : Nat} (found : scanClear words w = some i) :
    i < 64 * (w + words.length) := by
  induction words generalizing w with
  | nil => simp [scanClear] at found
  | cons x tail ih =>
    rw [scanClear] at found
    rw [List.length_cons]
    split_ifs at found with open_
    · have inside := (trailingZeros_spec open_).1
      have index := Option.some.inj found
      omega
    · have bound := ih found
      omega

theorem scanClear_drop (words : List (BitVec 64)) (v : Nat) :
    scanClear (words.drop v) v = firstFrom (fun i => !bitAt words i) (64 * v) (64 * words.length) := by
  have spec := scanClear_spec (words.drop v) v
  cases found : scanClear (words.drop v) v with
  | none =>
    rw [found] at spec
    symm
    apply firstFrom_eq_none
    intro j after inside
    have full := spec (j - 64 * v) (by rw [List.length_drop]; omega)
    rw [bitAt_drop, Nat.add_sub_cancel' after] at full
    rw [full]
    rfl
  | some i =>
    rw [found] at spec
    obtain ⟨k, place, clear, below⟩ := spec
    rw [bitAt_drop] at clear
    have index : i = 64 * v + k := by omega
    symm
    rw [index]
    apply firstFrom_eq_some
    · omega
    · have bound := scanClear_lt found
      rw [List.length_drop] at bound
      by_cases past : v ≤ words.length
      · omega
      · rw [List.drop_eq_nil_of_le (by omega)] at found
        simp [scanClear] at found
    · rw [clear]
      rfl
    · intro j after earlier
      have full := below (j - 64 * v) (by omega)
      rw [bitAt_drop, Nat.add_sub_cancel' after] at full
      rw [full]
      rfl

theorem scanSet_drop (words : List (BitVec 64)) (v : Nat) :
    scanSet (words.drop v) v = firstFrom (bitAt words) (64 * v) (64 * words.length) := by
  rw [scanSet_eq_scanClear, List.map_drop, scanClear_drop, List.length_map]
  apply firstFrom_congr
  intro i inside
  rw [bitAt_map_not words inside, Bool.not_not]

theorem bitAt_word (words : List (BitVec 64)) {start j : Nat} (after : start ≤ j) (same : j < 64 * (start / 64 + 1)) :
    bitAt words j = (words.getD (start / 64) 0).getLsbD (j % 64) := by
  have word : j / 64 = start / 64 := by omega
  rw [bitAt, word]

theorem nextSetFrom_words (b : Bitfield) {start : Nat} (inside : start < b.len) :
    b.nextSetFrom start = firstFrom (bitAt b.words) start (64 * b.words.length) := by
  have bound := b.word_in_range inside
  rw [nextSetFrom, if_neg (by omega)]
  have shifted : ∀ t, (b.word (start / 64) >>> (start % 64)).getLsbD t =
      (b.words.getD (start / 64) 0).getLsbD (start % 64 + t) := fun t => BitVec.getLsbD_ushiftRight ..
  generalize b.word (start / 64) >>> (start % 64) = shift at shifted
  split_ifs with here
  · obtain ⟨-, marked, below⟩ := trailingZeros_spec here
    rw [shifted] at marked
    have within : start % 64 + trailingZeros shift < 64 := BitVec.lt_of_getLsbD marked
    symm
    apply firstFrom_eq_some
    · omega
    · omega
    · rw [bitAt_word b.words (Nat.le_add_right _ _) (by omega), ← marked]
      congr 1
      omega
    · intro j after earlier
      have unmarked := below (j - start) (by omega)
      rw [shifted] at unmarked
      rw [bitAt_word b.words after (by omega), ← unmarked]
      congr 1
      omega
  · rw [scanSet_drop]
    symm
    apply firstFrom_skip (by omega)
    intro j after earlier
    have zero : shift = 0 := not_not.mp here
    have unmarked := shifted (j - start)
    rw [zero, BitVec.ofNat_eq_ofNat, BitVec.getLsbD_zero] at unmarked
    rw [bitAt_word b.words after earlier, unmarked]
    congr 1
    omega

theorem nextClearFrom_words (b : Bitfield) {start : Nat} (inside : start < b.len) :
    b.nextClearFrom start = (firstFrom (fun i => !bitAt b.words i) start (64 * b.words.length)).filter
      (fun i => decide (i < b.len)) := by
  have bound := b.word_in_range inside
  rw [nextClearFrom, if_neg (by omega)]
  dsimp only
  congr 1
  have masked : ∀ k < 64, (~~~b.word (start / 64) &&& ~~~(bit start - 1)).getLsbD k =
      (!(b.words.getD (start / 64) 0).getLsbD k && decide (start % 64 ≤ k)) := by
    intro k below
    have late : (!decide (k < start % 64)) = decide (start % 64 ≤ k) := by simp [← decide_not]
    rw [BitVec.getLsbD_and, BitVec.getLsbD_not, BitVec.getLsbD_not, getLsbD_mask, late]
    simp [below, Bitfield.word]
  generalize ~~~b.word (start / 64) &&& ~~~(bit start - 1) = inv at masked
  split_ifs with here
  · obtain ⟨within, marked, below⟩ := trailingZeros_spec here
    rw [masked _ within, Bool.and_eq_true, decide_eq_true_eq] at marked
    symm
    apply firstFrom_eq_some
    · omega
    · omega
    · rw [@bitAt_word b.words start _ (by omega) (by omega), ← marked.1]
      congr 2
      omega
    · intro j after earlier
      have unmarked := below (j % 64) (by omega)
      have late : start % 64 ≤ j % 64 := by omega
      rw [masked _ (Nat.mod_lt j (by decide)), decide_eq_true late, Bool.and_true] at unmarked
      rw [bitAt_word b.words after (by omega)]
      exact unmarked
  · rw [scanClear_drop]
    symm
    apply firstFrom_skip (by omega)
    intro j after earlier
    have zero : inv = 0 := not_not.mp here
    have late : start % 64 ≤ j % 64 := by omega
    have unmarked := masked (j % 64) (Nat.mod_lt j (by decide))
    rw [zero, BitVec.ofNat_eq_ofNat, BitVec.getLsbD_zero, decide_eq_true late, Bool.and_true] at unmarked
    rw [bitAt_word b.words after earlier]
    exact unmarked.symm

/-! ### The last bit -/

theorem leadingZeros_spec {w : BitVec 64} (nonzero : w ≠ 0) :
    leadingZeros w < 64 ∧ w.getLsbD (63 - leadingZeros w) = true ∧
      ∀ j, 63 - leadingZeros w < j → j < 64 → w.getLsbD j = false := by
  unfold leadingZeros
  cases found : (List.range 64).find? (fun j => w.getLsbD (63 - j)) with
  | some k =>
    obtain ⟨marked, member, below⟩ := List.find?_range_eq_some.mp found
    have inside := List.mem_range.mp member
    rw [Option.getD_some]
    refine ⟨inside, marked, ?_⟩
    intro j above within
    have unmarked := below (63 - j) (by omega)
    rw [Nat.sub_sub_self (by omega)] at unmarked
    simpa using unmarked
  | none =>
    exfalso
    apply nonzero
    apply BitVec.eq_of_getLsbD_eq
    intro i inside
    have unmarked := List.find?_range_eq_none.mp found (63 - i) (by omega)
    rw [Nat.sub_sub_self (by omega)] at unmarked
    simpa using unmarked

theorem scanLast_eq (words : List (BitVec 64)) (n : Nat) : scanLast words n = lastBelow (bitAt words) (64 * n) := by
  induction n with
  | zero => rfl
  | succ n ih =>
    have word : ∀ j, 64 * n ≤ j → j < 64 * (n + 1) → bitAt words j = (words.getD n 0).getLsbD (j - 64 * n) := by
      intro j low high
      have quotient : j / 64 = n := by omega
      have place : j % 64 = j - 64 * n := by omega
      rw [bitAt, quotient, place]
    rw [scanLast]
    split_ifs with here
    · obtain ⟨inside, marked, above⟩ := leadingZeros_spec here
      symm
      apply lastBelow_eq_some
      · omega
      · rw [word _ (by omega) (by omega), ← marked]
        congr 1
        omega
      · intro j later below
        rw [word j (by omega) below]
        exact above _ (by omega) (by omega)
    · have zero : words.getD n 0 = 0 := not_not.mp here
      have none : ∀ k ≤ 64, lastBelow (bitAt words) (64 * n + k) = lastBelow (bitAt words) (64 * n) := by
        intro k few
        induction k with
        | zero => rfl
        | succ k ihk =>
          rw [← Nat.add_assoc, lastBelow, word _ (by omega) (by omega), zero, BitVec.ofNat_eq_ofNat,
            BitVec.getLsbD_zero, if_neg Bool.false_ne_true]
          exact ihk (by omega)
      rw [ih]
      exact (none 64 (le_refl 64)).symm

/-! ### The bits of a range -/

def stretch (p : Nat → Bool) (start n : Nat) : Nat := (List.range' start n).countP p

theorem stretch_add (p : Nat → Bool) (start m n : Nat) :
    stretch p start m + stretch p (start + m) n = stretch p start (m + n) := by
  have joined := @List.range'_append start m n 1
  rw [Nat.one_mul] at joined
  rw [stretch, stretch, ← List.countP_append, joined]
  rfl

theorem stretch_congr {p q : Nat → Bool} {start n : Nat} (same : ∀ i, start ≤ i → i < start + n → p i = q i) :
    stretch p start n = stretch q start n := by
  apply List.countP_congr
  intro i member
  have bounds := List.mem_range'_1.mp member
  rw [same i bounds.1 bounds.2]

theorem stretch_shift (p : Nat → Bool) (a start n : Nat) :
    stretch (fun k => p (a + k)) start n = stretch p (a + start) n := by
  rw [stretch, stretch, ← List.map_add_range', List.countP_map]
  rfl

theorem countFrom_eq_stretch (p : Nat → Bool) {n start stop : Nat} (order : start ≤ stop) (within : stop ≤ n) :
    countFrom p n start stop = stretch p start (stop - start) := by
  let q := fun i => decide (start ≤ i) && decide (i < stop) && p i
  have before : stretch q 0 start = stretch (fun _ => false) 0 start := stretch_congr fun i _ below => by
    simp only [q]
    rw [decide_eq_false (by omega : ¬ start ≤ i), Bool.false_and, Bool.false_and]
  have here : stretch q start (stop - start) = stretch p start (stop - start) := stretch_congr fun i low high => by
    simp only [q]
    rw [decide_eq_true low, decide_eq_true (by omega : i < stop), Bool.true_and, Bool.true_and]
  have behind : stretch q stop (n - stop) = stretch (fun _ => false) stop (n - stop) := stretch_congr fun i low _ => by
    simp only [q]
    rw [decide_eq_false (by omega : ¬ i < stop), Bool.and_false, Bool.false_and]
  have none : ∀ a m, stretch (fun _ => false) a m = 0 := fun a m => List.countP_eq_zero.mpr (by simp)
  calc countFrom p n start stop
    _ = stretch q 0 n := by rw [countFrom, stretch, List.range_eq_range']
    _ = stretch q 0 start + stretch q start (stop - start) + stretch q stop (n - stop) := by
      have first := stretch_add q 0 start (stop - start)
      have second := stretch_add q 0 (start + (stop - start)) (n - stop)
      rw [Nat.zero_add] at first second
      rw [first, Nat.add_sub_cancel' order] at *
      rw [second, Nat.add_sub_cancel' within]
    _ = stretch p start (stop - start) := by rw [before, here, behind, none, none, Nat.zero_add, Nat.add_zero]

theorem stretch_countOnes (words : List (BitVec 64)) (w : Nat) {m : BitVec 64} {lo hi : Nat} (order : lo ≤ hi)
    (within : hi ≤ 64) (mask : ∀ k < 64, m.getLsbD k = (decide (lo ≤ k) && decide (k < hi))) :
    countOnes (words.getD w 0 &&& m) = stretch (bitAt words) (64 * w + lo) (hi - lo) := by
  have word : ∀ k < 64, bitAt words (64 * w + k) = (words.getD w 0).getLsbD k := by
    intro k below
    have quotient : (64 * w + k) / 64 = w := by omega
    have place : (64 * w + k) % 64 = k := by omega
    rw [bitAt, quotient, place]
  have window := countFrom_eq_stretch (fun k => bitAt words (64 * w + k)) order within
  rw [stretch_shift] at window
  rw [← window, countOnes, countFrom]
  apply List.countP_congr
  intro k member
  have below := List.mem_range.mp member
  rw [BitVec.getLsbD_and, mask k below, word k below, Bool.and_comm]

theorem getLsbD_lowMask {n k : Nat} (few : n ≤ 64) (below : k < 64) : (lowMask n).getLsbD k = decide (k < n) := by
  unfold lowMask
  split_ifs with full
  · rw [BitVec.getLsbD_allOnes, decide_eq_true below, decide_eq_true (by omega)]
  · have mask := getLsbD_mask n k
    rw [bit, Nat.mod_eq_of_lt (show n < 64 by omega)] at mask
    exact mask

theorem foldl_countOnes (words : List (BitVec 64)) (start w n : Nat) :
    (List.range' w n).foldl (fun count v => count + countOnes (words.getD v 0)) start =
      start + stretch (bitAt words) (64 * w) (64 * n) := by
  induction n generalizing start w with
  | zero => rfl
  | succ n ih =>
    have whole := stretch_countOnes words w (m := BitVec.allOnes 64) (Nat.zero_le 64) (le_refl 64)
      (fun k below => by rw [BitVec.getLsbD_allOnes, decide_eq_true below, decide_eq_true (Nat.zero_le k)]; rfl)
    rw [BitVec.and_allOnes, Nat.add_zero, Nat.sub_zero] at whole
    have next := stretch_add (bitAt words) (64 * w) 64 (64 * n)
    rw [List.range'_succ, List.foldl_cons, ih, whole, Nat.mul_succ 64 n, Nat.add_comm (64 * n), ← next, Nat.add_assoc]
    rfl

theorem countRange_eq (b : Bitfield) (start stop : Nat) :
    b.countRange start stop = countFrom b.get b.len start stop := by
  unfold countRange
  split_ifs with empty
  · symm
    apply List.countP_eq_zero.mpr
    intro i member
    have inside := List.mem_range.mp member
    simp only [Bool.and_eq_true, decide_eq_true_eq]
    omega
  · have clipped : countFrom b.get b.len start stop = countFrom b.get b.len start (min stop b.len) := by
      apply List.countP_congr
      intro i member
      have inside := List.mem_range.mp member
      have same : decide (i < stop) = decide (i < min stop b.len) := by
        congr 1
        apply propext
        omega
      rw [same]
    have words : stretch b.get start (min stop b.len - start) =
        stretch (bitAt b.words) start (min stop b.len - start) :=
      stretch_congr fun i _ below => get_eq_bitAt (by omega)
    rw [clipped, countFrom_eq_stretch b.get (by omega) (Nat.min_le_right _ _), words]
    generalize last : min stop b.len = e
    have order : start < e := by omega
    dsimp only
    split_ifs with single
    · have mask : ∀ k < 64, (lowMask (e - start) <<< (start % 64)).getLsbD k =
          (decide (start % 64 ≤ k) && decide (k < start % 64 + (e - start))) := by
        intro k below
        rw [BitVec.getLsbD_shiftLeft, decide_eq_true below, Bool.true_and]
        by_cases low : k < start % 64
        · rw [decide_eq_true low, decide_eq_false (by omega : ¬ start % 64 ≤ k)]
          rfl
        · rw [getLsbD_lowMask (by omega) (by omega), decide_eq_false low, decide_eq_true (by omega : start % 64 ≤ k),
            Bool.not_false, Bool.true_and, Bool.true_and]
          congr 1
          apply propext
          omega
      have counted := stretch_countOnes b.words (start / 64) (Nat.le_add_right _ _) (by omega) mask
      rw [word, counted]
      congr 1 <;> omega
    · have firstMask : ∀ k < 64, (~~~((1#64 <<< (start % 64)) - 1)).getLsbD k =
          (decide (start % 64 ≤ k) && decide (k < 64)) := by
        intro k below
        have low := getLsbD_mask start k
        rw [bit] at low
        rw [BitVec.getLsbD_not, low, decide_eq_true below, Bool.true_and, Bool.and_true, ← decide_not]
        congr 1
        apply propext
        omega
      have lastMask : ∀ k < 64, (lowMask ((e - 1) % 64 + 1)).getLsbD k =
          (decide (0 ≤ k) && decide (k < (e - 1) % 64 + 1)) := by
        intro k below
        rw [getLsbD_lowMask (by omega) below, decide_eq_true (Nat.zero_le k), Bool.true_and]
      have first := stretch_countOnes b.words (start / 64) (by omega) (le_refl 64) firstMask
      have final := stretch_countOnes b.words ((e - 1) / 64) (Nat.zero_le _) (by omega) lastMask
      have middle := foldl_countOnes b.words (countOnes (b.words.getD (start / 64) 0 &&& ~~~((1#64 <<< (start % 64)) - 1)))
        (start / 64 + 1) ((e - 1) / 64 - (start / 64 + 1))
      have front := stretch_add (bitAt b.words) start (64 - start % 64) (64 * ((e - 1) / 64 - (start / 64 + 1)))
      have whole := stretch_add (bitAt b.words) start (64 - start % 64 + 64 * ((e - 1) / 64 - (start / 64 + 1)))
        ((e - 1) % 64 + 1)
      have startAt : 64 * (start / 64) + start % 64 = start := by omega
      have middleAt : start + (64 - start % 64) = 64 * (start / 64 + 1) := by omega
      have lastAt : start + (64 - start % 64 + 64 * ((e - 1) / 64 - (start / 64 + 1))) = 64 * ((e - 1) / 64) + 0 := by omega
      have length : 64 - start % 64 + 64 * ((e - 1) / 64 - (start / 64 + 1)) + ((e - 1) % 64 + 1) = e - start := by omega
      rw [startAt] at first
      rw [middleAt] at front
      rw [lastAt, length] at whole
      rw [Nat.sub_zero] at final
      rw [← whole, ← front, ← first, ← final, ← middle]
      rfl

/-! ### Every field that is built -/

/-- The word operations of a field return what their definitions bit by bit give. -/
structure BitByBit (b : Bitfield) : Prop where
  padding : ∀ i, b.len ≤ i → bitAt b.words i = false
  count : b.count = (List.range b.len).countP b.get
  nextSet : ∀ start, b.nextSetFrom start = firstFrom b.get start b.len
  nextClear : ∀ start, b.nextClearFrom start = firstFrom (fun i => !b.get i) start b.len
  first : b.firstSet = firstFrom b.get 0 b.len
  last : b.lastSet = lastBelow b.get b.len
  all : b.allSet = true ↔ ∀ i < b.len, b.get i = true
  range : ∀ start stop, b.countRange start stop = countFrom b.get b.len start stop

section exact
variable {b : Bitfield} (exact : Exact b)
include exact

theorem nextSetFrom_eq (start : Nat) : b.nextSetFrom start = firstFrom b.get start b.len := by
  by_cases inside : start < b.len
  · have room : b.len ≤ 64 * b.words.length := by
      rw [b.shape, divCeil]
      omega
    have among : firstFrom (bitAt b.words) start (64 * b.words.length) = firstFrom (bitAt b.words) start b.len := by
      rw [← firstFrom_filter room]
      cases found : firstFrom (bitAt b.words) start (64 * b.words.length) with
      | none => rfl
      | some i =>
        obtain ⟨here, -⟩ := List.find?_range_eq_some.mp found
        rw [Bool.and_eq_true] at here
        have below : i < b.len := by
          by_contra past
          rw [exact.padding i (by omega)] at here
          exact Bool.false_ne_true here.2
        simp [Option.filter, below]
    rw [nextSetFrom_words b inside, among]
    apply firstFrom_congr
    intro i _
    exact exact.bitAt_eq i
  · rw [nextSetFrom, if_pos (by omega), firstFrom_eq_none]
    intro j after below
    omega

theorem nextClearFrom_eq (start : Nat) : b.nextClearFrom start = firstFrom (fun i => !b.get i) start b.len := by
  by_cases inside : start < b.len
  · have room : b.len ≤ 64 * b.words.length := by
      rw [b.shape, divCeil]
      omega
    rw [nextClearFrom_words b inside, firstFrom_filter room]
    apply firstFrom_congr
    intro i _
    rw [exact.bitAt_eq]
  · rw [nextClearFrom, if_pos (by omega), firstFrom_eq_none]
    intro j after below
    omega

theorem lastSet_eq : b.lastSet = lastBelow b.get b.len := by
  have shape := b.shape
  rw [divCeil] at shape
  have room : ∀ k, lastBelow b.get (b.len + k) = lastBelow b.get b.len := by
    intro k
    induction k with
    | zero => rfl
    | succ k ih => rw [← Nat.add_assoc, lastBelow, get_of_ge (Nat.le_add_right _ _), if_neg Bool.false_ne_true, ih]
  have same : bitAt b.words = b.get := funext exact.bitAt_eq
  rw [lastSet, scanLast_eq, same, ← room (64 * b.words.length - b.len)]
  congr 1
  omega

theorem allSet_iff : b.allSet = true ↔ ∀ i < b.len, b.get i = true := by
  have counted := exact.counted
  rw [Counted] at counted
  rw [allSet, decide_eq_true_eq, counted]
  have full := List.countP_eq_length (p := b.get) (l := List.range b.len)
  rw [List.length_range] at full
  rw [full]
  constructor
  · intro all i inside
    exact all i (List.mem_range.mpr inside)
  · intro all i member
    exact all i (List.mem_range.mp member)

end exact

/-- After any sequence of operations the words agree with the bits. -/
theorem Built.bitByBit {b : Bitfield} (built : Built b) : BitByBit b where
  padding := built.exact.padding
  count := built.exact.counted
  nextSet := nextSetFrom_eq built.exact
  nextClear := nextClearFrom_eq built.exact
  first := nextSetFrom_eq built.exact 0
  last := lastSet_eq built.exact
  all := allSet_iff built.exact
  range := countRange_eq b

def sampleField : Bitfield := ((new 70).set 3).orInto ((new 70).setAll.clear 64)

theorem sampleField_bitByBit : BitByBit sampleField ∧ sampleField.count = 69 ∧ sampleField.nextClearFrom 5 = some 64 := by
  have built : Built sampleField := .orInto (.set 3 (.new 70)) (.clear 64 (.setAll (.new 70))) (by decide)
  exact ⟨built.bitByBit, by decide, by decide⟩

end TypeBit.Bitfield
