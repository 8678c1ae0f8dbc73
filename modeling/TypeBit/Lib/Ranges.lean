import Mathlib.Algebra.Order.Ring.Int
import Mathlib.Data.Finset.Card
import Mathlib.Data.List.Sort
import Mathlib.Order.Interval.Finset.Nat

/-! Sets of naturals kept as sorted lists of half-open windows: the cells they cover, adding a
window by sorting and coalescing, counting what a window would add, and the gaps it would fill. -/

namespace Ranges
open Finset

/-- The naturals that some window covers. -/
def cells (l : List (ℕ × ℕ)) : Finset ℕ := l.foldr (fun r acc => Ico r.1 r.2 ∪ acc) ∅

/-- Nonempty windows in order, apart from each other and never adjacent. -/
def Normal (l : List (ℕ × ℕ)) : Prop := (∀ r ∈ l, r.1 < r.2) ∧ l.Pairwise (fun a b => a.2 < b.1)

def size (l : List (ℕ × ℕ)) : ℕ := (l.map (fun r => r.2 - r.1)).sum

/-- Windows ordered by start, then by end. -/
def Before (a b : ℕ × ℕ) : Prop := a.1 < b.1 ∨ (a.1 = b.1 ∧ a.2 ≤ b.2)

instance : DecidableRel Before := fun a b => inferInstanceAs (Decidable (a.1 < b.1 ∨ (a.1 = b.1 ∧ a.2 ≤ b.2)))
instance : IsTrans (ℕ × ℕ) Before := ⟨fun _ _ _ ab bc => by unfold Before at *; omega⟩
instance : Std.Total Before := ⟨fun _ _ => by unfold Before; omega⟩

/-- Join the sorted windows that touch the one before them. -/
def coalesceFrom (cur : ℕ × ℕ) : List (ℕ × ℕ) → List (ℕ × ℕ)
  | [] => [cur]
  | r :: tail => if r.1 ≤ cur.2 then coalesceFrom (cur.1, max cur.2 r.2) tail else cur :: coalesceFrom r tail

def coalesce : List (ℕ × ℕ) → List (ℕ × ℕ)
  | [] => []
  | r :: tail => coalesceFrom r tail

/-- What is left of a count after taking away the overlap of the window with each range. -/
def uncovered (s e : ℕ) : List (ℕ × ℕ) → ℕ → ℕ
  | [], n => n
  | r :: tail, n =>
      if r.2 ≤ s then uncovered s e tail n
      else if r.1 ≥ e then n
      else uncovered s e tail (n - (min e r.2 - max s r.1))

/-- The part of the window from `cur` on, if there is any. -/
def rest (e cur : ℕ) : List (ℕ × ℕ) := if cur < e then [(cur, e)] else []

/-- The parts of the window `[cur, e)` that no range covers. -/
def gaps (e : ℕ) : List (ℕ × ℕ) → ℕ → List (ℕ × ℕ)
  | [], cur => rest e cur
  | r :: tail, cur =>
      if r.2 ≤ cur then gaps e tail cur
      else if r.1 ≥ e then rest e cur
      else
        (if r.1 > cur then [(cur, min r.1 e)] else []) ++
          (if max cur (min r.2 e) ≥ e then [] else gaps e tail (max cur (min r.2 e)))

@[simp] theorem cells_nil : cells [] = ∅ := rfl

@[simp] theorem cells_cons (r : ℕ × ℕ) (l : List (ℕ × ℕ)) : cells (r :: l) = Ico r.1 r.2 ∪ cells l := rfl

variable {l : List (ℕ × ℕ)} {x : ℕ}

theorem mem_cells : x ∈ cells l ↔ ∃ r ∈ l, r.1 ≤ x ∧ x < r.2 := by
  induction l with
  | nil => simp
  | cons r tail ih => simp [ih]

theorem cells_append (l m : List (ℕ × ℕ)) : cells (l ++ m) = cells l ∪ cells m := by
  ext x
  simp only [mem_cells, mem_union, List.mem_append, or_and_right, exists_or]

theorem cells_perm {l m : List (ℕ × ℕ)} (perm : l.Perm m) : cells l = cells m := by
  ext x
  simp only [mem_cells, perm.mem_iff]

variable {r : ℕ × ℕ}

theorem Normal.tail (normal : Normal (r :: l)) : Normal l :=
  ⟨fun q member => normal.1 q (List.mem_cons_of_mem _ member), (List.pairwise_cons.mp normal.2).2⟩

/-- Everything after the first window lies past its end. -/
theorem Normal.lt_of_mem_tail (normal : Normal (r :: l)) (covered : x ∈ cells l) : r.2 < x := by
  obtain ⟨q, member, start, _⟩ := mem_cells.mp covered
  have apart := (List.pairwise_cons.mp normal.2).1 q member
  omega

theorem Normal.le_of_mem (normal : Normal (r :: l)) (covered : x ∈ cells (r :: l)) : r.1 ≤ x := by
  rw [cells_cons, mem_union, mem_Ico] at covered
  have filled := normal.1 r (by simp)
  rcases covered with inFirst | later
  · exact inFirst.1
  · have past := normal.lt_of_mem_tail later
    omega

/-! ### Coalescing -/

theorem cells_coalesceFrom {cur : ℕ × ℕ} (ordered : (cur :: l).Pairwise Before) :
    cells (coalesceFrom cur l) = cells (cur :: l) := by
  induction l generalizing cur with
  | nil => rfl
  | cons r tail ih =>
    obtain ⟨first, others⟩ := List.pairwise_cons.mp ordered
    have start := first r (by simp)
    unfold coalesceFrom
    split_ifs with touching
    · have joined : ((cur.1, max cur.2 r.2) :: tail).Pairwise Before := by
        refine List.pairwise_cons.mpr ⟨?_, (List.pairwise_cons.mp others).2⟩
        intro q member
        have afterCur := first q (List.mem_cons_of_mem _ member)
        have afterR := (List.pairwise_cons.mp others).1 q member
        unfold Before at *
        simp only
        omega
      rw [ih joined]
      ext x
      simp only [cells_cons, mem_union, mem_Ico]
      unfold Before at start
      by_cases later : x ∈ cells tail
      · simp [later]
      · simp only [later, or_false]
        omega
    · rw [cells_cons, ih others]
      rfl

theorem normal_coalesceFrom {cur : ℕ × ℕ} (ordered : (cur :: l).Pairwise Before) (filled : ∀ r ∈ cur :: l, r.1 < r.2) :
    Normal (coalesceFrom cur l) ∧ ∀ r ∈ coalesceFrom cur l, cur.1 ≤ r.1 := by
  induction l generalizing cur with
  | nil =>
    refine ⟨⟨filled, by simp [coalesceFrom]⟩, ?_⟩
    intro r member
    rw [coalesceFrom, List.mem_singleton] at member
    rw [member]
  | cons r tail ih =>
    obtain ⟨first, others⟩ := List.pairwise_cons.mp ordered
    have start := first r (by simp)
    have curFilled := filled cur (by simp)
    unfold coalesceFrom
    split_ifs with touching
    · have joined : ((cur.1, max cur.2 r.2) :: tail).Pairwise Before := by
        refine List.pairwise_cons.mpr ⟨?_, (List.pairwise_cons.mp others).2⟩
        intro q member
        have afterCur := first q (List.mem_cons_of_mem _ member)
        have afterR := (List.pairwise_cons.mp others).1 q member
        unfold Before at *
        simp only
        omega
      apply ih joined
      intro q member
      rcases List.mem_cons.mp member with rfl | later
      · exact lt_of_lt_of_le curFilled (le_max_left _ _)
      · exact filled q (by simp [later])
    · obtain ⟨normal, above⟩ := ih others (fun q member => filled q (List.mem_cons_of_mem _ member))
      refine ⟨⟨?_, List.pairwise_cons.mpr ⟨?_, normal.2⟩⟩, ?_⟩
      · intro q member
        rcases List.mem_cons.mp member with rfl | later
        · exact curFilled
        · exact normal.1 q later
      · intro q member
        have past := above q member
        omega
      · intro q member
        rcases List.mem_cons.mp member with rfl | later
        · exact le_refl _
        · have past := above q later
          unfold Before at start
          omega

/-- Add a window: put it in order and join what touches. -/
def add (l : List (ℕ × ℕ)) (s e : ℕ) : List (ℕ × ℕ) := coalesce ((l ++ [(s, e)]).insertionSort Before)

theorem add_spec (normal : Normal l) {s e : ℕ} (filled : s < e) :
    Normal (add l s e) ∧ cells (add l s e) = cells l ∪ Ico s e := by
  have perm := List.perm_insertionSort Before (l ++ [(s, e)])
  have ordered := List.pairwise_insertionSort Before (l ++ [(s, e)])
  have covered : cells ((l ++ [(s, e)]).insertionSort Before) = cells l ∪ Ico s e := by
    rw [cells_perm perm, cells_append, cells_cons, cells_nil, union_empty]
  have allFilled : ∀ r ∈ (l ++ [(s, e)]).insertionSort Before, r.1 < r.2 := by
    intro r member
    rcases List.mem_append.mp (perm.mem_iff.mp member) with old | new
    · exact normal.1 r old
    · rw [List.mem_singleton.mp new]
      exact filled
  unfold add
  cases sorted : (l ++ [(s, e)]).insertionSort Before with
  | nil =>
    have lengths := perm.length_eq
    simp [sorted] at lengths
  | cons r tail =>
    rw [sorted] at ordered covered allFilled
    exact ⟨(normal_coalesceFrom ordered allFilled).1, (cells_coalesceFrom ordered).trans covered⟩

/-! ### Counting and gaps -/

/-- The loop takes away exactly the covered part of the window. -/
theorem uncovered_eq (normal : Normal l) (s e n : ℕ) : uncovered s e l n = n - (cells l ∩ Ico s e).card := by
  induction l generalizing n with
  | nil => simp [uncovered]
  | cons r tail ih =>
    have filled := normal.1 r (by simp)
    unfold uncovered
    split_ifs with before after
    · have same : cells (r :: tail) ∩ Ico s e = cells tail ∩ Ico s e := by
        ext x
        simp only [cells_cons, mem_inter, mem_union, mem_Ico]
        by_cases later : x ∈ cells tail
        · simp [later]
        · simp only [later, or_false, false_and, iff_false]
          omega
      rw [ih normal.tail, same]
    · have none : cells (r :: tail) ∩ Ico s e = ∅ := by
        ext x
        simp only [mem_inter, mem_Ico, notMem_empty, iff_false]
        rintro ⟨covered, inside⟩
        have past := normal.le_of_mem covered
        omega
      rw [none, card_empty, Nat.sub_zero]
    · have split : cells (r :: tail) ∩ Ico s e =
          Ico (max s r.1) (min e r.2) ∪ (cells tail ∩ Ico s e) := by
        ext x
        simp only [cells_cons, mem_inter, mem_union, mem_Ico]
        by_cases later : x ∈ cells tail
        · simp only [later, or_true, true_and]
          omega
        · simp only [later, or_false, false_and]
          omega
      have disjoint : Disjoint (Ico (max s r.1) (min e r.2)) (cells tail ∩ Ico s e) := by
        rw [disjoint_left]
        intro x inFirst later
        have past := normal.lt_of_mem_tail (mem_inter.mp later).1
        have below := (mem_Ico.mp inFirst).2
        omega
      rw [ih normal.tail, split, card_union_of_disjoint disjoint, Nat.card_Ico, Nat.sub_sub]

/-- The parts of the ranges that lie in the window sum up to what the window has of them. -/
theorem card_cells_inter (normal : Normal l) (s e : ℕ) :
    (l.map (fun r => min r.2 e - max r.1 s)).sum = (cells l ∩ Ico s e).card := by
  induction l with
  | nil => simp
  | cons r tail ih =>
    have split : cells (r :: tail) ∩ Ico s e =
        Ico (max r.1 s) (min r.2 e) ∪ (cells tail ∩ Ico s e) := by
      ext x
      simp only [cells_cons, mem_inter, mem_union, mem_Ico]
      by_cases later : x ∈ cells tail
      · simp only [later, or_true, true_and]
        omega
      · simp only [later, or_false, false_and]
        omega
    have disjoint : Disjoint (Ico (max r.1 s) (min r.2 e)) (cells tail ∩ Ico s e) := by
      rw [disjoint_left]
      intro x inFirst later
      have past := normal.lt_of_mem_tail (mem_inter.mp later).1
      have below := (mem_Ico.mp inFirst).2
      omega
    rw [List.map_cons, List.sum_cons, ih normal.tail, split, card_union_of_disjoint disjoint, Nat.card_Ico]

theorem cells_rest (e cur : ℕ) : cells (rest e cur) = Ico cur e := by
  unfold rest
  split_ifs with open_
  · simp
  · rw [cells_nil, Ico_eq_empty (by omega)]

theorem cells_gaps (normal : Normal l) (e cur : ℕ) : cells (gaps e l cur) = Ico cur e \ cells l := by
  induction l generalizing cur with
  | nil => simp [gaps, cells_rest]
  | cons r tail ih =>
    have filled := normal.1 r (by simp)
    unfold gaps
    split_ifs with before after open_ full full
    · rw [ih normal.tail]
      ext x
      simp only [cells_cons, mem_sdiff, mem_union, mem_Ico]
      by_cases later : x ∈ cells tail
      · simp [later]
      · simp only [later, or_false, not_false_eq_true, and_true]
        omega
    · rw [cells_rest]
      ext x
      simp only [mem_sdiff, mem_Ico]
      constructor
      · intro inside
        refine ⟨inside, fun covered => ?_⟩
        have past := normal.le_of_mem covered
        omega
      · exact fun both => both.1
    -- past the first range only the tail decides, before it only the range itself
    all_goals
      ext x
      have past : x ∈ cells tail → r.2 < x := normal.lt_of_mem_tail
      simp only [cells_append, cells_cons, cells_nil, ih normal.tail, mem_sdiff, mem_union,
        mem_Ico, notMem_empty, or_false, false_or]
      constructor
    all_goals grind

/-- Every gap is a nonempty part of the window. -/
theorem mem_gaps {e : ℕ} {cur : ℕ} {g : ℕ × ℕ} (member : g ∈ gaps e l cur) : cur ≤ g.1 ∧ g.1 < g.2 ∧ g.2 ≤ e := by
  induction l generalizing cur with
  | nil =>
    simp only [gaps, rest] at member
    split_ifs at member with open_
    · rw [List.mem_singleton.mp member]
      exact ⟨le_refl _, open_, le_refl _⟩
    · simp at member
  | cons r tail ih =>
    unfold gaps at member
    split_ifs at member with before after open_ full full
    · exact ih member
    · simp only [rest] at member
      split_ifs at member with open_
      · rw [List.mem_singleton.mp member]
        exact ⟨le_refl _, open_, le_refl _⟩
      · simp at member
    · rw [List.append_nil, List.mem_singleton] at member
      rw [member]
      exact ⟨le_refl _, by simp only; omega, min_le_right _ _⟩
    · rcases List.mem_append.mp member with first | later
      · rw [List.mem_singleton.mp first]
        exact ⟨le_refl _, by simp only; omega, min_le_right _ _⟩
      · obtain ⟨start, rest⟩ := ih later
        exact ⟨(le_max_left _ _).trans start, rest⟩
    · simp at member
    · rw [List.nil_append] at member
      obtain ⟨start, rest⟩ := ih member
      exact ⟨(le_max_left _ _).trans start, rest⟩

end Ranges
