import Mathlib.Algebra.BigOperators.Group.List.Basic
import Mathlib.Algebra.Order.Ring.Int
import Mathlib.Data.Nat.Basic
import Mathlib.Tactic.Common

/-! Consecutive segments cut into tiles of one size, each segment's last tile possibly shorter. -/

namespace Tiling
open Option

/-- Segment number and offset of a position in consecutive segments. -/
def locate : List Nat → Nat → Option (Nat × Nat)
  | [], _ => none
  | l :: tail, x => if x < l then some (0, x) else (locate tail (x - l)).map (fun p => (p.1 + 1, p.2))

theorem locate_eq_some_iff (sizes : List Nat) (x i r : Nat) :
    locate sizes x = some (i, r) ↔
      ∃ l, sizes[i]? = some l ∧ r < l ∧ x = (sizes.take i).sum + r := by
  induction sizes generalizing x i with
  | nil => simp [locate]
  | cons l tail ih =>
    by_cases inside : x < l
    · rw [locate, if_pos inside]
      cases i with
      | zero =>
        simp only [some.injEq, Prod.mk.injEq, true_and, List.getElem?_cons_zero, List.take_zero,
          List.sum_nil, Nat.zero_add]
        constructor
        · intro same
          exact ⟨l, rfl, by omega, same⟩
        · rintro ⟨_, _, _, same⟩
          exact same
      | succ i =>
        simp only [some.injEq, Prod.mk.injEq, List.getElem?_cons_succ, List.take_succ_cons, List.sum_cons]
        constructor
        · rintro ⟨zero, _⟩
          omega
        · rintro ⟨_, _, _, same⟩
          omega
    · rw [locate, if_neg inside]
      cases i with
      | zero =>
        simp only [map_eq_some_iff, Prod.mk.injEq, List.getElem?_cons_zero, some.injEq,
          List.take_zero, List.sum_nil]
        constructor
        · rintro ⟨_, _, zero, _⟩
          omega
        · rintro ⟨_, rfl, small, same⟩
          omega
      | succ i =>
        simp only [map_eq_some_iff, Prod.mk.injEq, Nat.add_right_cancel_iff, List.getElem?_cons_succ,
          List.take_succ_cons, List.sum_cons]
        constructor
        · rintro ⟨⟨j, s⟩, found, rfl, rfl⟩
          obtain ⟨m, segment, small, place⟩ := (ih (x - l) j).mp found
          exact ⟨m, segment, small, by dsimp only; omega⟩
        · rintro ⟨m, segment, small, place⟩
          exact ⟨(i, r), (ih (x - l) i).mpr ⟨m, segment, small, by omega⟩, rfl, rfl⟩

theorem locate_isSome_iff (sizes : List Nat) (x : Nat) : (∃ p, locate sizes x = some p) ↔ x < sizes.sum := by
  induction sizes generalizing x with
  | nil => simp [locate]
  | cons l tail ih =>
    rw [List.sum_cons]
    by_cases inside : x < l
    · simp only [locate, if_pos inside]
      exact ⟨fun _ => by omega, fun _ => ⟨(0, x), rfl⟩⟩
    · simp only [locate, if_neg inside, map_eq_some_iff]
      constructor
      · rintro ⟨_, found, located, _⟩
        have below := (ih (x - l)).mp ⟨found, located⟩
        omega
      · intro below
        obtain ⟨found, located⟩ := (ih (x - l)).mpr (by omega)
        exact ⟨_, found, located, rfl⟩

/-- How many tiles of `size` cover `len`. -/
def count (size len : Nat) : Nat := (len + size - 1) / size

theorem lt_count_iff {size len r : Nat} (positive : 0 < size) : r < count size len ↔ r * size < len := by
  unfold count
  rw [Nat.lt_iff_add_one_le, Nat.le_div_iff_mul_le positive, Nat.add_mul, Nat.one_mul]
  omega

theorem count_le_iff {size len n : Nat} (positive : 0 < size) : count size len ≤ n ↔ len ≤ n * size := by
  rw [← not_lt, lt_count_iff positive, not_lt]

/-- The tile lengths of one segment. -/
def cut (size len : Nat) : List Nat := (List.range (count size len)).map (fun r => min size (len - r * size))

/-- The tile lengths of consecutive segments. -/
def tiles (size : Nat) (lens : List Nat) : List Nat := lens.flatMap (cut size)

theorem length_cut (size len : Nat) : (cut size len).length = count size len := by simp [cut]

theorem length_tiles (size : Nat) (lens : List Nat) : (tiles size lens).length = (lens.map (count size)).sum := by
  simp [tiles, List.length_flatMap, length_cut]

theorem getElem?_cut {size len r : Nat} (below : r < count size len) :
    (cut size len)[r]? = some (min size (len - r * size)) := by
  simp [cut, below]

/-- The first `r` tiles cover the first `r * size` positions, or the whole segment. -/
theorem sum_take_cut {size len : Nat} (positive : 0 < size) (r : Nat) :
    ((cut size len).take r).sum = min (r * size) len := by
  induction r with
  | zero => simp
  | succ r ih =>
    by_cases below : r < count size len
    · have bound := (lt_count_iff positive).mp below
      rw [List.take_add_one, getElem?_cut below, List.sum_append, ih]
      simp only [toList_some, List.sum_singleton, Nat.add_mul, Nat.one_mul]
      omega
    · have beyond := (count_le_iff positive).mp (not_lt.mp below)
      have short : (cut size len).length ≤ r := by rw [length_cut]; omega
      rw [List.take_of_length_le short] at ih
      rw [List.take_of_length_le (by omega), ih, Nat.add_mul]
      omega

theorem sum_cut {size len : Nat} (positive : 0 < size) : (cut size len).sum = len := by
  have whole : ((cut size len).take (count size len)).sum = _ := sum_take_cut positive (count size len)
  have cover := (count_le_iff positive).mp (le_refl (count size len))
  rw [List.take_of_length_le (by rw [length_cut])] at whole
  omega

theorem sum_tiles {size : Nat} (positive : 0 < size) (lens : List Nat) : (tiles size lens).sum = lens.sum := by
  induction lens with
  | nil => rfl
  | cons l tail ih =>
    rw [tiles, List.flatMap_cons, List.sum_append, sum_cut positive, List.sum_cons]
    exact congrArg (l + ·) ih

/-- The tile found by walking the tile counts: its length, and where it starts. -/
theorem tiles_at {size : Nat} (positive : 0 < size) {lens : List Nat} {i k r : Nat}
    (found : locate (lens.map (count size)) i = some (k, r)) :
    ∃ l, lens[k]? = some l ∧ r * size < l ∧ (tiles size lens)[i]? = some (min size (l - r * size)) ∧
      ((tiles size lens).take i).sum = (lens.take k).sum + r * size := by
  induction lens generalizing i k with
  | nil => simp [locate] at found
  | cons l tail ih =>
    rw [List.map_cons, locate] at found
    have split : tiles size (l :: tail) = cut size l ++ tiles size tail := by simp [tiles]
    by_cases inside : i < count size l
    · rw [if_pos inside, some.injEq, Prod.mk.injEq] at found
      obtain ⟨rfl, rfl⟩ := found
      have bound := (lt_count_iff positive).mp inside
      refine ⟨l, rfl, bound, ?_, ?_⟩
      · rw [split, List.getElem?_append_left (by rw [length_cut]; exact inside), getElem?_cut inside]
      · rw [split, List.take_append_of_le_length (by rw [length_cut]; omega), sum_take_cut positive]
        simp only [List.take_zero, List.sum_nil, Nat.zero_add]
        omega
    · rw [if_neg inside, map_eq_some_iff] at found
      obtain ⟨⟨j, s⟩, later, same⟩ := found
      simp only [Prod.mk.injEq] at same
      obtain ⟨rfl, rfl⟩ := same
      obtain ⟨m, segment, bound, tile, start⟩ := ih later
      have past : (cut size l).length ≤ i := by rw [length_cut]; omega
      refine ⟨m, by simpa using segment, bound, ?_, ?_⟩
      · rw [split, List.getElem?_append_right past, length_cut, tile]
      · rw [split, List.take_append, List.take_of_length_le past, List.sum_append, sum_cut positive, length_cut,
          start, List.take_succ_cons, List.sum_cons, Nat.add_assoc]

end Tiling
