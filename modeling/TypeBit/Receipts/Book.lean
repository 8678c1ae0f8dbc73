import Mathlib.Algebra.BigOperators.Group.Finset.Piecewise
import TypeBit.Lib.Ranges
import TypeBit.Platform

/-! The evidence a node keeps of what it received (`ReceiptBook` of `receipt.rs`): ranges that are merged as they come,
and beside them a running count of bytes, which nothing is taken off when ranges overlap. -/

namespace TypeBit.Receipts
open Ranges Finset

structure ReceiptBook where
  contentRoot : ByteArr 32
  /-- Merged received ranges. -/
  ranges : List (Nat × Nat)
  /-- Sampled block hashes, by offset. -/
  samples : List (Nat × ByteArr 32)
  /-- Total bytes recorded. -/
  bytes : Nat

namespace ReceiptBook

def new (contentRoot : ByteArr 32) : ReceiptBook := ⟨contentRoot, [], [], 0⟩

def recordRange (b : ReceiptBook) (start stop : Nat) : ReceiptBook :=
  if stop ≤ start then b
  else { b with ranges := Ranges.add b.ranges start stop, bytes := wadd b.bytes (stop - start) }

def recordSample (b : ReceiptBook) (offset : Nat) (blockHash : ByteArr 32) : ReceiptBook :=
  if b.samples.any (fun e => decide (e.1 = offset)) then b
  else { b with samples := b.samples ++ [(offset, blockHash)] }

def addOverlap (start stop covered : Nat) (r : Nat × Nat) : Nat :=
  let lo := max r.1 start
  let hi := min r.2 stop
  if hi > lo then wadd covered (hi - lo) else covered

def coverage (b : ReceiptBook) (start stop : Nat) : Nat := b.ranges.foldl (addOverlap start stop) 0

def recorded (contentRoot : ByteArr 32) (calls : List (Nat × Nat)) : ReceiptBook :=
  calls.foldl (fun b c => b.recordRange c.1 c.2) (new contentRoot)

/-! ### Ranges -/

theorem foldl_addOverlap (ranges : List (Nat × Nat)) (start stop : Nat) {covered : Nat} (small : covered < 2 ^ 64) :
    ranges.foldl (addOverlap start stop) covered =
      (covered + (ranges.map (fun r => min r.2 stop - max r.1 start)).sum) % 2 ^ 64 := by
  induction ranges generalizing covered with
  | nil => exact (Nat.mod_eq_of_lt small).symm
  | cons r tail ih =>
    have next : addOverlap start stop covered r = (covered + (min r.2 stop - max r.1 start)) % 2 ^ 64 := by
      unfold addOverlap wadd
      dsimp only
      split_ifs with overlap
      · rfl
      · rw [Nat.sub_eq_zero_of_le (Nat.le_of_not_lt overlap), Nat.add_zero, Nat.mod_eq_of_lt small]
    rw [List.foldl_cons, next, ih (Nat.mod_lt _ (by decide)), List.map_cons, List.sum_cons]
    omega

/-- The ranges are in order, and coverage counts what they cover. -/
structure Exact (b : ReceiptBook) : Prop where
  normal : Normal b.ranges
  bounded : cells b.ranges ⊆ range (2 ^ 64 - 1)

theorem exact_new (contentRoot : ByteArr 32) : Exact (new contentRoot) :=
  ⟨⟨nofun, List.Pairwise.nil⟩, by simp [new]⟩

theorem cells_recordRange {b : ReceiptBook} (exact : Exact b) (start stop : Nat) :
    cells (b.recordRange start stop).ranges = cells b.ranges ∪ Ico start stop := by
  unfold recordRange
  split_ifs with empty
  · rw [Ico_eq_empty (by omega), union_empty]
  · exact (add_spec exact.normal (Nat.lt_of_not_le empty)).2

theorem exact_recordRange {b : ReceiptBook} (exact : Exact b) {start stop : Nat} (fits : stop < 2 ^ 64) :
    Exact (b.recordRange start stop) := by
  refine ⟨?_, ?_⟩
  · unfold recordRange
    split_ifs with empty
    · exact exact.normal
    · exact (add_spec exact.normal (Nat.lt_of_not_le empty)).1
  · rw [cells_recordRange exact]
    apply union_subset exact.bounded
    intro x member
    have below := (mem_Ico.mp member).2
    exact mem_range.mpr (by omega)

theorem coverage_eq {b : ReceiptBook} (exact : Exact b) (start stop : Nat) :
    b.coverage start stop = (cells b.ranges ∩ Ico start stop).card := by
  have few := card_le_card (inter_subset_left.trans exact.bounded :
    cells b.ranges ∩ Ico start stop ⊆ range (2 ^ 64 - 1))
  rw [card_range] at few
  rw [coverage, foldl_addOverlap _ _ _ (by decide), card_cells_inter exact.normal, Nat.zero_add, Nat.mod_eq_of_lt (by omega)]

/-! ### The byte counter -/

def times (calls : List (Nat × Nat)) (x : Nat) : Nat := calls.countP (fun c => decide (c.1 ≤ x ∧ x < c.2))

def repeats (calls : List (Nat × Nat)) : Nat := ∑ x ∈ cells calls, (times calls x - 1)

theorem times_pos_iff {calls : List (Nat × Nat)} {x : Nat} : 0 < times calls x ↔ x ∈ cells calls := by
  rw [times, List.countP_pos_iff, mem_cells]
  simp

theorem sum_times {calls : List (Nat × Nat)} {all : Finset Nat} (inside : cells calls ⊆ all) :
    ∑ x ∈ all, times calls x = size calls := by
  induction calls with
  | nil => simp [times, size]
  | cons c tail ih =>
    rw [cells_cons] at inside
    have own : ∀ x, times (c :: tail) x = times tail x + if x ∈ Ico c.1 c.2 then 1 else 0 := by
      intro x
      simp [times, List.countP_cons]
    have first : ∑ x ∈ all, (if x ∈ Ico c.1 c.2 then 1 else 0) = c.2 - c.1 := by
      have among := union_subset_left inside
      rw [sum_ite_mem, inter_eq_right.mpr among, ← card_eq_sum_ones, Nat.card_Ico]
    calc ∑ x ∈ all, times (c :: tail) x
        = ∑ x ∈ all, (times tail x + if x ∈ Ico c.1 c.2 then 1 else 0) := sum_congr rfl fun x _ => own x
      _ = size tail + (c.2 - c.1) := by rw [sum_add_distrib, ih (union_subset_right inside), first]
      _ = size (c :: tail) := by rw [size, size, List.map_cons, List.sum_cons, Nat.add_comm]

theorem card_add_repeats (calls : List (Nat × Nat)) : (cells calls).card + repeats calls = size calls := by
  calc (cells calls).card + repeats calls
      = ∑ x ∈ cells calls, (1 + (times calls x - 1)) := by
        rw [sum_add_distrib, ← card_eq_sum_ones, repeats]
    _ = ∑ x ∈ cells calls, times calls x := sum_congr rfl fun x member => by
        have positive := times_pos_iff.mpr member
        omega
    _ = size calls := sum_times (Subset.refl _)

theorem recorded_spec (contentRoot : ByteArr 32) {calls : List (Nat × Nat)} (fits : ∀ c ∈ calls, c.2 < 2 ^ 64) :
    Exact (recorded contentRoot calls) ∧ cells (recorded contentRoot calls).ranges = cells calls ∧
      (recorded contentRoot calls).bytes = size calls % 2 ^ 64 := by
  induction calls using List.reverseRecOn with
  | nil => exact ⟨exact_new contentRoot, rfl, rfl⟩
  | append_singleton calls c ih =>
    obtain ⟨exact, covered, bytes⟩ := ih fun d member => fits d (List.mem_append_left _ member)
    have last : recorded contentRoot (calls ++ [c]) = (recorded contentRoot calls).recordRange c.1 c.2 := by
      rw [recorded, List.foldl_append]
      rfl
    have sum : size (calls ++ [c]) = size calls + (c.2 - c.1) := by
      simp [size]
    rw [last]
    refine ⟨exact_recordRange exact (fits c (by simp)), ?_, ?_⟩
    · rw [cells_recordRange exact, covered, cells_append, cells_cons, cells_nil, union_empty]
    · unfold recordRange
      split_ifs with empty
      · rw [bytes, sum, Nat.sub_eq_zero_of_le empty, Nat.add_zero]
      · change wadd (recorded contentRoot calls).bytes (c.2 - c.1) = _
        rw [bytes, sum, wadd, Nat.mod_add_mod]

/-- After any ranges: they are merged in order, coverage is the number of distinct bytes recorded in a window, and the
byte counter is the number of all distinct bytes exactly when those recorded again do not show in a 64-bit count. -/
theorem bytes_exact_iff_unrepeated (contentRoot : ByteArr 32) (calls : List (Nat × Nat))
    (fits : ∀ c ∈ calls, c.2 < 2 ^ 64) :
    Normal (recorded contentRoot calls).ranges ∧
      (∀ start stop, (recorded contentRoot calls).coverage start stop =
        (cells calls ∩ Ico start stop).card) ∧
      ((recorded contentRoot calls).bytes = (cells calls).card ↔ repeats calls % 2 ^ 64 = 0) := by
  obtain ⟨exact, covered, bytes⟩ := recorded_spec contentRoot fits
  refine ⟨exact.normal, fun start stop => ?_, ?_⟩
  · rw [coverage_eq exact, covered]
  · have few := card_le_card exact.bounded
    rw [covered, card_range] at few
    have sum := card_add_repeats calls
    rw [bytes]
    omega

/-- Two ranges apart, and two that share a byte. -/
theorem bytes_exact_iff_unrepeated_pairs :
    (recorded (ByteArr.replicate 32 9) [(0, 2), (4, 7)]).bytes = (cells [(0, 2), (4, 7)]).card ∧
      (recorded (ByteArr.replicate 32 9) [(0, 2), (1, 3)]).bytes ≠ (cells [(0, 2), (1, 3)]).card := by
  have apart := bytes_exact_iff_unrepeated (ByteArr.replicate 32 9) [(0, 2), (4, 7)] (by decide)
  have shared := bytes_exact_iff_unrepeated (ByteArr.replicate 32 9) [(0, 2), (1, 3)] (by decide)
  refine ⟨apart.2.2.mpr (by decide), fun same => ?_⟩
  exact absurd (shared.2.2.mp same) (by decide)

/-- A byte recorded twice is counted twice. -/
theorem repeated_byte_counted_twice :
    ¬ ∀ (contentRoot : ByteArr 32) (calls : List (Nat × Nat)), (∀ c ∈ calls, c.2 < 2 ^ 64) →
      (recorded contentRoot calls).bytes = (cells calls).card := by
  intro exact
  have same := exact (ByteArr.replicate 32 9) [(0, 2), (1, 3)] (by decide)
  revert same
  decide

end ReceiptBook
end TypeBit.Receipts
