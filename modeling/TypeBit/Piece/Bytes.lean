import TypeBit.Basic
import TypeBit.Lib.Ranges

/-! Exact received-byte accounting for one assembling piece (`PieceBytes` of `piece.rs`): the
sorted byte windows received so far and their total. -/

namespace TypeBit
open Ranges Finset

structure PieceBytes where
  /-- Sorted, non-overlapping received ranges `[start, end)`. -/
  ranges : List (Nat × Nat)
  /-- Total distinct bytes received. -/
  total : Nat
  deriving DecidableEq, Repr

namespace PieceBytes

def new : PieceBytes := ⟨[], 0⟩

/-- Add the window `[start, stop)`; the second component is the number of bytes that were missing. -/
def add (pb : PieceBytes) (start stop : Nat) : PieceBytes × Nat :=
  if stop ≤ start then (pb, 0)
  else
    let newBytes := uncovered start stop pb.ranges (stop - start)
    if newBytes = 0 then (pb, 0)
    else (⟨Ranges.add pb.ranges start stop, satAdd pb.total newBytes⟩, newBytes)

def coversIn (start stop : Nat) : List (Nat × Nat) → Bool
  | [] => false
  | r :: tail =>
      if r.1 ≤ start ∧ r.2 ≥ stop then true
      else if r.1 > start then false
      else coversIn start stop tail

def covers (pb : PieceBytes) (start stop : Nat) : Bool := coversIn start stop pb.ranges

def newRanges (pb : PieceBytes) (start stop : Nat) : List (Nat × Nat) := gaps stop pb.ranges start

theorem coversIn_of_cells {ranges : List (Nat × Nat)} (normal : Normal ranges) {start stop : Nat} (filled : start < stop)
    (covered : Ico start stop ⊆ cells ranges) : coversIn start stop ranges = true := by
  induction ranges with
  | nil =>
    have first := covered (mem_Ico.mpr ⟨le_refl start, filled⟩)
    rw [cells_nil] at first
    exact absurd first (notMem_empty start)
  | cons r tail ih =>
    have first := covered (mem_Ico.mpr ⟨le_refl start, filled⟩)
    have low := normal.le_of_mem first
    rw [coversIn]
    split_ifs with inside past
    · rfl
    · omega
    · -- the end of the range is not covered, so the window begins past it
      have late : r.2 ≤ start := by
        by_contra early
        have here := covered (mem_Ico.mpr ⟨by omega, by omega⟩ : r.2 ∈ Ico start stop)
        rw [cells_cons, mem_union, mem_Ico] at here
        rcases here with own | later
        · omega
        · exact absurd (normal.lt_of_mem_tail later) (Nat.lt_irrefl _)
      refine ih normal.tail fun x member => ?_
      have among := covered member
      rw [cells_cons, mem_union, mem_Ico] at among
      have bounds := mem_Ico.mp member
      exact among.resolve_left (by omega)

/-- The tracker says exactly which bytes it has; offsets are 32-bit. -/
structure Exact (pb : PieceBytes) : Prop where
  normal : Normal pb.ranges
  total : pb.total = (cells pb.ranges).card
  bounded : cells pb.ranges ⊆ range (2 ^ 32)

theorem exact_new : Exact new := ⟨⟨by simp [new], by simp [new]⟩, rfl, by simp [new]⟩

section Add
variable {pb : PieceBytes}

theorem uncovered_card (exact : Exact pb) (start stop : Nat) :
    uncovered start stop pb.ranges (stop - start) = (Ico start stop \ cells pb.ranges).card := by
  have split := card_sdiff_add_card_inter (Ico start stop) (cells pb.ranges)
  rw [Nat.card_Ico, inter_comm] at split
  rw [uncovered_eq exact.normal]
  omega

theorem add_count (exact : Exact pb) (start stop : Nat) :
    (pb.add start stop).2 = (Ico start stop \ cells pb.ranges).card := by
  unfold add
  split_ifs with empty
  · rw [Ico_eq_empty (by omega), empty_sdiff, card_empty]
  · simp only [uncovered_card exact]
    split_ifs with duplicate
    · exact duplicate.symm
    · rfl

theorem add_cells (exact : Exact pb) (start stop : Nat) :
    cells (pb.add start stop).1.ranges = cells pb.ranges ∪ Ico start stop := by
  unfold add
  split_ifs with empty
  · rw [Ico_eq_empty (by omega), union_empty]
  · simp only [uncovered_card exact]
    split_ifs with duplicate
    · rw [card_eq_zero, sdiff_eq_empty_iff_subset] at duplicate
      rw [union_eq_left.mpr duplicate]
    · exact (add_spec exact.normal (Nat.lt_of_not_le empty)).2

theorem add_exact (exact : Exact pb) {start stop : Nat} (small : stop ≤ 2 ^ 32) : Exact (pb.add start stop).1 := by
  have covered := add_cells exact start stop
  have within : cells pb.ranges ∪ Ico start stop ⊆ range (2 ^ 32) := by
    refine union_subset exact.bounded ?_
    intro x member
    have below := (mem_Ico.mp member).2
    exact mem_range.mpr (by omega)
  refine ⟨?_, ?_, covered ▸ within⟩
  · unfold add
    split_ifs with empty
    · exact exact.normal
    · simp only
      split_ifs
      · exact exact.normal
      · exact (add_spec exact.normal (Nat.lt_of_not_le empty)).1
  · -- the saturating sum never saturates: both parts lie below `2 ^ 32`
    have sizes : (cells pb.ranges ∪ Ico start stop).card =
        (cells pb.ranges).card + (Ico start stop \ cells pb.ranges).card := by
      rw [← union_sdiff_self_eq_union, card_union_of_disjoint disjoint_sdiff]
    have bound := card_le_card within
    rw [card_range] at bound
    have count := uncovered_card exact start stop
    unfold add at covered ⊢
    split_ifs at covered ⊢ with empty
    · exact exact.total
    · simp only [count] at covered ⊢
      split_ifs at covered ⊢ with duplicate
      · exact exact.total
      · show satAdd pb.total _ = (cells (Ranges.add pb.ranges start stop)).card
        rw [covered, sizes, satAdd, exact.total, min_eq_left (by omega)]

end Add

theorem Exact.full {pb : PieceBytes} (exact : Exact pb) {len : Nat} (inside : cells pb.ranges ⊆ range len)
    (enough : len ≤ pb.total) : cells pb.ranges = range len := by
  apply eq_of_subset_of_card_le inside
  rw [card_range, ← exact.total]
  exact enough

end PieceBytes
end TypeBit
