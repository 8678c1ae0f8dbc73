import TypeBit.Lib.Maximal
import TypeBit.Piece.Bytes

/-! The tracker of one assembling piece as a set of intervals, after any sequence of windows. -/

namespace TypeBit.PieceBytes
open Ranges Finset

def addAll (windows : List (Nat × Nat)) : PieceBytes := windows.foldl (fun pb w => (pb.add w.1 w.2).1) new

theorem exact_addAll {windows : List (Nat × Nat)} (u32 : ∀ w ∈ windows, w.1 < 2 ^ 32 ∧ w.2 < 2 ^ 32) :
    Exact (addAll windows) ∧ cells (addAll windows).ranges = cells windows := by
  induction windows using List.reverseRecOn with
  | nil => exact ⟨exact_new, rfl⟩
  | append_singleton windows w ih =>
    obtain ⟨exact, covered⟩ := ih (fun v member => u32 v (List.mem_append_left _ member))
    have bounds := u32 w (by simp)
    rw [addAll, List.foldl_append]
    constructor
    · exact add_exact exact bounds.2.le
    · rw [cells_append, ← covered, cells_cons, cells_nil, union_empty]
      exact add_cells exact w.1 w.2

theorem covers_iff {pb : PieceBytes} (exact : Exact pb) {start stop : Nat} (filled : start < stop) :
    pb.covers start stop = true ↔ Ico start stop ⊆ cells pb.ranges := by
  constructor
  · intro covered x inside
    have bounds := mem_Ico.mp inside
    have within : ∀ ranges : List (Nat × Nat), coversIn start stop ranges = true → x ∈ cells ranges := by
      intro ranges found
      induction ranges with
      | nil => simp [coversIn] at found
      | cons r tail ih =>
        rw [coversIn] at found
        rw [cells_cons, mem_union]
        split_ifs at found with whole
        · exact .inl (mem_Ico.mpr ⟨by omega, by omega⟩)
        · exact .inr (ih found)
    exact within pb.ranges covered
  · exact coversIn_of_cells exact.normal filled

/-- What a tracker says about the set of bytes it has. -/
structure Describes (pb : PieceBytes) (bytes : Finset ℕ) : Prop where
  normal : Normal pb.ranges
  union : cells pb.ranges = bytes
  total : pb.total = bytes.card
  added : ∀ start stop, (pb.add start stop).2 = (Ico start stop \ bytes).card
  covers : ∀ start stop, start < stop → (pb.covers start stop = true ↔ Ico start stop ⊆ bytes)
  ordered : ∀ start stop, Normal (pb.newRanges start stop)
  missing : ∀ start stop r, r ∈ pb.newRanges start stop ↔ Maximal (Ico start stop \ bytes) r

/-- After any windows the tracker describes their union. -/
theorem describes_addAll (windows : List (Nat × Nat)) (u32 : ∀ w ∈ windows, w.1 < 2 ^ 32 ∧ w.2 < 2 ^ 32) :
    Describes (addAll windows) (cells windows) := by
  obtain ⟨exact, covered⟩ := exact_addAll u32
  rw [← covered]
  constructor
  · exact exact.normal
  · rfl
  · exact exact.total
  · exact add_count exact
  · intro start stop filled
    exact covers_iff exact filled
  · intro start stop
    exact normal_gaps exact.normal stop start
  · intro start stop r
    rw [newRanges, (normal_gaps exact.normal stop start).mem_iff_maximal, cells_gaps exact.normal]

/-- Two windows that overlap and one that only touches them. -/
theorem describes_addAll_touching :
    Describes (addAll [(4, 8), (6, 10), (2, 4)]) (cells [(4, 8), (6, 10), (2, 4)]) ∧
      addAll [(4, 8), (6, 10), (2, 4)] = ⟨[(2, 10)], 8⟩ ∧
      (addAll [(4, 8), (6, 10), (2, 4)]).newRanges 0 12 = [(0, 2), (10, 12)] :=
  ⟨describes_addAll _ (by decide), by decide, by decide +kernel⟩

end TypeBit.PieceBytes
