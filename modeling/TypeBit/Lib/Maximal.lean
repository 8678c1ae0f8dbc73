import TypeBit.Lib.Ranges

/-! The maximal windows of a set of naturals. A normal list of windows lists those of its cells, and the gaps of a window
are a normal list. -/

namespace Ranges
open Finset

/-- A nonempty window inside the set that cannot be extended on either side. -/
structure Maximal (s : Finset ℕ) (r : ℕ × ℕ) : Prop where
  filled : r.1 < r.2
  inside : Ico r.1 r.2 ⊆ s
  left : ∀ x, x + 1 = r.1 → x ∉ s
  right : r.2 ∉ s

theorem Normal.apart {l : List (ℕ × ℕ)} (normal : Normal l) {r q : ℕ × ℕ} (first : r ∈ l) (second : q ∈ l) :
    r = q ∨ r.2 < q.1 ∨ q.2 < r.1 := by
  induction l with
  | nil => simp at first
  | cons p tail ih =>
    have later := (List.pairwise_cons.mp normal.2).1
    rcases List.mem_cons.mp first with rfl | inTail
    · rcases List.mem_cons.mp second with rfl | other
      · exact .inl rfl
      · exact .inr (.inl (later q other))
    · rcases List.mem_cons.mp second with rfl | other
      · exact .inr (.inr (later r inTail))
      · exact ih normal.tail inTail other

theorem Normal.maximal {l : List (ℕ × ℕ)} (normal : Normal l) {r : ℕ × ℕ} (member : r ∈ l) : Maximal (cells l) r := by
  have filled := normal.1 r member
  constructor
  · exact filled
  · intro x inside
    have bounds := mem_Ico.mp inside
    exact mem_cells.mpr ⟨r, member, bounds.1, bounds.2⟩
  · intro x before covered
    obtain ⟨q, other, start, stop⟩ := mem_cells.mp covered
    rcases normal.apart member other with rfl | apart
    · omega
    · have filledOther := normal.1 q other
      omega
  · intro covered
    obtain ⟨q, other, start, stop⟩ := mem_cells.mp covered
    rcases normal.apart member other with rfl | apart
    · omega
    · omega

theorem Normal.mem_iff_maximal {l : List (ℕ × ℕ)} (normal : Normal l) (r : ℕ × ℕ) : r ∈ l ↔ Maximal (cells l) r := by
  constructor
  · exact normal.maximal
  · intro maximal
    have filled := maximal.filled
    have first := maximal.inside (mem_Ico.mpr ⟨le_refl _, filled⟩)
    obtain ⟨q, member, start, stop⟩ := mem_cells.mp first
    have own := normal.maximal member
    have sameStart : q.1 = r.1 := by
      by_contra different
      apply maximal.left (r.1 - 1) (by omega)
      exact own.inside (mem_Ico.mpr ⟨by omega, by omega⟩)
    have sameStop : q.2 = r.2 := by
      rcases Nat.lt_trichotomy q.2 r.2 with short | same | long
      · exact absurd (maximal.inside (mem_Ico.mpr ⟨by omega, short⟩)) own.right
      · exact same
      · exact absurd (own.inside (mem_Ico.mpr ⟨by omega, long⟩)) maximal.right
    have same : q = r := Prod.ext sameStart sameStop
    exact same ▸ member

theorem normal_gaps {l : List (ℕ × ℕ)} (normal : Normal l) (e cur : ℕ) : Normal (gaps e l cur) := by
  constructor
  · intro r member
    exact (mem_gaps member).2.1
  · induction l generalizing cur with
    | nil =>
      rw [gaps, rest]
      split_ifs <;> simp
    | cons r tail ih =>
      have filled := normal.1 r (by simp)
      rw [gaps]
      split_ifs with before after open_ full full
      · exact ih normal.tail cur
      · rw [rest]
        split_ifs <;> simp
      · simp
      · rw [List.singleton_append, List.pairwise_cons]
        constructor
        · intro g later
          have start := (mem_gaps later).1
          simp only
          omega
        · exact ih normal.tail _
      · simp
      · exact ih normal.tail _

end Ranges
