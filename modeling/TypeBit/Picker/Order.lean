import Mathlib.Data.List.MinMax
import Mathlib.Data.Prod.Lex
import TypeBit.Picker

/-! What a pick is the best of. The two scans of the picker are first maxima (and least elements) of the eligible
pieces under a lexicographic key. -/

namespace TypeBit.Picker

section Sorted
variable {β : Type*} [LinearOrder β] {l : List Nat} {key : Nat → β}

theorem idxOf_le_iff (sorted : l.Pairwise (· < ·)) {a b : Nat} (first : a ∈ l) (second : b ∈ l) :
    l.idxOf a ≤ l.idxOf b ↔ a ≤ b := by
  have early := List.idxOf_lt_length_iff.mpr first
  have late := List.idxOf_lt_length_iff.mpr second
  have ordered := List.pairwise_iff_getElem.mp sorted
  constructor
  · intro index
    obtain below | same := Nat.lt_or_eq_of_le index
    · have smaller := ordered _ _ early late below
      rw [List.getElem_idxOf, List.getElem_idxOf] at smaller
      exact smaller.le
    · exact ((List.idxOf_inj first).mp same).le
  · intro le
    by_contra after
    have larger := ordered _ _ late early (Nat.lt_of_not_le after)
    rw [List.getElem_idxOf, List.getElem_idxOf] at larger
    omega

theorem argmax_sorted (sorted : l.Pairwise (· < ·)) {p : Nat} :
    l.argmax key = some p ↔ p ∈ l ∧ ∀ q ∈ l, key q < key p ∨ (key q = key p ∧ p ≤ q) := by
  rw [List.argmax_eq_some_iff]
  constructor
  · rintro ⟨member, largest, first⟩
    refine ⟨member, fun q other => ?_⟩
    obtain less | same := (largest q other).lt_or_eq
    · exact .inl less
    · exact .inr ⟨same, (idxOf_le_iff sorted member other).mp (first q other same.ge)⟩
  · rintro ⟨member, best⟩
    refine ⟨member, fun q other => ?_, fun q other tied => ?_⟩
    · obtain less | ⟨same, -⟩ := best q other
      · exact less.le
      · exact same.le
    · obtain less | ⟨-, lower⟩ := best q other
      · exact absurd tied less.not_ge
      · exact (idxOf_le_iff sorted member other).mpr lower

theorem argmin_injective (distinct : Function.Injective key) {p : Nat} :
    l.argmin key = some p ↔ p ∈ l ∧ ∀ q ∈ l, key p ≤ key q := by
  rw [List.argmin_eq_some_iff]
  constructor
  · rintro ⟨member, smallest, -⟩
    exact ⟨member, smallest⟩
  · rintro ⟨member, smallest⟩
    refine ⟨member, smallest, fun q other tied => ?_⟩
    rw [distinct (le_antisymm tied (smallest q other))]

end Sorted

/-! ### The scans -/

def rarityOf (availability : List Nat) (p : Nat) : Int := availability.foldl max 0 - availability.getD p 0

def scoreOf (utilities : List Int) (availability : List Nat) (priorities : List Int) (p : Nat) : Int :=
  satI64 (satI64 (satI64 (utilities.getD p 0 * priorities.getD p 1) * 1024) + rarityOf availability p)

def rarestKey (utilities : List Int) (availability : List Nat) (priorities : List Int) (p : Nat) : Int ×ₗ Int :=
  toLex (scoreOf utilities availability priorities p, rarityOf availability p)

def sequentialKey (utilities : List Int) (p : Nat) : Nat ×ₗ Nat := toLex (band (utilities.getD p 0), p)

theorem sequentialKey_injective (utilities : List Int) : Function.Injective (sequentialKey utilities) := by
  intro p q same
  exact (Prod.mk.inj (toLex.injective same)).2

theorem foldl_stored {α : Type} {store : Nat → α} {step : Option α → Nat → Option α} {better : Nat → Nat → Prop}
    [DecidableRel better] (fresh : ∀ p, step none p = some (store p))
    (scanned : ∀ i p, step (some (store i)) p = if better p i then some (store p) else some (store i)) (l : List Nat) :
    l.foldl step none = (l.foldl (List.argAux better) none).map store := by
  change l.foldl step (Option.map store none) = _
  apply List.foldl_hom
  intro best p
  cases best with
  | none => exact fresh p
  | some i =>
    rw [Option.map_some, scanned]
    simp only [List.argAux]
    split_ifs <;> rfl

theorem sequential_argmin (utilities : List Int) (l : List Nat) :
    (l.foldl (sequentialStep utilities) none).map Prod.snd = l.argmin (sequentialKey utilities) := by
  have scan : l.foldl (sequentialStep utilities) none =
      (l.argmin (sequentialKey utilities)).map (fun p => (band (utilities.getD p 0), p)) := by
    apply foldl_stored
    · exact fun p => rfl
    · intro i p
      have smaller : sequentialKey utilities p < sequentialKey utilities i ↔
          band (utilities.getD i 0) > band (utilities.getD p 0) ∨
            (band (utilities.getD i 0) = band (utilities.getD p 0) ∧ i > p) := by
        rw [sequentialKey, sequentialKey, Prod.Lex.toLex_lt_toLex, eq_comm]
      simp only [sequentialStep, smaller]
  rw [scan, Option.map_map]
  exact Option.map_id'

theorem rarest_argmax (utilities : List Int) (availability : List Nat) (priorities : List Int) (l : List Nat) :
    (l.foldl (rarestStep utilities availability priorities) none).map (fun best => best.2.2) =
      l.argmax (rarestKey utilities availability priorities) := by
  have scan : l.foldl (rarestStep utilities availability priorities) none =
      (l.argmax (rarestKey utilities availability priorities)).map
        (fun p => (scoreOf utilities availability priorities p, rarityOf availability p, p)) := by
    apply foldl_stored
    · exact fun p => rfl
    · intro i p
      have larger : rarestKey utilities availability priorities i < rarestKey utilities availability priorities p ↔
          scoreOf utilities availability priorities p > scoreOf utilities availability priorities i ∨
            (scoreOf utilities availability priorities p = scoreOf utilities availability priorities i ∧
              rarityOf availability p > rarityOf availability i) := by
        rw [rarestKey, rarestKey, Prod.Lex.toLex_lt_toLex, @eq_comm _ (scoreOf _ _ _ i)]
      simp only [larger]
      rfl
  rw [scan, Option.map_map]
  exact Option.map_id'

section Pick
variable (tracker : PieceTracker) (utilities : List Int) (availability : List Nat) (peerHave : Bitfield)
  (peerHasAll : Bool) (priorities : List Int) (endgame : Bool)

/-- A piece that the guards of the scans admit. -/
def Candidate (opts : PickOptions) (p : Nat) : Prop :=
  p < tracker.pieceCount ∧ eligible tracker peerHave peerHasAll priorities opts p = true

theorem mem_candidates {opts : PickOptions} {p : Nat} :
    p ∈ (List.range tracker.pieceCount).filter (eligible tracker peerHave peerHasAll priorities opts) ↔
      Candidate tracker peerHave peerHasAll priorities opts p := by
  rw [List.mem_filter, List.mem_range, Candidate]

theorem pickPiece_eq_none {opts : PickOptions} :
    pickPiece tracker utilities availability peerHave peerHasAll priorities opts = none ↔
      ∀ p, ¬ Candidate tracker peerHave peerHasAll priorities opts p := by
  have settled : pickPiece tracker utilities availability peerHave peerHasAll priorities opts = none ↔
      (List.range tracker.pieceCount).filter (eligible tracker peerHave peerHasAll priorities opts) = [] := by
    unfold pickPiece
    dsimp only
    split_ifs
    · rw [sequential_argmin, List.argmin_eq_none]
    · rw [rarest_argmax, List.argmax_eq_none]
  rw [settled, List.eq_nil_iff_forall_not_mem]
  exact forall_congr' fun p => not_congr (mem_candidates ..)

theorem sequential_pick {p : Nat} :
    pickPiece tracker utilities availability peerHave peerHasAll priorities ⟨endgame, true⟩ = some p ↔
      Candidate tracker peerHave peerHasAll priorities ⟨endgame, true⟩ p ∧
        ∀ q, Candidate tracker peerHave peerHasAll priorities ⟨endgame, true⟩ q →
          sequentialKey utilities p ≤ sequentialKey utilities q := by
  rw [pickPiece, if_pos rfl, sequential_argmin, argmin_injective (sequentialKey_injective utilities)]
  simp only [mem_candidates]

/-- The pick outside sequential mode is the candidate of the greatest score, the rarest of these, and of these the
first. -/
theorem rarest_pick_optimal :
    (pickPiece tracker utilities availability peerHave peerHasAll priorities ⟨endgame, false⟩ = none ↔
      ∀ p, ¬ Candidate tracker peerHave peerHasAll priorities ⟨endgame, false⟩ p) ∧
    ∀ p, pickPiece tracker utilities availability peerHave peerHasAll priorities ⟨endgame, false⟩ = some p ↔
      Candidate tracker peerHave peerHasAll priorities ⟨endgame, false⟩ p ∧
        ∀ q, Candidate tracker peerHave peerHasAll priorities ⟨endgame, false⟩ q →
          scoreOf utilities availability priorities q < scoreOf utilities availability priorities p ∨
            (scoreOf utilities availability priorities q = scoreOf utilities availability priorities p ∧
              (rarityOf availability q < rarityOf availability p ∨
                (rarityOf availability q = rarityOf availability p ∧ p ≤ q))) := by
  refine ⟨pickPiece_eq_none .., fun p => ?_⟩
  have increasing : ((List.range tracker.pieceCount).filter
      (eligible tracker peerHave peerHasAll priorities ⟨endgame, false⟩)).Pairwise (· < ·) :=
    List.pairwise_lt_range.filter _
  rw [pickPiece, if_neg Bool.false_ne_true, rarest_argmax, argmax_sorted increasing]
  simp only [mem_candidates]
  refine and_congr_right fun _ => forall_congr' fun q => imp_congr_right fun _ => ?_
  rw [rarestKey, rarestKey, Prod.Lex.toLex_lt_toLex, toLex.injective.eq_iff, Prod.mk.injEq]
  constructor
  · rintro ((less | ⟨same, less⟩) | ⟨⟨same, tied⟩, lower⟩)
    · exact .inl less
    · exact .inr ⟨same, .inl less⟩
    · exact .inr ⟨same, .inr ⟨tied, lower⟩⟩
  · rintro (less | ⟨same, less | ⟨tied, lower⟩⟩)
    · exact .inl (.inl less)
    · exact .inl (.inr ⟨same, less⟩)
    · exact .inr ⟨⟨same, tied⟩, lower⟩

end Pick
end TypeBit.Picker
