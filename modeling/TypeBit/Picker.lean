import Mathlib.Data.Int.ConditionallyCompleteOrder
import Mathlib.Order.ConditionallyCompleteLattice.Basic
import TypeBit.Piece.Tracker

/-! The stateless piece and block picker (`picker.rs`). Both scan loops keep the best eligible piece
seen so far; what a pick can return depends only on which pieces are eligible. -/

namespace TypeBit.Picker

structure PickOptions where
  /-- Allow pieces that are already in flight. -/
  endgame : Bool
  /-- Head first, then strict file order, the tail last. -/
  sequential : Bool
  deriving DecidableEq, Repr

def satI64 (x : Int) : Int := max (-2 ^ 63) (min x (2 ^ 63 - 1))

/-- The guards both loops apply: not verified, not in flight outside endgame, owned by the peer, wanted. -/
def eligible (tracker : PieceTracker) (peerHave : Bitfield) (peerHasAll : Bool) (priorities : List Int)
    (opts : PickOptions) (p : Nat) : Bool :=
  !tracker.isHave p && (opts.endgame || !tracker.isInFlight p) && (peerHasAll || peerHave.get p) &&
    decide (0 < priorities.getD p 1)

def band (task : Int) : Nat := if task ≥ 2500 then 0 else if task = 2000 then 2 else 1

def sequentialStep (utilities : List Int) (best : Option (Nat × Nat)) (p : Nat) : Option (Nat × Nat) :=
  let band := band (utilities.getD p 0)
  match best with
  | some (b, i) => if b > band ∨ (b = band ∧ i > p) then some (band, p) else best
  | none => some (band, p)

def rarestStep (utilities : List Int) (availability : List Nat) (priorities : List Int)
    (best : Option (Int × Int × Nat)) (p : Nat) : Option (Int × Int × Nat) :=
  let rarity : Int := availability.foldl max 0 - availability.getD p 0
  let score := satI64 (satI64 (satI64 (utilities.getD p 0 * priorities.getD p 1) * 1024) + rarity)
  match best with
  | some (bs, br, _) => if score > bs ∨ (score = bs ∧ rarity > br) then some (score, rarity, p) else best
  | none => some (score, rarity, p)

def pickPiece (tracker : PieceTracker) (utilities : List Int) (availability : List Nat) (peerHave : Bitfield)
    (peerHasAll : Bool) (priorities : List Int) (opts : PickOptions) : Option Nat :=
  let candidates := (List.range tracker.pieceCount).filter (eligible tracker peerHave peerHasAll priorities opts)
  if opts.sequential then (candidates.foldl (sequentialStep utilities) none).map Prod.snd
  else (candidates.foldl (rarestStep utilities availability priorities) none).map (fun best => best.2.2)

/-- Pick the next block of a piece that is neither received nor requested; the scan position is 16-bit. -/
def pickBlock (tracker : PieceTracker) (piece totalBlocks : Nat) (preferContiguous : Bool) : Option Nat :=
  if tracker.isHave piece then none
  else
    let start := if preferContiguous then 0 else piece % 97 % max totalBlocks 1
    ((List.range totalBlocks).map (fun i => (start + i) % 2 ^ 16 % totalBlocks)).find?
      (fun b => !tracker.blockReceived piece b && !tracker.blockRequested piece b)

/-! ### What a pick can return -/

theorem foldl_best {α : Type} (piece : α → Nat) (step : Option α → Nat → Option α)
    (fresh : ∀ p, ∃ a, step none p = some a ∧ piece a = p)
    (kept : ∀ a p, step (some a) p = some a ∨ ∃ b, step (some a) p = some b ∧ piece b = p) (l : List Nat) :
    (l = [] ∧ (l.foldl step none).map piece = none) ∨ ∃ p ∈ l, (l.foldl step none).map piece = some p := by
  have from_some : ∀ (l : List Nat) (a : α),
      (l.foldl step (some a)).map piece = some (piece a) ∨ ∃ p ∈ l, (l.foldl step (some a)).map piece = some p := by
    intro l
    induction l with
    | nil => exact fun a => Or.inl rfl
    | cons p tail ih =>
      intro a
      rw [List.foldl_cons]
      rcases kept a p with same | ⟨b, taken, rfl⟩
      · rw [same]
        rcases ih a with old | ⟨q, member, new⟩
        · exact Or.inl old
        · exact Or.inr ⟨q, List.mem_cons_of_mem _ member, new⟩
      · rw [taken]
        rcases ih b with old | ⟨q, member, new⟩
        · exact Or.inr ⟨piece b, by simp, old⟩
        · exact Or.inr ⟨q, List.mem_cons_of_mem _ member, new⟩
  cases l with
  | nil => exact Or.inl ⟨rfl, rfl⟩
  | cons p tail =>
    obtain ⟨a, taken, rfl⟩ := fresh p
    rw [List.foldl_cons, taken]
    rcases from_some tail a with old | ⟨q, member, new⟩
    · exact Or.inr ⟨piece a, by simp, old⟩
    · exact Or.inr ⟨q, List.mem_cons_of_mem _ member, new⟩

theorem sequential_best (utilities : List Int) (l : List Nat) :
    (l = [] ∧ (l.foldl (sequentialStep utilities) none).map Prod.snd = none) ∨
      ∃ p ∈ l, (l.foldl (sequentialStep utilities) none).map Prod.snd = some p := by
  apply foldl_best
  · exact fun p => ⟨_, rfl, rfl⟩
  · rintro ⟨b, i⟩ p
    simp only [sequentialStep]
    split_ifs
    · exact Or.inr ⟨_, rfl, rfl⟩
    · exact Or.inl rfl

theorem rarest_best (utilities : List Int) (availability : List Nat) (priorities : List Int) (l : List Nat) :
    (l = [] ∧ (l.foldl (rarestStep utilities availability priorities) none).map (fun best => best.2.2) = none) ∨
      ∃ p ∈ l, (l.foldl (rarestStep utilities availability priorities) none).map (fun best => best.2.2) = some p := by
  apply foldl_best
  · exact fun p => ⟨_, rfl, rfl⟩
  · rintro ⟨bs, br, q⟩ p
    simp only [rarestStep]
    split_ifs
    · exact Or.inr ⟨_, rfl, rfl⟩
    · exact Or.inl rfl

section Pick
variable (tracker : PieceTracker) (utilities : List Int) (availability : List Nat) (peerHave : Bitfield)
  (peerHasAll : Bool) (priorities : List Int) (opts : PickOptions)

theorem pickPiece_cases :
    ((∀ p < tracker.pieceCount, eligible tracker peerHave peerHasAll priorities opts p = false) ∧
        pickPiece tracker utilities availability peerHave peerHasAll priorities opts = none) ∨
      ∃ p < tracker.pieceCount, eligible tracker peerHave peerHasAll priorities opts p = true ∧
        pickPiece tracker utilities availability peerHave peerHasAll priorities opts = some p := by
  have settle : ∀ {picked : Option Nat} {l : List Nat},
      l = (List.range tracker.pieceCount).filter (eligible tracker peerHave peerHasAll priorities opts) →
      ((l = [] ∧ picked = none) ∨ ∃ p ∈ l, picked = some p) →
      ((∀ p < tracker.pieceCount, eligible tracker peerHave peerHasAll priorities opts p = false) ∧ picked = none) ∨
        ∃ p < tracker.pieceCount, eligible tracker peerHave peerHasAll priorities opts p = true ∧ picked = some p := by
    rintro picked l rfl (⟨empty, nothing⟩ | ⟨p, member, taken⟩)
    · refine Or.inl ⟨fun p below => ?_, nothing⟩
      have unwanted := List.filter_eq_nil_iff.mp empty p (List.mem_range.mpr below)
      simpa using unwanted
    · obtain ⟨below, wanted⟩ := List.mem_filter.mp member
      exact Or.inr ⟨p, List.mem_range.mp below, wanted, taken⟩
  unfold pickPiece
  dsimp only
  split_ifs
  · exact settle rfl (sequential_best _ _)
  · exact settle rfl (rarest_best _ _ _ _)

variable {tracker utilities availability peerHave peerHasAll priorities opts}

theorem pickPiece_eq_some {p : Nat}
    (picked : pickPiece tracker utilities availability peerHave peerHasAll priorities opts = some p) :
    p < tracker.pieceCount ∧ eligible tracker peerHave peerHasAll priorities opts p = true := by
  rcases pickPiece_cases tracker utilities availability peerHave peerHasAll priorities opts with
    ⟨_, nothing⟩ | ⟨q, below, wanted, taken⟩
  · rw [nothing] at picked
    cases picked
  · rw [taken] at picked
    cases picked
    exact ⟨below, wanted⟩

theorem pickPiece_unique {i : Nat} (below : i < tracker.pieceCount)
    (wanted : eligible tracker peerHave peerHasAll priorities opts i = true)
    (only : ∀ p, eligible tracker peerHave peerHasAll priorities opts p = true → p = i) :
    pickPiece tracker utilities availability peerHave peerHasAll priorities opts = some i := by
  rcases pickPiece_cases tracker utilities availability peerHave peerHasAll priorities opts with
    ⟨unwanted, _⟩ | ⟨q, _, eligible_q, taken⟩
  · rw [unwanted i below] at wanted
    cases wanted
  · rw [taken, only q eligible_q]

theorem pickBlock_fresh {piece totalBlocks : Nat} (lacking : tracker.isHave piece = false)
    (fresh : tracker.Fresh piece) (some_block : 0 < totalBlocks) (contiguous : Bool) :
    ∃ b, pickBlock tracker piece totalBlocks contiguous = some b := by
  unfold pickBlock
  rw [if_neg (by simp [lacking])]
  apply Option.isSome_iff_exists.mp
  rw [List.find?_isSome]
  refine ⟨_, List.mem_map.mpr ⟨0, List.mem_range.mpr some_block, rfl⟩, ?_⟩
  simp [fresh.received, fresh.requested]

theorem pickBlock_eq_some {piece totalBlocks block : Nat} {contiguous : Bool}
    (picked : pickBlock tracker piece totalBlocks contiguous = some block) :
    tracker.isHave piece = false ∧ block < totalBlocks ∧ tracker.blockRequested piece block = false := by
  unfold pickBlock at picked
  by_cases held : tracker.isHave piece = true
  · rw [if_pos held] at picked
    cases picked
  rw [if_neg held] at picked
  dsimp only at picked
  have free := List.find?_some picked
  obtain ⟨i, scanned, rfl⟩ := List.mem_map.mp (List.mem_of_find?_eq_some picked)
  simp only [Bool.and_eq_true, Bool.not_eq_true'] at free
  have some_block : 0 < totalBlocks := Nat.lt_of_le_of_lt (Nat.zero_le i) (List.mem_range.mp scanned)
  exact ⟨by simpa using held, Nat.mod_lt _ some_block, free.2⟩

theorem pickBlock_unreceived {piece totalBlocks block : Nat} {contiguous : Bool}
    (picked : pickBlock tracker piece totalBlocks contiguous = some block) :
    tracker.blockReceived piece block = false := by
  unfold pickBlock at picked
  split at picked
  · cases picked
  · have free := List.find?_some picked
    simp only [Bool.and_eq_true, Bool.not_eq_true'] at free
    exact free.1

end Pick
end TypeBit.Picker
