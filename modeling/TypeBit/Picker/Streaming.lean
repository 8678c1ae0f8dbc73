import TypeBit.Picker.Order
import TypeBit.Scheduler

/-! Streaming order. The scheduler assigns the head, body and tail of a film by task utility; the sequential scan reads
its bands from the combined utility, in which rarity, distance and risk have their share. -/

namespace TypeBit
open Metainfo Picker
set_option maxRecDepth 20000

namespace Scheduler

/-! ### Reachable schedulers -/

inductive Update where
  | availability (counts : List Nat)
  | frontier (piece : Int)
  | suspicious (piece : Nat)

def Update.apply (s : Scheduler) : Update → Scheduler
  | .availability counts => s.updateAvailability counts
  | .frontier piece => s.setFrontier piece
  | .suspicious piece => s.markSuspicious piece

/-- Built for the torrent, with a detected or a forced goal, and updated any number of times. -/
def Reached (t : Torrent) (cfg : SchedulerConfig) (s : Scheduler) : Prop :=
  ∃ start, (start = new t cfg ∨ ∃ goal, start = withGoal t goal cfg) ∧
    ∃ updates : List Update, s = updates.foldl Update.apply start

structure Planned (t : Torrent) (s : Scheduler) : Prop where
  count : s.pieceCount = t.pieceCount
  length : s.task.length = t.pieceCount
  assigned : ∀ p < t.pieceCount, s.task.getD p 0 = taskOf s.goal t.pieceCount (edgePieces s.cfg t) p

section Planned
variable {t : Torrent} {s : Scheduler}

theorem planned_computeTask (count : s.pieceCount = t.pieceCount) (length : s.task.length = t.pieceCount) :
    (s.computeTask t).Planned t := by
  unfold computeTask
  split_ifs with none
  · exact ⟨count, length, fun p below => by omega⟩
  · rw [length]
    refine ⟨count, ?_, fun p below => ?_⟩
    · rw [List.length_map, List.length_range]
    · dsimp only
      rw [List.getD_eq_getElem _ _ (by rw [List.length_map, List.length_range]; exact below), List.getElem_map,
        List.getElem_range]

theorem Planned.recompute (planned : s.Planned t) : s.recompute.Planned t :=
  ⟨planned.count, planned.length, planned.assigned⟩

theorem planned_build (t : Torrent) (goal : ContentGoal) (cfg : SchedulerConfig) : (build t goal cfg).Planned t :=
  (planned_computeTask rfl List.length_replicate).recompute

theorem planned_withGoal (t : Torrent) (goal : ContentGoal) (cfg : SchedulerConfig) :
    (withGoal t goal cfg).Planned t := by
  have first := planned_build t (detectGoal t) cfg
  exact (planned_computeTask (s := { new t cfg with goal := goal }) first.count first.length).recompute

theorem Planned.apply (planned : s.Planned t) (update : Update) : (Update.apply s update).Planned t := by
  cases update with
  | availability counts => exact ⟨planned.count, planned.length, planned.assigned⟩
  | frontier piece => exact ⟨planned.count, planned.length, planned.assigned⟩
  | suspicious piece =>
    change (s.markSuspicious piece).Planned t
    unfold markSuspicious
    split_ifs
    · exact ⟨planned.count, planned.length, planned.assigned⟩
    · exact planned

theorem Reached.planned {cfg : SchedulerConfig} (reached : Reached t cfg s) : s.Planned t := by
  obtain ⟨start, built, updates, rfl⟩ := reached
  have first : start.Planned t := by
    obtain rfl | ⟨goal, rfl⟩ := built
    · exact planned_build t _ cfg
    · exact planned_withGoal t goal cfg
  exact List.foldlRecOn updates _ first fun s planned update _ => planned.apply update

end Planned

/-! ### Order -/

def taskBand (s : Scheduler) (p : Nat) : Nat := band (s.task.getD p 0)

theorem band_streaming (n edge p : Nat) :
    band (taskOf .streaming n edge p) = if p < edge then 0 else if n - edge ≤ p then 2 else 1 := by
  have tail : n - edge ≤ p ↔ p ≥ n - edge := Iff.rfl
  unfold band
  dsimp only [taskOf]
  split_ifs <;> omega

theorem taskBand_mono {t : Torrent} {s : Scheduler} (planned : s.Planned t) (streaming : s.goal = .streaming) {p q : Nat}
    (le : p ≤ q) (below : q < s.pieceCount) : s.taskBand p ≤ s.taskBand q := by
  rw [planned.count] at below
  rw [taskBand, taskBand, planned.assigned p (by omega), planned.assigned q below, streaming, band_streaming,
    band_streaming]
  split_ifs <;> omega

/-- The pick of a streaming session is the eligible piece that is least by the band of its task and its index. -/
def StreamsInOrder (s : Scheduler) : Prop :=
  ∀ (tracker : PieceTracker) (availability : List Nat) (peerHave : Bitfield) (peerHasAll : Bool) (priorities : List Int)
    (endgame : Bool), tracker.pieceCount = s.pieceCount →
    ∀ p, pickPiece tracker s.utility availability peerHave peerHasAll priorities ⟨endgame, true⟩ = some p ↔
      Candidate tracker peerHave peerHasAll priorities ⟨endgame, true⟩ p ∧
        ∀ q, Candidate tracker peerHave peerHasAll priorities ⟨endgame, true⟩ q →
          s.taskBand p < s.taskBand q ∨ (s.taskBand p = s.taskBand q ∧ p ≤ q)

/-- The bands of the combined utilities never fall with the index. -/
def BandsRise (s : Scheduler) : Prop :=
  ∀ p q, p < q → q < s.pieceCount → band (s.utility.getD p 0) ≤ band (s.utility.getD q 0)

theorem candidate_fresh {n : Nat} {priorities : List Int} {endgame : Bool} {p : Nat} :
    Candidate (PieceTracker.new n 0) (Bitfield.new n) true priorities ⟨endgame, true⟩ p ↔
      p < n ∧ 0 < priorities.getD p 1 := by
  have lacking : (PieceTracker.new n 0).isHave p = false := Bitfield.get_new n p
  have idle : (PieceTracker.new n 0).isInFlight p = false := Bitfield.get_new n p
  unfold Candidate eligible
  rw [lacking, idle]
  simp [PieceTracker.new]

def wantTwo (n p q : Nat) : List Int := (List.range n).map (fun i => if i = p ∨ i = q then 1 else 0)

theorem wanted_two {n p q i : Nat} (below : i < n) : 0 < (wantTwo n p q).getD i 1 ↔ i = p ∨ i = q := by
  rw [wantTwo, List.getD_eq_getElem _ _ (by rw [List.length_map, List.length_range]; exact below), List.getElem_map,
    List.getElem_range]
  split_ifs with wanted <;> simp [wanted]

theorem sequentialKey_le {utilities : List Int} {p q : Nat} : sequentialKey utilities p ≤ sequentialKey utilities q ↔
    band (utilities.getD p 0) < band (utilities.getD q 0) ∨
      (band (utilities.getD p 0) = band (utilities.getD q 0) ∧ p ≤ q) := by
  rw [sequentialKey, sequentialKey, Prod.Lex.toLex_le_toLex]

section Order
variable {t : Torrent} {s : Scheduler}

theorem streamsInOrder_of_rise (planned : s.Planned t) (streaming : s.goal = .streaming) (rise : s.BandsRise) :
    s.StreamsInOrder := by
  intro tracker availability peerHave peerHasAll priorities endgame count p
  rw [sequential_pick]
  refine and_congr_right fun wanted => forall_congr' fun q => imp_congr_right fun other => ?_
  have inside := count ▸ wanted.1
  have otherInside := count ▸ other.1
  rw [sequentialKey_le]
  obtain before | rfl | after := Nat.lt_trichotomy p q
  · have utility := rise p q before otherInside
    have task := taskBand_mono planned streaming before.le otherInside
    omega
  · simp
  · have utility := rise q p after inside
    have task := taskBand_mono planned streaming after.le inside
    omega

theorem StreamsInOrder.rise (ordered : s.StreamsInOrder) (planned : s.Planned t) (streaming : s.goal = .streaming) :
    s.BandsRise := by
  intro p q before below
  by_contra falls
  have candidates : ∀ i, Candidate (PieceTracker.new s.pieceCount 0) (Bitfield.new s.pieceCount) true
      (wantTwo s.pieceCount p q) ⟨false, true⟩ i ↔ i = p ∨ i = q := by
    intro i
    rw [candidate_fresh]
    constructor
    · rintro ⟨inside, wanted⟩
      exact (wanted_two inside).mp wanted
    · intro either
      have inside : i < s.pieceCount := by omega
      exact ⟨inside, (wanted_two inside).mpr either⟩
  have picked : pickPiece (PieceTracker.new s.pieceCount 0) s.utility [] (Bitfield.new s.pieceCount) true
      (wantTwo s.pieceCount p q) ⟨false, true⟩ = some q := by
    rw [sequential_pick]
    refine ⟨(candidates q).mpr (.inr rfl), fun i other => ?_⟩
    rw [sequentialKey_le]
    obtain rfl | rfl := (candidates i).mp other
    · exact .inl (by omega)
    · exact .inr ⟨rfl, le_rfl⟩
  have least := ((ordered _ [] _ true _ false rfl q).mp picked).2 p ((candidates p).mpr (.inl rfl))
  have task := taskBand_mono planned streaming before.le below
  omega

end Order

/-- A reachable streaming scheduler streams in order, whatever the tracker, the peer and the priorities, exactly when
the bands of its combined utilities never fall with the index. -/
theorem streaming_order_iff (t : Torrent) (cfg : SchedulerConfig) (s : Scheduler) (reached : Reached t cfg s)
    (streaming : s.goal = .streaming) : s.StreamsInOrder ↔ s.BandsRise :=
  ⟨fun ordered => ordered.rise reached.planned streaming, streamsInOrder_of_rise reached.planned streaming⟩

def film : Torrent where
  name := ascii "a.mp4"
  pieceLength := 16384
  totalSize := 16384000
  files := [⟨[ascii "a.mp4"], 16384000, none⟩]
  kind := .v1
  infoHash := InfoHash.v1 (List.replicate 20 0)
  v1Hashes := some (List.replicate 1000 (List.replicate 20 0))
  v2Hashes := none
  announce := none
  announceList := []
  webSeeds := []
  isPrivate := false
  pieceLayers := []
  infoRaw := []
  comment := none
  createdBy := none
  creationDate := none

theorem film_reached : Reached film .default (new film .default) := ⟨_, .inl rfl, [], rfl⟩

theorem film_streaming : (new film .default).goal = .streaming := by
  decide

theorem streaming_order_film : (new film .default).StreamsInOrder ↔ (new film .default).BandsRise :=
  streaming_order_iff film .default _ film_reached film_streaming

/-- With the default weights its last piece is banded as head and its piece 700 as body. -/
theorem film_tail_before_body : ¬ ∀ (t : Torrent) (cfg : SchedulerConfig) (s : Scheduler), Reached t cfg s →
    s.goal = .streaming → s.StreamsInOrder := by
  intro always
  have rise := (always film .default _ film_reached film_streaming).rise film_reached.planned film_streaming
  have falls := rise 700 999 (by decide) (by decide)
  exact absurd falls (by decide)

end Scheduler
end TypeBit
