import TypeBit.Session.Redownload
import TypeBit.Session.Standing

/-! When a session announces that its download is complete. Only a good verdict does, whenever enough
pieces are held after it, and so it does again for a piece that a seeding session verifies once more. -/

namespace TypeBit.Session
open Metainfo Leech Wire

section Announce
variable {H : Type}

def Silent (w v : World H) : Prop := ∃ more, v.trace = w.trace ++ more ∧ ∀ e ∈ more, e.completing = false

/-- Something that was recorded since does. -/
def Announces (w v : World H) : Prop := ∃ e ∈ v.trace.drop w.trace.length, e.completing = true

/-- A good verdict on a piece under verification, whose bytes can be written and after which as many
pieces are held as are selected. -/
def Completes (host : Host H) (e : Event H) (w : World H) : Prop :=
  ∃ piece data, e = .verified piece true data ∧ w.sess.verifying.contains piece = true ∧ Written host piece data w ∧
    w.sess.selectedPieceCount ≤ (w.sess.pieces.haveBits.set piece).count

theorem silent_of_same {w v : World H} (traced : v.trace = w.trace) : Silent w v := ⟨[], by simp [traced], by simp⟩

theorem Silent.trans {w v u : World H} (first : Silent w v) (second : Silent v u) : Silent w u := by
  obtain ⟨early, traced, quiet⟩ := first
  obtain ⟨late, traced', quiet'⟩ := second
  refine ⟨early ++ late, by rw [traced', traced, List.append_assoc], ?_⟩
  intro e member
  rcases List.mem_append.mp member with before | after
  · exact quiet e before
  · exact quiet' e after

theorem silent_emit (w : World H) {e : Effect} (quiet : e.completing = false) : Silent w (w.emit e) :=
  ⟨[e], rfl, by simpa using quiet⟩

theorem Silent.not_announces {w v : World H} (silent : Silent w v) : ¬ Announces w v := by
  rintro ⟨e, member, completing⟩
  obtain ⟨more, traced, quiet⟩ := silent
  rw [traced, List.drop_left] at member
  rw [quiet e member] at completing
  cases completing

theorem silent_move {w v : World H} (move : Move w v) : Silent w v := by
  cases move.turn with
  | steady same => exact same.trace
  | install env t absent => exact silent_of_same rfl
  | refetch fetching standing traced => exact silent_of_same traced
  | fail standing traced => exact silent_of_same traced

theorem silent_moves {w v : World H} (moves : Moves w v) : Silent w v :=
  moves.invariant (P := Silent w) (fun move silent => silent.trans (silent_move move)) (silent_of_same rfl)

theorem trace_writeAbs (host : Host H) (abs : Nat) (data : Bytes) (w : World H) :
    (writeAbs host abs data w).2.trace = w.trace := by
  unfold writeAbs
  split
  · rfl
  · split
    · rfl
    · split <;> rfl

theorem written_judged (host : Host H) (piece : Nat) (data : Bytes) (w : World H) :
    Written host piece data (w.map (fun s => { s with verifying := s.verifying.erase piece })) ↔
      Written host piece data w := by
  apply written_congr host
  · rfl
  · rfl
  · rfl

theorem settled_trace {host : Host H} {abs piece : Nat} {data : Bytes} {w u : World H}
    (written : writeAbs host abs data (w.map (fun s => { s with verifying := s.verifying.erase piece })) = (.ok (), u)) :
    u.sess.pieces = w.sess.pieces ∧ u.sess.selectedPieceCount = w.sess.selectedPieceCount ∧
      Silent w (((u.map (settlePiece piece)).emit (.cleared piece)).emit (.pieceVerified piece)) := by
  have sess := sess_writeAbs host abs data (w.map (fun s => { s with verifying := s.verifying.erase piece }))
  have traced := trace_writeAbs host abs data (w.map (fun s => { s with verifying := s.verifying.erase piece }))
  rw [written] at sess traced
  have pieces := congrArg TorrentSession.pieces sess
  have selected := congrArg TorrentSession.selectedPieceCount sess
  refine ⟨pieces, selected, ?_⟩
  have mapped : Silent w (u.map (settlePiece piece)) := silent_of_same traced
  exact (mapped.trans (silent_emit _ rfl)).trans (silent_emit _ rfl)

variable {host : Host H} {env : Env} {e : Event H} {w v : World H}

theorem silent_deed (deed : Deed host env e w v) (incomplete : ¬ Completes host e w) : Silent w v := by
  cases deed with
  | start halted => exact silent_of_same rfl
  | pause running => exact (silent_of_same rfl).trans (silent_emit _ rfl)
  | resume paused =>
    apply silent_of_same
    rw [Session.resume, if_neg (not_not.mpr paused)]
    rfl
  | stop running =>
    have closed := (silent_emit w (e := .announced .stopped) rfl).trans
      (Idle.foldl (fun (v : World H) c => idle_emit v (e := .closed c) rfl) w.sess.peers.keys _).calm.steady.trace
    unfold Session.stop
    rw [if_neg running]
    exact closed.trans (silent_of_same rfl)
  | setFilePriority file prio w => exact silent_of_same rfl
  | setFilePriorities priorities w => exact silent_of_same rfl
  | setHoldData hold w => exact silent_of_same rfl
  | @verify piece totalBlocks abs data t w u verifying torrent located written =>
    obtain ⟨pieces, selected, silent⟩ := settled_trace written
    refine silent.trans (silent_of_same ?_)
    rw [announceCompletion, if_neg]
    intro enough
    refine incomplete ⟨piece, data, rfl, (OrdMap.contains_iff _ _).mpr ⟨_, verifying⟩, ?_, ?_⟩
    · refine (written_judged host piece data w).mp ⟨t, abs, torrent, located, ?_⟩
      rw [written]
    · rw [← pieces, ← selected]
      exact enough
  | share state w => exact silent_of_same rfl

theorem announces_of_completes (digests : Digests) (env : Env) (completes : Completes host e w) :
    Announces w (step digests host env e w) ∧ (step digests host env e w).sess.status = .seeding := by
  obtain ⟨piece, data, rfl, contained, written, enough⟩ := completes
  obtain ⟨totalBlocks, verifying⟩ := (OrdMap.contains_iff _ _).mp contained
  obtain ⟨t, abs, torrent, located, done⟩ := (written_judged host piece data w).mpr written
  cases stored : writeAbs host abs data (w.map (fun s => { s with verifying := s.verifying.erase piece })) with
  | mk result u =>
    rw [stored] at done
    cases done
    obtain ⟨pieces, selected, more, traced, quiet⟩ := settled_trace stored
    have outcome : step digests host env (.verified piece true data) w = announceCompletion env
        (((u.map (settlePiece piece)).emit (.cleared piece)).emit (.pieceVerified piece)) := by
      have same : (w.map (fun s => { s with verifying := s.verifying.erase piece })).sess.torrent = some t := torrent
      simp only [step, onVerified, verifying, same, if_pos, completePieceVerified, located, stored]
    have reached : (((u.map (settlePiece piece)).emit (.cleared piece)).emit (.pieceVerified piece)).sess.pieces.haveCount ≥
        (((u.map (settlePiece piece)).emit (.cleared piece)).emit (.pieceVerified piece)).sess.selectedPieceCount := by
      rw [← pieces, ← selected] at enough
      exact enough
    rw [outcome, announceCompletion, if_pos reached]
    refine ⟨⟨.torrentComplete, ?_, rfl⟩, rfl⟩
    simp only [World.emit, World.map] at traced ⊢
    rw [traced, List.append_assoc, List.append_assoc, List.drop_left]
    simp

theorem announces_iff (digests : Digests) (env : Env) (e : Event H) (w : World H) :
    Announces w (step digests host env e w) ↔ Completes host e w := by
  constructor
  · intro announces
    by_contra incomplete
    refine Silent.not_announces (?_ : Silent w _) announces
    rcases step_cases digests host env e w with moves | ⟨u, deed, moves⟩
    · exact silent_moves moves
    · exact (silent_deed deed incomplete).trans (silent_moves moves)
  · exact fun completes => (announces_of_completes digests env completes).1

end Announce

section Runs
variable {H : Type} (digests : Digests) (host : Host H)

def moments : List (Env × Event H) → World H → List ((Env × Event H) × World H)
  | [], _ => []
  | e :: tail, w => (e, w) :: moments tail (step digests host e.1 e.2 w)

theorem mem_moments (early late : List (Env × Event H)) (e : Env × Event H) (w : World H) :
    (e, run digests host early w) ∈ moments digests host (early ++ e :: late) w := by
  induction early generalizing w with
  | nil => exact List.mem_cons_self
  | cons first tail ih => exact List.mem_cons_of_mem _ (ih _)

/-- The event announces a completion only as it turns the session to seeding. -/
def AnnouncesOnce (moment : (Env × Event H) × World H) : Prop :=
  Announces moment.2 (step digests host moment.1.1 moment.1.2 moment.2) →
    moment.2.sess.status ≠ .seeding ∧ (step digests host moment.1.1 moment.1.2 moment.2).sess.status = .seeding

theorem announcesOnce_iff (moment : (Env × Event H) × World H) :
    AnnouncesOnce digests host moment ↔ ¬ (moment.2.sess.status = .seeding ∧ Completes host moment.1.2 moment.2) := by
  unfold AnnouncesOnce
  rw [announces_iff]
  constructor
  · rintro once ⟨seeding, completes⟩
    exact (once completes).1 seeding
  · intro fresh completes
    exact ⟨fun seeding => fresh ⟨seeding, completes⟩, (announces_of_completes digests _ completes).2⟩

/-- Exactly when a run announces completions only as it turns to seeding: when no good verdict on a
piece that can be written meets a session that seeds already and then holds as much as is selected. -/
theorem completion_announced_once_iff (events : List (Env × Event H)) (w : World H) :
    (∀ moment ∈ moments digests host events w, AnnouncesOnce digests host moment) ↔
      ∀ moment ∈ moments digests host events w,
        ¬ (moment.2.sess.status = .seeding ∧ Completes host moment.1.2 moment.2) := by
  simp only [announcesOnce_iff]

end Runs

/-- A peer sends the piece a seeding session has, and the session verifies it again. -/
def Sample.again : List (Env × Event Unit) :=
  [(Sample.env, .start)] ++ Sample.arrival ++ [(Sample.env, .verified 0 true [1, 2, 6])]

/-- The session seeded from the start, and announces its completion for the piece it had. -/
theorem completion_announced_again :
    ∃ moment ∈ moments Sample.digests Sample.host Sample.again Sample.restored,
      ¬ AnnouncesOnce Sample.digests Sample.host moment := by
  refine ⟨_, mem_moments Sample.digests Sample.host ([(Sample.env, .start)] ++ Sample.arrival) []
    (Sample.env, .verified 0 true [1, 2, 6]) Sample.restored, ?_⟩
  rw [announcesOnce_iff, not_not]
  exact ⟨by decide, 0, [1, 2, 6], rfl, by decide,
    ⟨Sample.torrent, 0, by decide, by decide, by decide⟩, by decide⟩

end TypeBit.Session
