import TypeBit.Lib.Workers
import TypeBit.Metainfo.PieceRoot
import TypeBit.Session.Gathered

/-! The verification of assembled pieces (`verify.rs`), in place or by a pool of workers that the engine feeds and
polls. -/

namespace TypeBit.Session
open Metainfo

/-- Which hash a piece is checked against. -/
inductive HashKind where
  | sha1
  | sha256Merkle
  deriving DecidableEq, Repr

def HashKind.ofKind : TorrentKind → HashKind
  | .v1 => .sha1
  | .v2 | .hybrid => .sha256Merkle

structure VerifyJob where
  torrent : InfoHash
  piece : Nat
  len : Nat
  kind : HashKind
  expect : Bytes
  data : Bytes

/-- The bytes travel back, to be written to disk. -/
structure VerifyResult where
  torrent : InfoHash
  piece : Nat
  ok : Bool
  data : Bytes
  deriving DecidableEq

section check
variable (digests : Digests)

/-- The check that the workers and the inline path share. -/
def verifyPiece (kind : HashKind) (len : Nat) (data expect : Bytes) : Bool :=
  if data.length ≠ len then false
  else match kind with
    | .sha1 => decide (expect.length = 20) && decide (digests.sha1 data = expect.take 20)
    | .sha256Merkle =>
        if expect.length ≠ 32 then false else decide (merkleRoot digests ((blocks data).map digests.sha256) = expect.take 32)

/-- What a worker makes of a job. -/
def VerifyJob.work (job : VerifyJob) : VerifyResult :=
  ⟨job.torrent, job.piece, verifyPiece digests job.kind job.len job.data job.expect, job.data⟩

/-- The job for an assembled piece, or the bytes back. -/
def buildVerifyJob (s : TorrentSession) (piece : Nat) (data : Bytes) : Option VerifyJob × Bytes :=
  match s.torrent with
  | none => (none, data)
  | some t =>
      match t.pieceInfo piece with
      | .error _ => (none, data)
      | .ok info =>
          match t.pieceHash piece with
          | none => (none, data)
          | some expect => (some ⟨s.infoHash, piece, info.len, .ofKind t.kind, expect, data⟩, [])

def verifyInline (s : TorrentSession) (piece : Nat) (data : Bytes) : Bool × Bytes :=
  match s.torrent with
  | none => (false, data)
  | some t =>
      (match t.pieceInfo piece, t.pieceHash piece with
        | .ok info, some expect => verifyPiece digests (.ofKind t.kind) info.len data expect
        | _, _ => false, data)

/-- A session and an assembled piece that it hands over. -/
structure AssembledPiece where
  sess : TorrentSession
  piece : Nat
  data : Bytes

/-- The verdict of the inline path. -/
def AssembledPiece.inline (a : AssembledPiece) : VerifyResult :=
  ⟨a.sess.infoHash, a.piece, (verifyInline digests a.sess a.piece a.data).1, (verifyInline digests a.sess a.piece a.data).2⟩

def AssembledPiece.job (a : AssembledPiece) : Option VerifyJob := (buildVerifyJob a.sess a.piece a.data).1

variable {digests}

theorem AssembledPiece.work_job {a : AssembledPiece} {job : VerifyJob} (built : a.job = some job) :
    job.work digests = a.inline digests := by
  unfold AssembledPiece.job buildVerifyJob at built
  split at built
  next => cases built
  next t held =>
    split at built
    next => cases built
    next info placed =>
      split at built
      next => cases built
      next expect hashed =>
        cases built
        simp [VerifyJob.work, AssembledPiece.inline, verifyInline, held, placed, hashed]

/-- What passes the inline check passes the check of the torrent. -/
theorem AssembledPiece.verifies {a : AssembledPiece} (passed : (a.inline digests).ok = true) :
    ∃ t, a.sess.torrent = some t ∧ t.verifyPiece digests a.piece a.data = .ok () := by
  unfold AssembledPiece.inline verifyInline at passed
  dsimp only at passed
  split at passed
  next => cases passed
  next t held =>
    refine ⟨t, held, ?_⟩
    dsimp only at passed
    split at passed
    next info expect placed hashed =>
      unfold verifyPiece at passed
      split at passed
      next => cases passed
      next whole =>
        have length : a.data.length = info.len := not_not.mp whole
        have narrow : a.data.length % 2 ^ 32 = info.len := by
          rw [length]
          exact Nat.mod_eq_of_lt (pieceInfo_len_lt placed)
        cases kind : t.kind with
        | v1 =>
          simp only [kind, HashKind.ofKind, Bool.and_eq_true, decide_eq_true_eq] at passed
          simpa [Torrent.verifyPiece, kind, placed, hashed, passed.2, okOr, bind, Except.bind] using narrow
        | v2 =>
          simp only [kind, HashKind.ofKind, Bool.if_false_left, Bool.and_eq_true, decide_eq_true_eq] at passed
          exact (verifyPiece_ok_iff digests (by simp [kind]) _ _).mpr ⟨info, expect, placed, narrow, hashed, passed.2⟩
        | hybrid =>
          simp only [kind, HashKind.ofKind, Bool.if_false_left, Bool.and_eq_true, decide_eq_true_eq] at passed
          exact (verifyPiece_ok_iff digests (by simp [kind]) _ _).mpr ⟨info, expect, placed, narrow, hashed, passed.2⟩
    next => cases passed

end check

/-! ### The pool -/

/-- What the engine and the workers do: a piece is handed over, a worker takes a job or finishes it, the engine polls. -/
inductive Verification where
  | hand (a : AssembledPiece)
  | recv (i : Nat)
  | send (i : Nat)
  | poll

/-- The pieces handed over. -/
def Verification.handed : Verification → Option AssembledPiece
  | .hand a => some a
  | _ => none

/-- The pool, and the outcomes for `on_verified`, the oldest first. -/
structure VerifyDesk where
  log : Workers.Log VerifyJob VerifyResult
  outcomes : List VerifyResult := []

namespace VerifyDesk
section
variable (digests : Digests) (workers : Nat)

/-- A job goes to the worker of its piece. -/
def act (d : VerifyDesk) (action : Workers.Action VerifyJob) : VerifyDesk :=
  { d with log := d.log.act (VerifyJob.work digests) (fun job => job.piece % workers) action }

def step (d : VerifyDesk) : Verification → VerifyDesk
  | .hand a =>
      match a.job with
      | some job => d.act digests workers (.submit job)
      -- A job that cannot be built is verified in place.
      | none => { d with outcomes := d.outcomes ++ [a.inline digests] }
  | .recv i => d.act digests workers (.recv i)
  | .send i => d.act digests workers (.send i)
  | .poll => { d.act digests workers .poll with outcomes := d.outcomes ++ (Workers.poll d.log.pool).1.toList }

/-- A pool has at least one worker. -/
def spawn (workers : Nat) : VerifyDesk := ⟨Workers.fresh (max workers 1), []⟩

def run (events : List Verification) : VerifyDesk := events.foldl (step digests (max workers 1)) (spawn workers)

end

section
variable {digests : Digests} {workers : Nat}

/-- The desk of a run: its pool is in a run of its own, of the jobs that were built, and the outcomes are those of the
pool and those in place. -/
structure Kept (digests : Digests) (workers : Nat) (events : List Verification) (d : VerifyDesk) : Prop where
  pool : ∃ actions, d.log = Workers.run (VerifyJob.work digests) (fun job => job.piece % max workers 1) (max workers 1) actions
  jobs : d.log.jobs = (events.filterMap Verification.handed).filterMap AssembledPiece.job
  outcomes : d.outcomes.Perm (d.log.results ++
    ((events.filterMap Verification.handed).filter (·.job.isNone)).map (AssembledPiece.inline digests))

variable {events : List Verification} {d : VerifyDesk}

theorem Kept.step (kept : Kept digests workers events d) (e : Verification) :
    Kept digests workers (events ++ [e]) (d.step digests (max workers 1) e) := by
  obtain ⟨⟨actions, same⟩, jobs, outcomes⟩ := kept
  have onward : ∀ a, ∃ actions, (d.act digests (max workers 1) a).log =
      Workers.run (VerifyJob.work digests) (fun job => job.piece % max workers 1) (max workers 1) actions := by
    intro a
    refine ⟨actions ++ [a], ?_⟩
    simp only [act, Workers.run, List.foldl_append, List.foldl_cons, List.foldl_nil, same]
  have quiet : e.handed = none → (events ++ [e]).filterMap Verification.handed = events.filterMap Verification.handed := by
    intro none_handed
    simp [none_handed]
  cases e with
  | recv i => exact ⟨onward _, (quiet rfl).symm ▸ jobs, (quiet rfl).symm ▸ outcomes⟩
  | send i => exact ⟨onward _, (quiet rfl).symm ▸ jobs, (quiet rfl).symm ▸ outcomes⟩
  | poll =>
    refine ⟨onward .poll, (quiet rfl).symm ▸ jobs, ?_⟩
    rw [quiet rfl]
    change (d.outcomes ++ (Workers.poll d.log.pool).1.toList).Perm (d.log.results ++ (Workers.poll d.log.pool).1.toList ++ _)
    apply (outcomes.append_right _).trans
    rw [List.append_assoc, List.append_assoc]
    exact List.perm_append_comm.append_left _
  | hand a =>
    cases built : a.job with
    | some job =>
      have stepped : d.step digests (max workers 1) (.hand a) = d.act digests (max workers 1) (.submit job) := by
        simp [VerifyDesk.step, built]
      rw [stepped]
      refine ⟨onward _, ?_, ?_⟩
      · simp [act, Workers.Log.act, Verification.handed, jobs, built]
      · simpa [act, Workers.Log.act, Verification.handed, built] using outcomes
    | none =>
      have stepped : d.step digests (max workers 1) (.hand a) = { d with outcomes := d.outcomes ++ [a.inline digests] } := by
        simp [VerifyDesk.step, built]
      rw [stepped]
      refine ⟨⟨actions, same⟩, by simp [Verification.handed, jobs, built], ?_⟩
      have more := outcomes.append_right [a.inline digests]
      simpa [Verification.handed, built] using more

theorem kept_run (digests : Digests) (workers : Nat) (events : List Verification) : Kept digests workers events (run digests workers events) := by
  have along : ∀ done later : List Verification, ∀ d, Kept digests workers done d →
      Kept digests workers (done ++ later) (later.foldl (VerifyDesk.step digests (max workers 1)) d) := by
    intro done later
    induction later generalizing done with
    | nil => simp
    | cons e later ih =>
      intro d kept
      rw [List.append_cons]
      exact ih _ _ (kept.step e)
  exact along [] events _ ⟨⟨[], rfl⟩, rfl, .refl _⟩

/-- The jobs come to the verdicts of the inline path. -/
theorem map_work_jobs (handed : List AssembledPiece) :
    (handed.filterMap AssembledPiece.job).map (VerifyJob.work digests) =
      (handed.filter (·.job.isSome)).map (AssembledPiece.inline digests) := by
  induction handed with
  | nil => rfl
  | cons a handed ih =>
    cases built : a.job with
    | none => simp [built, ih]
    | some job => simp [built, ih, AssembledPiece.work_job built]

theorem Kept.conserved (kept : Kept digests workers events d) :
    (d.outcomes ++ Workers.owed (VerifyJob.work digests) d.log.pool).Perm
      ((events.filterMap Verification.handed).map (AssembledPiece.inline digests)) := by
  obtain ⟨⟨actions, same⟩, jobs, outcomes⟩ := kept
  have positive : 0 < max workers 1 := by omega
  have conserved : Workers.Conserved (VerifyJob.work digests) d.log := by
    rw [same]
    exact Workers.conserved_run (fun job => Nat.mod_lt _ positive) actions
  have pooled := conserved
  unfold Workers.Conserved at pooled
  rw [jobs, map_work_jobs] at pooled
  have parts := (List.filter_append_perm (·.job.isSome) (events.filterMap Verification.handed)).map (AssembledPiece.inline digests)
  rw [List.map_append] at parts
  simp only [Option.not_isSome] at parts
  apply (outcomes.append_right _).trans
  apply List.Perm.trans _ ((pooled.append_right _).trans parts)
  rw [List.append_assoc, List.append_assoc]
  exact List.perm_append_comm.append_left _

/-- The results of a piece come in the order in which its bytes were handed over. -/
theorem Kept.ordered (kept : Kept digests workers events d) (p : Nat) : d.log.results.filter (·.piece = p) <+:
      (((events.filterMap Verification.handed).filter (·.job.isSome)).map (AssembledPiece.inline digests)).filter (·.piece = p) := by
  obtain ⟨⟨actions, same⟩, jobs, -⟩ := kept
  have inside : p % max workers 1 < d.log.pool.length := by
    rw [same, Workers.length_run]
    exact Nat.mod_lt _ (by omega)
  have balanced : Workers.Balanced (VerifyJob.work digests) (fun job => job.piece % max workers 1)
      (fun r => r.piece % max workers 1) d.log := by
    rw [same]
    apply Workers.balanced_run
    intro job
    rfl
  have slot := balanced _ _ (List.getElem?_eq_getElem inside)
  have both := congrArg (List.filter (·.piece = p)) slot
  have finer : ∀ l : List VerifyResult, (l.filter fun r => r.piece % max workers 1 = p % max workers 1).filter (·.piece = p) =
      l.filter (·.piece = p) := by
    intro l
    rw [List.filter_filter]
    congr 1
    funext r
    by_cases mine : r.piece = p <;> simp [mine]
  have sent : (d.log.jobs.filter fun job => job.piece % max workers 1 = p % max workers 1).map (VerifyJob.work digests) =
      (d.log.jobs.map (VerifyJob.work digests)).filter fun r => r.piece % max workers 1 = p % max workers 1 := by
    rw [List.filter_map]
    rfl
  rw [List.filter_append, finer, sent, finer, jobs, map_work_jobs] at both
  exact ⟨_, both⟩

theorem act_left (d : VerifyDesk) {a : Workers.Action VerifyJob} (inner : ∀ job, a ≠ .submit job) :
    d.act digests workers a = d ∨ Workers.left (d.act digests workers a).log.pool < Workers.left d.log.pool := by
  apply (Workers.left_act d.log inner).imp_left
  intro same
  rw [act, same]

theorem poll_left (d : VerifyDesk) : d.step digests workers .poll = d ∨
    Workers.left (d.step digests workers .poll).log.pool < Workers.left d.log.pool := by
  have polled : ∀ job : VerifyJob, Workers.Action.poll ≠ .submit job := by simp
  apply (d.act_left polled).imp_left
  intro same
  have results : d.log.results ++ (Workers.poll d.log.pool).1.toList = d.log.results := congrArg (·.log.results) same
  rw [step, same, List.append_right_eq_self.mp results, List.append_nil]

/-- Where no worker and no poll changes anything, nothing is owed. -/
theorem settled_of_stuck (stuck : ∀ e, e.handed = none → d.step digests workers e = d) :
    Workers.owed (VerifyJob.work digests) d.log.pool = [] := by
  have still : ∀ a, (∀ job, a ≠ .submit job) →
      d.log.act (VerifyJob.work digests) (fun job => job.piece % workers) a = d.log := ?_
  · exact Workers.owed_of_stuck still
  intro a inner
  cases a with
  | submit job => exact absurd rfl (inner job)
  | recv i => exact congrArg VerifyDesk.log (stuck (.recv i) rfl)
  | send i => exact congrArg VerifyDesk.log (stuck (.send i) rfl)
  | poll => exact congrArg VerifyDesk.log (stuck .poll rfl)

end
end VerifyDesk

/-- However the engine and the workers take turns: each piece handed over is judged once, by the verdict of the inline
path, and the verdicts on one piece come in order. A turn of the workers or a poll either changes nothing or lowers the
number of steps left, and where none changes anything every piece has been judged. -/
theorem pieces_judged (digests : Digests) (workers : Nat) (events : List Verification) :
    let d := VerifyDesk.run digests workers events
    let handed := events.filterMap Verification.handed
    (d.outcomes ++ Workers.owed (VerifyJob.work digests) d.log.pool).Perm (handed.map (AssembledPiece.inline digests)) ∧
      (∀ p, d.log.results.filter (·.piece = p) <+:
        ((handed.filter (·.job.isSome)).map (AssembledPiece.inline digests)).filter (·.piece = p)) ∧
      (∀ e, e.handed = none → d.step digests (max workers 1) e = d ∨
        Workers.left (d.step digests (max workers 1) e).log.pool < Workers.left d.log.pool) ∧
      ((∀ e, e.handed = none → d.step digests (max workers 1) e = d) →
        d.outcomes.Perm (handed.map (AssembledPiece.inline digests))) := by
  intro d handed
  have kept := VerifyDesk.kept_run digests workers events
  refine ⟨kept.conserved, kept.ordered, ?_, ?_⟩
  · intro e quiet
    cases e with
    | hand a => cases quiet
    | recv i => exact d.act_left (by simp)
    | send i => exact d.act_left (by simp)
    | poll => exact d.poll_left
  · intro stuck
    have all := kept.conserved
    rw [VerifyDesk.settled_of_stuck stuck, List.append_nil] at all
    exact all

/-- In no interleaving is a piece accepted whose bytes the torrent's own check rejects. -/
theorem accepted_verified (digests : Digests) (workers : Nat) (events : List Verification) :
    ∀ r ∈ (VerifyDesk.run digests workers events).outcomes, r.ok = true →
      ∃ a ∈ events.filterMap Verification.handed, r = a.inline digests ∧
        ∃ t, a.sess.torrent = some t ∧ t.verifyPiece digests a.piece a.data = .ok () := by
  intro r came passed
  have kept := VerifyDesk.kept_run digests workers events
  have judged := kept.conserved.mem_iff.mp (List.mem_append_left _ came)
  obtain ⟨a, member, rfl⟩ := List.mem_map.mp judged
  exact ⟨a, member, rfl, a.verifies passed⟩

namespace Sample

/-- Every piece has the hash that the torrent declares. -/
def matching : Digests := ⟨fun _ => List.replicate 20 9, fun _ => List.replicate 32 0⟩

def handedOver : List Verification := [.hand ⟨fresh.sess, 0, [1, 2, 3]⟩, .recv 0, .send 0, .poll]

end Sample

theorem accepted_verified_sample : ∃ r ∈ (VerifyDesk.run Sample.matching 1 Sample.handedOver).outcomes, r.ok = true ∧
    ∃ a ∈ Sample.handedOver.filterMap Verification.handed, r = a.inline Sample.matching ∧
      ∃ t, a.sess.torrent = some t ∧ t.verifyPiece Sample.matching a.piece a.data = .ok () := by
  have came : ⟨Sample.torrent.infoHash, 0, true, [1, 2, 3]⟩ ∈ (VerifyDesk.run Sample.matching 1 Sample.handedOver).outcomes := by
    decide
  exact ⟨_, came, rfl, accepted_verified Sample.matching 1 Sample.handedOver _ came rfl⟩

end TypeBit.Session
