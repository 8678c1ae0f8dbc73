import TypeBit.Session.Completion

/-! What a session has selected, and whether it holds all of it. The status is decided by comparing two
counters, so it tells of the selected pieces only while no piece outside the selection makes up the number. -/

namespace TypeBit.Session
open Metainfo Leech Wire

/-! ### Counting the selection -/

def Covers (priorities : List Int) (held : Bitfield) : Prop :=
  ∀ i m, priorities[i]? = some m → m ≠ 0 → held.get i = true

def selectedOf (priorities : List Int) : Nat := priorities.countP (fun m => decide (0 < m))

def Telling (priorities : List Int) (held : Bitfield) : Prop :=
  selectedOf priorities ≤ held.count → Covers priorities held

def multipliers (t : Torrent) (filePriorities : List FilePriority) (hold : Bool) : List Int :=
  if hold then (computePiecePriorities t filePriorities).1.map (fun _ => 0) else (computePiecePriorities t filePriorities).1

def withPriority (file : Nat) (prio : FilePriority) (priorities : List FilePriority) : List FilePriority :=
  (priorities ++ List.replicate (file + 1 - priorities.length) FilePriority.normal).set file prio

theorem selectedOf_zeros (priorities : List Int) : selectedOf (priorities.map (fun _ => 0)) = 0 := by
  unfold selectedOf
  rw [List.countP_map]
  exact List.countP_eq_zero.mpr (by simp)

theorem computePiecePriorities_selected (t : Torrent) (filePriorities : List FilePriority) :
    (computePiecePriorities t filePriorities).2 = selectedOf (computePiecePriorities t filePriorities).1 := by
  unfold computePiecePriorities
  dsimp only
  split_ifs <;> rfl

theorem length_multipliers (t : Torrent) (filePriorities : List FilePriority) (hold : Bool) :
    (multipliers t filePriorities hold).length = t.pieceCount := by
  have length : (computePiecePriorities t filePriorities).1.length = t.pieceCount := by
    unfold computePiecePriorities
    dsimp only
    split_ifs with none
    · exact none.symm
    · simp
  unfold multipliers
  split_ifs
  · rw [List.length_map, length]
  · exact length

variable {t : Torrent}

theorem multipliers_nonneg {filePriorities : List FilePriority} {hold : Bool} {m : Int}
    (member : m ∈ multipliers t filePriorities hold) : 0 ≤ m := by
  unfold multipliers at member
  split_ifs at member
  · simp only [List.mem_map] at member
    obtain ⟨_, _, rfl⟩ := member
    exact le_refl 0
  · unfold computePiecePriorities at member
    dsimp only at member
    split_ifs at member
    · cases member
    · simp only [List.mem_map] at member
      obtain ⟨p, _, rfl⟩ := member
      split_ifs <;> decide

theorem covers_of_none_selected {priorities : List Int} (sign : ∀ m ∈ priorities, 0 ≤ m)
    (none : selectedOf priorities = 0) (held : Bitfield) : Covers priorities held := by
  intro i m found selected
  have member := List.mem_of_getElem? found
  have zero := List.countP_eq_zero.mp none m member
  have nonneg := sign m member
  simp only [decide_eq_true_eq] at zero
  omega

theorem selectedOf_le_count {priorities : List Int} {held : Bitfield} (counted : held.Counted)
    (sized : priorities.length = held.len) (covers : Covers priorities held) : selectedOf priorities ≤ held.count := by
  have listed : priorities = (List.range held.len).map (fun i => priorities.getD i 0) := by
    refine List.ext_getElem (by simp [sized]) fun i inside _ => ?_
    simp [inside]
  rw [counted, selectedOf, listed, List.countP_map]
  refine List.countP_mono_left fun i member selected => ?_
  have inside : i < priorities.length := sized ▸ List.mem_range.mp member
  refine covers i (priorities.getD i 0) ?_ ?_
  · rw [List.getD_eq_getElem?_getD, List.getElem?_eq_getElem inside]
    rfl
  · simp only [Function.comp_apply, decide_eq_true_eq] at selected
    omega

/-! ### Standings -/

structure Tallied (a : Standing) : Prop where
  counted : a.haveBits.Counted
  shape : a.haveBits.len = a.pieceCount
  sized : ∀ t, a.torrent = some t → a.pieceCount = t.pieceCount ∧ a.piecePriorities.length = t.pieceCount
  selected : a.selectedPieceCount = selectedOf a.piecePriorities
  sign : ∀ m ∈ a.piecePriorities, 0 ≤ m

structure Stated (a : Standing) : Prop where
  lacking : a.torrent.isSome = true → a.status = .downloading → a.haveBits.count < a.selectedPieceCount
  complete : a.torrent.isSome = true → a.status = .seeding → Covers a.piecePriorities a.haveBits

/-- A running session could be told to select these pieces while it holds those. -/
structure Reselects (status : SessionStatus) (priorities : List Int) (held : Bitfield) : Prop where
  telling : status = .downloading → Telling priorities held
  covers : status = .seeding → Covers priorities held

def Standing.refresh (a : Standing) : Standing :=
  if a.torrent.isSome ∧ (a.status = .downloading ∨ a.status = .seeding) ∧ a.haveBits.count ≥ a.selectedPieceCount then
    { a with status := .seeding }
  else a

def Standing.select (priorities : List Int) (a : Standing) : Standing :=
  { a with piecePriorities := priorities, selectedPieceCount := selectedOf priorities }

theorem standing_refreshCompletion (s : TorrentSession) : (refreshCompletion s).standing = s.standing.refresh := by
  unfold refreshCompletion Standing.refresh
  split_ifs with reached reached' reached'
  · rfl
  · exact absurd reached reached'
  · exact absurd reached' reached
  · rfl

@[simp] theorem Standing.piecePriorities_refresh (a : Standing) : a.refresh.piecePriorities = a.piecePriorities := by
  unfold Standing.refresh
  split_ifs <;> rfl

@[simp] theorem Standing.haveBits_refresh (a : Standing) : a.refresh.haveBits = a.haveBits := by
  unfold Standing.refresh
  split_ifs <;> rfl

variable {a : Standing}

theorem Standing.status_refresh_failed (failed : a.status = .failed) : a.refresh.status = .failed := by
  unfold Standing.refresh
  rw [if_neg, failed]
  rintro ⟨_, running, _⟩
  rw [failed] at running
  rcases running with running | running <;> cases running

theorem standing_recomputePriorities {s : TorrentSession} (torrent : s.torrent = some t) : (recomputePriorities s).standing =
      (s.standing.select (multipliers t s.cfg.filePriorities s.holdDataUntilPriorities)).refresh := by
  simp only [recomputePriorities, torrent]
  rw [standing_refreshCompletion]
  congr 1
  simp only [TorrentSession.standing, Standing.select, multipliers, computePiecePriorities_selected]
  cases s.holdDataUntilPriorities with
  | true => simp only [if_pos, selectedOf_zeros, torrent]
  | false => simp [torrent]

theorem tallied_refresh (tallied : Tallied a) : Tallied a.refresh := by
  unfold Standing.refresh
  split_ifs
  · exact ⟨tallied.counted, tallied.shape, tallied.sized, tallied.selected, tallied.sign⟩
  · exact tallied

theorem tallied_select (counted : a.haveBits.Counted) (shape : a.haveBits.len = a.pieceCount) (torrent : a.torrent = some t)
    (sized : a.pieceCount = t.pieceCount)
    (filePriorities : List FilePriority) (hold : Bool) : Tallied (a.select (multipliers t filePriorities hold)) := by
  refine ⟨counted, shape, ?_, rfl, fun m member => multipliers_nonneg member⟩
  intro t' torrent'
  have same : t' = t := Option.some.inj (torrent'.symm.trans torrent)
  subst same
  exact ⟨sized, length_multipliers t' filePriorities hold⟩

theorem Tallied.restate (tallied : Tallied a) {status : SessionStatus} {fetching hold : Bool}
    {cfg : SessionConfig} : Tallied { a with
      status := status, fetching := fetching, holdDataUntilPriorities := hold, cfg := cfg } :=
  ⟨tallied.counted, tallied.shape, tallied.sized, tallied.selected, tallied.sign⟩

theorem stated_refresh (tallied : Tallied a)
    (reselects : a.torrent.isSome = true → Reselects a.status a.piecePriorities a.haveBits) : Stated a.refresh := by
  unfold Standing.refresh
  split_ifs with reached
  · obtain ⟨present, running, enough⟩ := reached
    refine ⟨fun _ downloading => (nomatch downloading), fun _ _ => ?_⟩
    rcases running with downloading | seeding
    · exact (reselects present).telling downloading (tallied.selected ▸ enough)
    · exact (reselects present).covers seeding
  · refine ⟨?_, fun present seeding => (reselects present).covers seeding⟩
    intro present downloading
    by_contra enough
    exact reached ⟨present, Or.inl downloading, Nat.le_of_not_lt enough⟩

theorem Stated.reselects (tallied : Tallied a) (stated : Stated a) (present : a.torrent.isSome = true) :
    Reselects a.status a.piecePriorities a.haveBits := by
  refine ⟨fun downloading enough => ?_, stated.complete present⟩
  have few := stated.lacking present downloading
  rw [tallied.selected] at few
  omega

theorem stated_of_halted (status : SessionStatus) (is : a.status = status)
    (halted : status ≠ .downloading ∧ status ≠ .seeding) : Stated a := by
  subst is
  exact ⟨fun _ downloading => absurd downloading halted.1, fun _ seeding => absurd seeding halted.2⟩

theorem stated_of_absent (absent : a.torrent = none) : Stated a := by
  refine ⟨fun present => ?_, fun present => ?_⟩
  · rw [absent] at present
    cases present
  · rw [absent] at present
    cases present

/-! ### Calls -/

/-- A call on a session: an event of a run, or a saved state restored onto it. -/
inductive Call (H : Type) where
  | event (env : Env) (e : Event H)
  | restore (haveBytes priorities : Bytes) (up down : Nat) (reputation : Option ReputationStore) (now : Nat)

section Calls
variable {H : Type} (digests : Digests) (host : Host H)

def Call.act (c : Call H) (w : World H) : World H :=
  match c with
  | .event env e => step digests host env e w
  | .restore haveBytes priorities up down reputation now =>
      w.map (fun s => (applySavedState haveBytes priorities up down reputation now s).2)

def calls : List (Call H) → World H → World H
  | [], w => w
  | c :: tail, w => calls tail (c.act digests host w)

/-- The call finds the counters telling the truth wherever it compares them, and selects no missing piece in
a session that seeds. -/
def Fair (c : Call H) (w : World H) : Prop :=
  match c with
  | .event _ .start => w.sess.status ≠ .downloading → w.sess.status ≠ .seeding → w.sess.torrent.isSome = true →
      Telling w.sess.piecePriorities w.sess.pieces.haveBits
  | .event _ .resume => w.sess.status = .paused → w.sess.torrent.isSome = true →
      Telling w.sess.piecePriorities w.sess.pieces.haveBits
  | .event _ (.verified piece ok data) => Completes host (.verified piece ok data) w →
      Covers w.sess.piecePriorities (w.sess.pieces.haveBits.set piece)
  | .event _ (.setFilePriority file prio) => ∀ t, w.sess.torrent = some t → file < t.files.length →
      Reselects w.sess.status
        (multipliers t (withPriority file prio w.sess.cfg.filePriorities) w.sess.holdDataUntilPriorities)
        w.sess.pieces.haveBits
  | .event _ (.setFilePriorities priorities) => ∀ t, w.sess.torrent = some t → w.sess.status ≠ .failed →
      Telling (multipliers t (priorities.take (min priorities.length t.files.length)) false) w.sess.pieces.haveBits
  | .event _ (.setHoldData hold) => ∀ t, w.sess.torrent = some t →
      Reselects w.sess.status (multipliers t w.sess.cfg.filePriorities hold) w.sess.pieces.haveBits
  | .restore haveBytes priorities _ _ _ _ => ∀ t held, w.sess.torrent = some t →
      Bitfield.fromBytes haveBytes w.sess.pieces.pieceCount = .ok held →
      Reselects w.sess.status
        (if priorities = [] then w.sess.piecePriorities
          else multipliers t ((priorities.take (min priorities.length t.files.length)).map filePriorityFromU8)
            w.sess.holdDataUntilPriorities) held
  | _ => True

def FairRun : List (Call H) → World H → Prop
  | [], _ => True
  | c :: tail, w => Fair host c w ∧ FairRun tail (c.act digests host w)

/-- A session that runs seeds exactly when it holds every selected piece. -/
def SeedsComplete (s : TorrentSession) : Prop :=
  s.torrent.isSome = true → s.status = .downloading ∨ s.status = .seeding →
    (s.status = .seeding ↔ Covers s.piecePriorities s.pieces.haveBits)

def Honest (s : TorrentSession) : Prop := Tallied s.standing ∧ Stated s.standing

variable {s : TorrentSession}

theorem Honest.seedsComplete (honest : Honest s) : SeedsComplete s := by
  obtain ⟨tallied, stated⟩ := honest
  intro present running
  refine ⟨stated.complete present, fun covers => ?_⟩
  rcases running with downloading | seeding
  · obtain ⟨t, torrent⟩ := Option.isSome_iff_exists.mp present
    have lacking : s.pieces.haveBits.count < s.selectedPieceCount := stated.lacking present downloading
    have sized : s.piecePriorities.length = s.pieces.haveBits.len :=
      (tallied.sized t torrent).2.trans ((tallied.shape.trans (tallied.sized t torrent).1).symm)
    have enough : selectedOf s.piecePriorities ≤ s.pieces.haveBits.count :=
      selectedOf_le_count tallied.counted sized covers
    have selected : s.selectedPieceCount = selectedOf s.piecePriorities := tallied.selected
    omega
  · exact seeding

theorem honest_recompute {t : Torrent} (torrent : s.torrent = some t) (tallied : Tallied s.standing)
    (reselects : Reselects s.status (multipliers t s.cfg.filePriorities s.holdDataUntilPriorities) s.pieces.haveBits) :
    Honest (recomputePriorities s) := by
  unfold Honest
  rw [standing_recomputePriorities torrent]
  have selected := tallied_select tallied.counted tallied.shape torrent (tallied.sized t torrent).1 s.cfg.filePriorities
    s.holdDataUntilPriorities
  exact ⟨tallied_refresh selected, stated_refresh selected (fun _ => reselects)⟩

theorem honest_refresh (tallied : Tallied s.standing)
    (reselects : s.torrent.isSome = true → Reselects s.status s.piecePriorities s.pieces.haveBits) :
    Honest (refreshCompletion s) := by
  unfold Honest
  rw [standing_refreshCompletion]
  exact ⟨tallied_refresh tallied, stated_refresh tallied reselects⟩

variable {digests host} {env : Env} {e : Event H} {w v : World H}

theorem honest_begin (tallied : Tallied s.standing)
    (status : s.status = if s.selectedPieceCount = 0 then .seeding else .downloading)
    (telling : Telling s.piecePriorities s.pieces.haveBits) : Honest (refreshCompletion s) := by
  refine honest_refresh tallied fun _ => ⟨fun _ => telling, fun seeding => ?_⟩
  rw [status] at seeding
  split_ifs at seeding with none
  exact covers_of_none_selected tallied.sign (tallied.selected.symm.trans none) _

theorem honest_installed (env : Env) (t : Torrent) (s : TorrentSession) : Honest (installed env t s) := by
  have standing := standing_recomputePriorities (t := t) (s := { s with
    pieces := PieceTracker.new t.pieceCount t.pieceLength
    availability := List.replicate t.pieceCount 0
    scheduler := Scheduler.new t s.cfg.scheduler
    torrent := some t }) rfl
  unfold installed
  dsimp only
  generalize recomputePriorities _ = u at standing ⊢
  have tallied : Tallied u.standing := by
    rw [standing]
    exact tallied_refresh (tallied_select (Bitfield.counted_new _) rfl rfl rfl _ _)
  have none : u.pieces.haveBits.count = 0 := by
    have haves := congrArg Standing.haveBits standing
    rw [Standing.haveBits_refresh] at haves
    exact congrArg Bitfield.count haves
  refine ⟨tallied.restate, fun _ downloading => ?_, fun _ seeding => ?_⟩
  · have some : u.selectedPieceCount ≠ 0 := by
      intro zero
      simp [TorrentSession.standing, zero] at downloading
    exact none ▸ Nat.pos_of_ne_zero some
  · have zero : u.selectedPieceCount = 0 := by
      by_contra some
      simp [TorrentSession.standing, some] at seeding
    exact covers_of_none_selected tallied.sign (tallied.selected.symm.trans zero) _

theorem honest_move (move : Move w v) (honest : Honest w.sess) : Honest v.sess := by
  obtain ⟨tallied, stated⟩ := honest
  cases move.turn with
  | steady same =>
    unfold Honest
    rw [same.standing]
    exact ⟨tallied, stated⟩
  | install env t absent => exact honest_installed env t w.sess
  | refetch fetching standing traced =>
    unfold Honest
    rw [standing]
    exact ⟨⟨tallied.counted, tallied.shape, tallied.sized, tallied.selected, tallied.sign⟩,
      stated_of_halted .fetchingMetadata rfl (by decide)⟩
  | fail standing traced =>
    unfold Honest
    rw [standing]
    exact ⟨⟨tallied.counted, tallied.shape, tallied.sized, tallied.selected, tallied.sign⟩,
      stated_of_halted .failed rfl (by decide)⟩

theorem standing_stop (host : Host H) {w : World H} (running : w.sess.status ≠ .stopped) :
    (Session.stop host w).sess.standing = { w.sess.standing with status := .stopped } := by
  have closed := (idle_emit w (e := .announced .stopped) rfl).trans
    (Idle.foldl (fun (v : World H) c => idle_emit v (e := .closed c) rfl) w.sess.peers.keys _)
  unfold Session.stop
  rw [if_neg running]
  exact congrArg (fun a : Standing => { a with status := .stopped }) closed.calm.steady.standing

theorem honest_setFilePriority (file : Nat) (prio : FilePriority) (honest : Honest s)
    (fair : ∀ t, s.torrent = some t → file < t.files.length → Reselects s.status
      (multipliers t (withPriority file prio s.cfg.filePriorities) s.holdDataUntilPriorities) s.pieces.haveBits) :
    Honest (Session.setFilePriority file prio s).2 := by
  unfold Session.setFilePriority
  split
  · exact honest
  · rename_i t torrent
    split
    · exact honest
    · rename_i inside
      exact honest_recompute torrent honest.1.restate (fair t torrent (Nat.lt_of_not_le inside))

theorem honest_setHoldData (hold : Bool) (honest : Honest s) (fair : ∀ t, s.torrent = some t →
      Reselects s.status (multipliers t s.cfg.filePriorities hold) s.pieces.haveBits) :
    Honest (Session.setHoldData hold s) := by
  cases torrent : s.torrent with
  | none =>
    have absent : (Session.setHoldData hold s).torrent = none :=
      (congrArg Kept.torrent (kept_recomputePriorities { s with holdDataUntilPriorities := hold })).trans torrent
    refine ⟨?_, stated_of_absent absent⟩
    simp only [Session.setHoldData, recomputePriorities, torrent]
    refine ⟨honest.1.counted, honest.1.shape, ?_, rfl, ?_⟩
    · intro t some
      cases some
    · intro m member
      cases member
  | some t => exact honest_recompute (s := { s with holdDataUntilPriorities := hold }) torrent honest.1.restate (fair t torrent)

theorem honest_setFilePriorities (priorities : List FilePriority) (honest : Honest s)
    (fair : ∀ t, s.torrent = some t → s.status ≠ .failed →
      Telling (multipliers t (priorities.take (min priorities.length t.files.length)) false) s.pieces.haveBits) :
    Honest (Session.setFilePriorities priorities s).2 := by
  unfold Session.setFilePriorities
  split
  · exact honest
  · rename_i t torrent
    dsimp only
    have standing := standing_recomputePriorities (t := t) (s := { s with
      cfg := { s.cfg with filePriorities := priorities.take (min priorities.length t.files.length) }
      holdDataUntilPriorities := false }) torrent
    generalize recomputePriorities _ = u at standing ⊢
    have tallied : Tallied u.standing := by
      rw [standing]
      refine tallied_refresh (tallied_select ?_ ?_ torrent ?_ _ _)
      · exact honest.1.counted
      · exact honest.1.shape
      · exact (honest.1.sized t torrent).1
    split
    · rename_i failed
      exact ⟨tallied, stated_of_halted .failed failed (by decide)⟩
    · rename_i alive
      have selected : u.piecePriorities = multipliers t (priorities.take (min priorities.length t.files.length)) false :=
        (congrArg Standing.piecePriorities standing).trans (Standing.piecePriorities_refresh _)
      have haves : u.pieces.haveBits = s.pieces.haveBits :=
        (congrArg Standing.haveBits standing).trans (Standing.haveBits_refresh _)
      have running : s.status ≠ .failed := fun failed =>
        alive ((congrArg Standing.status standing).trans (Standing.status_refresh_failed failed))
      have telling : Telling u.piecePriorities u.pieces.haveBits := by
        rw [selected, haves]
        exact fair t torrent running
      exact honest_begin tallied.restate rfl telling

theorem honest_settled {piece : Nat} {u : World H} (honest : Honest u.sess)
    (fair : u.sess.selectedPieceCount ≤ (u.sess.pieces.haveBits.set piece).count →
      Covers u.sess.piecePriorities (u.sess.pieces.haveBits.set piece)) :
    Honest (announceCompletion env (((u.map (settlePiece piece)).emit (.cleared piece)).emit (.pieceVerified piece))).sess := by
  obtain ⟨tallied, stated⟩ := honest
  have settled : Tallied { u.sess.standing with haveBits := u.sess.pieces.haveBits.set piece } :=
    ⟨Bitfield.counted_set tallied.counted piece, (Bitfield.len_set _ piece).trans tallied.shape, tallied.sized,
      tallied.selected, tallied.sign⟩
  unfold announceCompletion
  split
  · rename_i enough
    exact ⟨settled.restate, fun _ downloading => (nomatch downloading), fun _ _ => fair enough⟩
  · rename_i few
    refine ⟨settled, fun _ _ => Nat.lt_of_not_le few, fun present seeding => ?_⟩
    intro i m found selected
    have held := stated.complete present seeding i m found selected
    refine (Bitfield.get_set _ piece i).trans ?_
    rw [show u.sess.pieces.haveBits.get i = true from held]
    rfl

theorem honest_deed (deed : Deed host env e w v) (fair : Fair host (.event env e) w) (honest : Honest w.sess) :
    Honest v.sess := by
  obtain ⟨tallied, stated⟩ := honest
  have tallied' : ∀ status, Tallied { w.sess.standing with status := status } := fun _ =>
    ⟨tallied.counted, tallied.shape, tallied.sized, tallied.selected, tallied.sign⟩
  cases deed with
  | start halted =>
    cases torrent : w.sess.torrent with
    | none =>
      have standing := standing_refreshCompletion { w.sess with
        status := if w.sess.torrent.isNone then .fetchingMetadata
          else if w.sess.selectedPieceCount = 0 then .seeding else .downloading
        startedAt := env.now
        announceAt := env.now }
      refine ⟨?_, ?_⟩
      · exact standing ▸ tallied_refresh (tallied' _)
      · refine stated_of_absent ?_
        exact (congrArg Kept.torrent (kept_refreshCompletion _)).trans torrent
    | some t =>
      refine honest_begin (tallied' _) ?_ (fair halted.1 halted.2 (by rw [torrent]; rfl))
      rw [torrent]
      rfl
  | pause running => exact ⟨tallied' _, stated_of_halted .paused rfl (by decide)⟩
  | resume paused =>
    have resumed : Session.resume env w = w.map (fun s => { refreshCompletion { s with status := .downloading } with
        announceAt := env.now, pendingStartedAnnounce := true }) := if_neg (not_not.mpr paused)
    rw [resumed]
    refine honest_refresh (s := { w.sess with status := .downloading }) (tallied' _) fun present => ⟨fun _ => ?_, ?_⟩
    · exact fair paused present
    · exact fun seeding => nomatch seeding
  | stop running =>
    unfold Honest
    rw [standing_stop host running]
    exact ⟨tallied' _, stated_of_halted .stopped rfl (by decide)⟩
  | setFilePriority file prio w => exact honest_setFilePriority file prio ⟨tallied, stated⟩ fair
  | setFilePriorities priorities w => exact honest_setFilePriorities priorities ⟨tallied, stated⟩ fair
  | setHoldData hold w => exact honest_setHoldData hold ⟨tallied, stated⟩ fair
  | @verify piece totalBlocks abs data t w u verifying torrent located written =>
    have sess := sess_writeAbs host abs data (w.map (fun s => { s with verifying := s.verifying.erase piece }))
    rw [written] at sess
    have standing := congrArg TorrentSession.standing sess
    have honest : Honest u.sess := (congrArg (fun a => Tallied a ∧ Stated a) standing).mpr ⟨tallied, stated⟩
    refine honest_settled honest fun enough => ?_
    have selected : u.sess.selectedPieceCount = w.sess.selectedPieceCount := congrArg Standing.selectedPieceCount standing
    have haves : u.sess.pieces.haveBits = w.sess.pieces.haveBits := congrArg Standing.haveBits standing
    have priorities : u.sess.piecePriorities = w.sess.piecePriorities := congrArg Standing.piecePriorities standing
    rw [priorities, haves]
    refine fair ⟨piece, data, rfl, (OrdMap.contains_iff _ _).mpr ⟨_, verifying⟩, ?_, selected ▸ haves ▸ enough⟩
    refine (written_judged host piece data w).mp ⟨t, abs, torrent, located, ?_⟩
    rw [written]
  | share state w => exact ⟨tallied, stated⟩

theorem honest_applySavedState (haveBytes priorities : Bytes) (up down : Nat) (reputation : Option ReputationStore)
    (now : Nat) (honest : Honest s)
    (fair : ∀ t held, s.torrent = some t → Bitfield.fromBytes haveBytes s.pieces.pieceCount = .ok held →
      Reselects s.status (if priorities = [] then s.piecePriorities
        else multipliers t ((priorities.take (min priorities.length t.files.length)).map filePriorityFromU8)
          s.holdDataUntilPriorities) held) : Honest (applySavedState haveBytes priorities up down reputation now s).2 := by
  unfold applySavedState
  split
  · exact honest
  · rename_i pieces parsed
    obtain ⟨held, loaded, updated⟩ := bind_eq_ok.mp parsed
    cases updated
    have tallied : Tallied { s.standing with haveBits := held } :=
      ⟨Bitfield.counted_fromBytes loaded, Bitfield.len_fromBytes loaded, honest.1.sized, honest.1.selected, honest.1.sign⟩
    dsimp only
    split
    · rename_i e failed
      split_ifs at failed
      split at failed
      · rename_i torrent
        exact ⟨tallied, stated_of_absent torrent⟩
      · cases failed
    · rename_i u selected
      have chosen : Tallied u.standing ∧
          (u.torrent.isSome = true → Reselects u.status u.piecePriorities u.pieces.haveBits) := by
        split_ifs at selected with empty
        · cases selected
          refine ⟨tallied, fun present => ?_⟩
          obtain ⟨t, torrent⟩ := Option.isSome_iff_exists.mp present
          have reselects := fair t held torrent loaded
          rw [if_pos empty] at reselects
          exact reselects
        · split at selected
          · cases selected
          · rename_i t torrent
            cases selected
            have reselects := fair t held torrent loaded
            rw [if_neg empty] at reselects
            have recomputed := honest_recompute (s := { s with
              pieces := { s.pieces with haveBits := held }
              cfg := { s.cfg with
                filePriorities := (priorities.take (min priorities.length t.files.length)).map filePriorityFromU8 } })
              torrent tallied.restate reselects
            exact ⟨recomputed.1, recomputed.2.reselects recomputed.1⟩
      cases reputation with
      | none => exact honest_refresh chosen.1.restate chosen.2
      | some r => exact honest_refresh chosen.1.restate chosen.2

theorem honest_act {c : Call H} (fair : Fair host c w) (honest : Honest w.sess) : Honest (c.act digests host w).sess := by
  cases c with
  | event env e =>
    exact step_preserves (P := fun w => Honest w.sess) honest_move (fun deed => honest_deed deed fair honest) honest
  | restore haveBytes priorities up down reputation now =>
    exact honest_applySavedState haveBytes priorities up down reputation now honest fair

theorem honest_calls {run : List (Call H)} (fair : FairRun digests host run w) (honest : Honest w.sess) :
    Honest (calls digests host run w).sess := by
  induction run generalizing w with
  | nil => exact honest
  | cons c tail ih => exact ih fair.2 (honest_act fair.1 honest)

theorem refreshCompletion_halted (halted : s.status ≠ .downloading ∧ s.status ≠ .seeding) : refreshCompletion s = s := by
  unfold refreshCompletion
  rw [if_neg]
  rintro ⟨_, running, _⟩
  exact running.elim halted.1 halted.2

theorem status_recomputePriorities_halted
    (halted : s.status ≠ .downloading ∧ s.status ≠ .seeding) : (recomputePriorities s).status = s.status := by
  unfold recomputePriorities
  split
  · rfl
  · dsimp only
    rw [refreshCompletion_halted]
    exact halted

theorem status_applySavedState_halted (halted : s.status ≠ .downloading ∧ s.status ≠ .seeding)
    (haveBytes priorities : Bytes) (up down : Nat) (reputation : Option ReputationStore) (now : Nat) :
    (applySavedState haveBytes priorities up down reputation now s).2.status = s.status := by
  unfold applySavedState
  split
  · rfl
  · dsimp only
    split
    · rfl
    · rename_i u selected
      have chosen : u.status = s.status := by
        split_ifs at selected
        · cases selected
          rfl
        · split at selected
          · cases selected
          · cases selected
            exact status_recomputePriorities_halted halted
      cases reputation with
      | none =>
        rw [refreshCompletion_halted]
        · exact chosen
        · exact chosen ▸ halted
      | some r =>
        rw [refreshCompletion_halted]
        · exact chosen
        · exact chosen ▸ halted

theorem honest_initial (initial : Initial s) : Honest s ∧ s.status ≠ .downloading ∧ s.status ≠ .seeding := by
  induction initial with
  | torrent t cfg now =>
    have tallied : Tallied (fromTorrent t cfg now).standing := by
      refine ⟨Bitfield.counted_new _, rfl, ?_, computePiecePriorities_selected t _, ?_⟩
      · intro t' torrent
        cases torrent
        exact ⟨rfl, length_multipliers t cfg.filePriorities false⟩
      · intro m member
        have chosen : m ∈ multipliers t cfg.filePriorities false := member
        exact multipliers_nonneg chosen
    exact ⟨⟨tallied, stated_of_halted .stopped rfl (by decide)⟩, nofun, nofun⟩
  | magnet ih webSeeds cfg now =>
    have tallied : Tallied (fromMagnet ih webSeeds cfg now).standing :=
      ⟨Bitfield.counted_new _, rfl, fun t torrent => (nomatch torrent), rfl, fun m member => (nomatch member)⟩
    exact ⟨⟨tallied, stated_of_absent rfl⟩, nofun, nofun⟩
  | restored fresh haveBytes priorities up down reputation now ih =>
    obtain ⟨honest, halted⟩ := ih
    refine ⟨honest_applySavedState haveBytes priorities up down reputation now honest ?_, ?_⟩
    · intro t held torrent loaded
      exact ⟨fun downloading => absurd downloading halted.1, fun seeding => absurd seeding halted.2⟩
    · rw [status_applySavedState_halted halted]
      exact halted

/-- In a run in which the counters tell the truth whenever they are compared, and no missing piece is selected
in a session that seeds, a session that runs seeds exactly when it holds every selected piece. -/
theorem seeding_means_complete {s : TorrentSession} {io : DiskCache.State H} (initial : Initial s)
    {run : List (Call H)} (fair : FairRun digests host run ⟨s, io, []⟩) :
    SeedsComplete (calls digests host run ⟨s, io, []⟩).sess :=
  (honest_calls fair (honest_initial initial).1).seedsComplete

end Calls

/-- The session is started and downloads its piece. -/
def Sample.completing : List (Call Unit) :=
  [.event Sample.env .start] ++ Sample.arrival.map (fun e => .event e.1 e.2) ++ [.event Sample.env (.verified 0 true [1, 2, 6])]

/-- It selects the piece, starts without it, and seeds once it holds it. -/
theorem seeding_means_complete_downloaded :
    (calls Sample.digests Sample.host Sample.completing Sample.fresh).sess.status = .seeding ∧
      (calls Sample.digests Sample.host Sample.completing Sample.fresh).sess.piecePriorities = [1] ∧
      SeedsComplete (calls Sample.digests Sample.host Sample.completing Sample.fresh).sess := by
  have few : ¬ selectedOf Sample.fresh.sess.piecePriorities ≤ Sample.fresh.sess.pieces.haveBits.count := by decide
  refine ⟨by decide, by decide, seeding_means_complete (.torrent _ _ _) ⟨?_, trivial, trivial, ?_, trivial⟩⟩
  · exact fun _ _ _ enough => absurd enough few
  · intro _ i m found selected
    have one : (calls Sample.digests Sample.host (Sample.completing.take 3) Sample.fresh).sess.piecePriorities = [1] ∧
        ((calls Sample.digests Sample.host (Sample.completing.take 3) Sample.fresh).sess.pieces.haveBits.set 0).get 0 = true := by
      decide
    have here := (congrArg (fun l : List Int => l[i]?) one.1).symm.trans found
    cases i with
    | zero => exact one.2
    | succ i => cases here

/-- A piece is skipped, the session started, and the piece selected again. -/
def Sample.reselected : List (Call Unit) :=
  [.event Sample.env (.setFilePriority 0 .skip), .event Sample.env .start, .event Sample.env (.setFilePriority 0 .normal)]

/-- Selecting the piece again leaves the session seeding without it. -/
theorem seeding_without_selected_piece :
    ¬ SeedsComplete (calls Sample.digests Sample.host Sample.reselected Sample.fresh).sess := by
  intro complete
  have seeding : (calls Sample.digests Sample.host Sample.reselected Sample.fresh).sess.status = .seeding := by
    decide
  have covers := (complete (by decide) (Or.inr seeding)).mp seeding
  exact absurd (covers 0 1 (by decide) (by decide)) (by decide)

end TypeBit.Session
