import TypeBit.Session.Sound

/-! Where a session stands: its status, its metadata, what it has and what it wants. Few moves turn
anything of it. A session in a data state has its metadata, unless a magnet was resumed without. -/

namespace TypeBit.Session
open Metainfo Leech Wire TorrentSession

structure Standing where
  torrent : Option Torrent
  status : SessionStatus
  pieceCount : Nat
  haveBits : Bitfield
  fetching : Bool
  piecePriorities : List Int
  selectedPieceCount : Nat
  holdDataUntilPriorities : Bool
  cfg : SessionConfig

def TorrentSession.standing (s : TorrentSession) : Standing where
  torrent := s.torrent
  status := s.status
  pieceCount := s.pieces.pieceCount
  haveBits := s.pieces.haveBits
  fetching := s.metadata.isSome
  piecePriorities := s.piecePriorities
  selectedPieceCount := s.selectedPieceCount
  holdDataUntilPriorities := s.holdDataUntilPriorities
  cfg := s.cfg

def Effect.completing : Effect → Bool
  | .torrentComplete => true
  | .announced .completed => true
  | _ => false

section Turns
variable {H : Type}

structure Steady (w v : World H) : Prop where
  standing : v.sess.standing = w.sess.standing
  trace : ∃ more, v.trace = w.trace ++ more ∧ ∀ e ∈ more, e.completing = false

inductive Turn : World H → World H → Prop where
  | steady {w v : World H} (same : Steady w v) : Turn w v
  | install (env : Env) (t : Torrent) {w : World H} (absent : w.sess.torrent = none ∨ w.sess.metadata ≠ none) :
      Turn w (w.map (installed env t))
  | refetch {w v : World H} (fetching : w.sess.metadata ≠ none)
      (standing : v.sess.standing = { w.sess.standing with status := .fetchingMetadata }) (traced : v.trace = w.trace) :
      Turn w v
  | fail {w v : World H} (standing : v.sess.standing =
      { w.sess.standing with status := .failed, fetching := v.sess.metadata.isSome }) (traced : v.trace = w.trace) :
      Turn w v

theorem Effect.completing_of_routine {e : Effect} (routine : e.routine = true) : e.completing = false := by
  cases e with
  | announced event =>
    cases event with
    | completed => cases routine
    | _ => rfl
  | torrentComplete => cases routine
  | _ => rfl

theorem Calm.steady {w v : World H} (calm : Calm w v) : Steady w v := by
  obtain ⟨more, traced, routine⟩ := calm.trace
  refine ⟨?_, more, traced, fun e member => Effect.completing_of_routine (routine e member)⟩
  have torrent : v.sess.torrent = w.sess.torrent := congrArg Ledger.torrent calm.ledger
  have status : v.sess.status = w.sess.status := congrArg Ledger.status calm.ledger
  have fetching : v.sess.metadata.isSome = w.sess.metadata.isSome := congrArg Ledger.fetching calm.ledger
  have priorities : v.sess.piecePriorities = w.sess.piecePriorities := congrArg Ledger.piecePriorities calm.ledger
  have selected : v.sess.selectedPieceCount = w.sess.selectedPieceCount :=
    congrArg Ledger.selectedPieceCount calm.ledger
  have hold : v.sess.holdDataUntilPriorities = w.sess.holdDataUntilPriorities :=
    congrArg Ledger.holdDataUntilPriorities calm.ledger
  have cfg : v.sess.cfg = w.sess.cfg := congrArg Ledger.cfg calm.ledger
  simp only [standing, torrent, status, calm.released.count, calm.released.haves, fetching, priorities,
    selected, hold, cfg]

theorem steady_map {w : World H} {f : TorrentSession → TorrentSession}
    (standing : (f w.sess).standing = w.sess.standing) : Steady w (w.map f) :=
  ⟨standing, [], by simp [World.map], by simp⟩

theorem steady_emit (w : World H) {e : Effect} (quiet : e.completing = false) : Steady w (w.emit e) :=
  ⟨rfl, [e], rfl, by simpa using quiet⟩

theorem Steady.trans {w v u : World H} (first : Steady w v) (second : Steady v u) : Steady w u := by
  obtain ⟨early, traced, quiet⟩ := first.trace
  obtain ⟨late, traced', quiet'⟩ := second.trace
  refine ⟨second.standing.trans first.standing, early ++ late, by rw [traced', traced, List.append_assoc], ?_⟩
  intro e member
  rcases List.mem_append.mp member with before | after
  · exact quiet e before
  · exact quiet' e after

theorem steady_issueRequest (env : Env) (conn : ConnId) (piece block totalBlocks len : Nat) (w : World H) :
    Steady w (issueRequest env conn piece block totalBlocks len w) := by
  unfold issueRequest
  refine Steady.trans ?_ (calm_mapPeer _ conn _).steady
  refine Steady.trans ?_ (calm_mapCache _ _).steady
  apply steady_map
  simp only [standing, PieceTracker.pieceCount_markBlockRequested,
    PieceTracker.haveBits_markBlockRequested]

theorem steady_storeBytes (conn : ConnId) (index start : Nat) (data : Bytes) (len : Nat) (w : World H) :
    Steady w (storeBytes conn index start data len w) := by
  have marked := fields_markAllCovered index len (blockCountFor len)
    ((w.sess.tracker index).add start (start + data.length)).1 (overlapped start data.length) w.sess.pieces
  unfold storeBytes
  dsimp only
  split
  · exact ⟨rfl, [], by simp [World.map], by simp⟩
  · have stored : ∀ {v : World H} (more : List Effect), v.trace = w.trace ++ more → (∀ e ∈ more, e.completing = false) →
        v.sess.standing = { w.sess.standing with
          pieceCount := v.sess.pieces.pieceCount, haveBits := v.sess.pieces.haveBits } →
        v.sess.pieces.haveBits = w.sess.pieces.haveBits → v.sess.pieces.pieceCount = w.sess.pieces.pieceCount →
        Steady w v := by
      intro v more traced quiet standing haves count
      refine ⟨?_, more, traced, quiet⟩
      rw [standing, haves, count]
      rfl
    split
    · unfold handOver
      split
      · exact stored [] (by simp [World.map]) (by simp) rfl marked.1 marked.2
      · rename_i buf found
        exact stored [.assembled index buf] rfl (by simp [Effect.completing]) rfl marked.1 marked.2
    · exact stored [] (by simp [World.map]) (by simp) rfl marked.1 marked.2

theorem Chore.turn {w v : World H} (chore : Chore w v) : Turn w v := by
  cases chore with
  | part parting => exact .steady parting.calm.steady
  | commit conn piece inside => exact .steady (steady_map rfl)
  | release conn w => exact .steady (steady_map rfl)
  | issue env conn piece block len => exact .steady (steady_issueRequest env conn piece block _ len w)
  | cancel w k => exact .steady (calm_cancelSkipped w k).steady
  | timeout maxTimeouts w toBan k => exact .steady (calm_timeoutBlock maxTimeouts (w, toBan) k).steady
  | withdraw conn index start => exact .steady (calm_cancelPeerRequest conn index start w).steady
  | judge w index => exact .steady (steady_map rfl)
  | take w => exact .steady (steady_map rfl)
  | fetch fetched window traced =>
    obtain ⟨flights, pieces⟩ := fetched.pieces
    refine .steady ⟨?_, [], by simp [traced], by simp⟩
    have torrent : v.sess.torrent = w.sess.torrent := congrArg Ledger.torrent fetched.ledger
    have status : v.sess.status = w.sess.status := congrArg Ledger.status fetched.ledger
    have fetching : v.sess.metadata.isSome = w.sess.metadata.isSome := congrArg Ledger.fetching fetched.ledger
    have priorities : v.sess.piecePriorities = w.sess.piecePriorities := congrArg Ledger.piecePriorities fetched.ledger
    have selected : v.sess.selectedPieceCount = w.sess.selectedPieceCount :=
      congrArg Ledger.selectedPieceCount fetched.ledger
    have hold : v.sess.holdDataUntilPriorities = w.sess.holdDataUntilPriorities :=
      congrArg Ledger.holdDataUntilPriorities fetched.ledger
    have cfg : v.sess.cfg = w.sess.cfg := congrArg Ledger.cfg fetched.ledger
    simp only [standing, torrent, status, pieces, fetching, priorities, selected, hold, cfg]
  | install env t absent => exact .install env t absent
  | refetch fails fetching =>
    refine .refetch fetching ?_ rfl
    obtain ⟨m, found⟩ := Option.ne_none_iff_exists'.mp fetching
    simp [World.map, standing, found]
  | abandon fails fetching => exact .fail rfl rfl
  | fail w => exact .fail rfl rfl

theorem Move.turn {w v : World H} (move : Move w v) : Turn w v := by
  cases move with
  | chore chore => exact chore.turn
  | attach w conn peer unused => exact .steady (steady_map rfl)
  | accept env conn index start data torrent known filled inside blocks =>
    obtain ⟨u, calm, stored⟩ := acceptPiece_eq env conn index start data _ w
    rw [stored]
    exact .steady ((calm.steady.trans (steady_emit u rfl)).trans (steady_storeBytes conn index start data _ _))
  | forget w index => exact .steady ((steady_map rfl).trans (steady_emit _ rfl))

end Turns

/-! ### Data states have metadata -/

def isActive (s : TorrentSession) : Bool :=
  decide (s.status = .downloading) || decide (s.status = .seeding) || decide (s.status = .fetchingMetadata)

/-- A session that downloads or seeds has its metadata; one that runs without is fetching it. -/
structure Informed (s : TorrentSession) : Prop where
  torrent : s.status = .downloading ∨ s.status = .seeding → s.torrent.isSome = true
  fetching : isActive s = true → s.torrent = none → s.status = .fetchingMetadata ∧ s.metadata.isSome = true

/-- The call does not resume a session without metadata, nor start one that has given up fetching it. -/
def Informs {H : Type} (e : Event H) (w : World H) : Prop :=
  match e with
  | .resume => w.sess.status = .paused → w.sess.torrent.isSome = true
  | .start => w.sess.torrent = none → w.sess.metadata.isSome = true
  | _ => True

section Informed
variable {H : Type}

variable {s : TorrentSession}

theorem Informed.of_torrent (arrived : s.torrent.isSome = true) : Informed s := by
  refine ⟨fun _ => arrived, fun _ none => ?_⟩
  rw [none] at arrived
  cases arrived

theorem Informed.of_idle (idle : isActive s = false) : Informed s := by
  refine ⟨?_, ?_⟩
  · rintro (same | same)
    · simp [isActive, same] at idle
    · simp [isActive, same] at idle
  · intro active
    rw [idle] at active
    cases active

theorem Informed.of_fetching (status : s.status = .fetchingMetadata) (fetching : s.metadata.isSome = true) : Informed s := by
  refine ⟨?_, fun _ _ => ⟨status, fetching⟩⟩
  rw [status]
  rintro (same | same)
  · cases same
  · cases same

theorem Informed.congr {s u : TorrentSession} (informed : Informed s) (torrent : u.torrent = s.torrent)
    (status : u.status = s.status) (fetching : u.metadata.isSome = s.metadata.isSome) : Informed u := by
  refine ⟨?_, ?_⟩
  · rw [torrent, status]
    exact informed.torrent
  · rw [isActive, torrent, status, fetching]
    exact informed.fetching

variable {w v : World H}

theorem informed_move (move : Move w v) (informed : Informed w.sess) : Informed v.sess := by
  cases move.turn with
  | steady same =>
    exact informed.congr (congrArg Standing.torrent same.standing) (congrArg Standing.status same.standing)
      (congrArg Standing.fetching same.standing)
  | install env t absent =>
    apply Informed.of_torrent
    rw [show (w.map (installed env t)).sess.torrent = some t from (installed_spec env t w.sess).torrent]
    rfl
  | refetch fetching standing traced =>
    have status : v.sess.status = .fetchingMetadata := congrArg Standing.status standing
    have some : v.sess.metadata.isSome = w.sess.metadata.isSome := congrArg Standing.fetching standing
    exact Informed.of_fetching status (some.trans (Option.isSome_iff_ne_none.mpr fetching))
  | fail standing traced =>
    have status : v.sess.status = .failed := congrArg Standing.status standing
    exact Informed.of_idle (by simp [isActive, status])

theorem refreshCompletion_absent (absent : s.torrent = none) : refreshCompletion s = s := by
  simp [refreshCompletion, absent]

theorem Deed.torrent {host : Host H} {env : Env} {e : Event H} (deed : Deed host env e w v) :
    v.sess.torrent = w.sess.torrent := by
  cases deed with
  | start halted => exact congrArg Kept.torrent (kept_refreshCompletion _)
  | pause running => rfl
  | resume paused => exact congrArg Kept.torrent (kept_resume env w)
  | stop running => exact congrArg Core.torrent (frame_stop host w).core
  | setFilePriority file prio w => exact congrArg Kept.torrent (kept_setFilePriority file prio w.sess)
  | setFilePriorities priorities w => exact congrArg Kept.torrent (kept_setFilePriorities priorities w.sess)
  | setHoldData hold w =>
    exact congrArg Kept.torrent (kept_recomputePriorities { w.sess with holdDataUntilPriorities := hold })
  | @verify piece totalBlocks abs data t w u verifying torrent located written =>
    have stored := idle_writeAbs host abs data (w.map (fun s => { s with verifying := s.verifying.erase piece }))
    rw [written] at stored
    have announced := frame_announceCompletion env
      (((u.map (settlePiece piece)).emit (.cleared piece)).emit (.pieceVerified piece))
    exact (congrArg Core.torrent announced.core).trans (congrArg Ledger.torrent stored.ledger)
  | share state w => rfl

theorem informed_deed {host : Host H} {env : Env} {e : Event H} (deed : Deed host env e w v)
    (informs : Informs e w) (informed : Informed w.sess) : Informed v.sess := by
  cases arrived : w.sess.torrent with
  | some t => exact Informed.of_torrent (by rw [deed.torrent, arrived]; rfl)
  | none =>
    -- without metadata only `resume` and `start` could lead into a running state
    cases deed with
    | start halted =>
      refine Informed.of_fetching ?_ ?_
      · simp [World.map, started, refreshCompletion, arrived]
      · have metadata : (started env w.sess).metadata = w.sess.metadata :=
          congrArg Kept.metadata (kept_refreshCompletion _)
        exact (congrArg Option.isSome metadata).trans (informs arrived)
    | pause running => exact Informed.of_idle rfl
    | resume paused =>
      have present := informs paused
      rw [arrived] at present
      cases present
    | stop running =>
      refine Informed.of_idle ?_
      unfold Session.stop
      rw [if_neg running]
      rfl
    | setFilePriority file prio w =>
      have same : (Session.setFilePriority file prio w.sess).2 = w.sess := by
        simp [Session.setFilePriority, arrived]
      exact informed.congr (congrArg torrent same) (congrArg status same)
        (congrArg (fun s => s.metadata.isSome) same)
    | setFilePriorities priorities w =>
      have same : (Session.setFilePriorities priorities w.sess).2 = w.sess := by
        simp [Session.setFilePriorities, arrived]
      exact informed.congr (congrArg torrent same) (congrArg status same)
        (congrArg (fun s => s.metadata.isSome) same)
    | setHoldData hold w =>
      refine informed.congr ?_ ?_ ?_ <;> simp [World.map, Session.setHoldData, recomputePriorities, arrived]
    | verify verifying torrent located written =>
      rw [torrent] at arrived
      cases arrived
    | share state w => exact informed

theorem informed_applySavedState (informed : Informed s) (haveBytes priorities : Bytes)
    (up down : Nat) (reputation : Option ReputationStore) (now : Nat) :
    Informed (applySavedState haveBytes priorities up down reputation now s).2 := by
  obtain ⟨bits, _, kept⟩ := kept_applySavedState haveBytes priorities up down reputation now s
  have torrent : (applySavedState haveBytes priorities up down reputation now s).2.torrent = s.torrent :=
    congrArg Kept.torrent kept
  have metadata : (applySavedState haveBytes priorities up down reputation now s).2.metadata = s.metadata :=
    congrArg Kept.metadata kept
  cases arrived : s.torrent with
  | some t => exact Informed.of_torrent (by rw [torrent, arrived]; rfl)
  | none =>
    refine informed.congr torrent ?_ (by rw [metadata])
    unfold applySavedState
    split
    · rfl
    · dsimp only
      by_cases empty : priorities = []
      · simp only [if_pos empty]
        cases reputation <;> rw [refreshCompletion_absent (by simpa using arrived)]
      · simp only [if_neg empty, arrived]

theorem informed_initial (initial : Initial s) : Informed s := by
  induction initial with
  | torrent t cfg now => exact Informed.of_torrent rfl
  | magnet ih webSeeds cfg now => exact Informed.of_fetching rfl rfl
  | restored fresh haveBytes priorities up down reputation now informed =>
    exact informed_applySavedState informed haveBytes priorities up down reputation now

/-- In a run that neither resumes a session without metadata nor starts one that gave up fetching it, a
session that downloads or seeds has its metadata, and one that runs without is fetching it. -/
theorem data_states_have_metadata {digests : Digests} {host : Host H} {s : TorrentSession} {io : DiskCache.State H}
    (initial : Initial s) {events : List (Env × Event H)} (along : Along digests host Informs events ⟨s, io, []⟩) :
    Informed (run digests host events ⟨s, io, []⟩).sess :=
  along.invariant (P := fun w => Informed w.sess)
    (fun informs informed => step_preserves (P := fun w => Informed w.sess) informed_move
      (fun deed => informed_deed deed informs informed) informed) (informed_initial initial)

end Informed

def Sample.magnet : World Unit := ⟨fromMagnet (InfoHash.v1 (List.replicate 20 7)) [] .default 0, Sample.io, []⟩

/-- A magnet that is paused and started again goes on fetching its metadata. -/
theorem data_states_have_metadata_restarted :
    Informed (run Sample.digests Sample.host [(Sample.env, .pause), (Sample.env, .start)] Sample.magnet).sess :=
  data_states_have_metadata (.magnet _ _ _ _) ⟨trivial, fun _ => by decide, trivial⟩

/-- A magnet that is paused before its metadata arrived and then resumed downloads without any. -/
theorem resumed_magnet_downloads :
    let resumed := run Sample.digests Sample.host [(Sample.env, .pause), (Sample.env, .resume)] Sample.magnet
    Reachable Sample.digests Sample.host resumed ∧ resumed.sess.status = .downloading ∧ resumed.sess.torrent = none :=
  ⟨⟨_, Sample.io, _, .magnet _ _ _ _, rfl⟩, by decide, by decide⟩

end TypeBit.Session
