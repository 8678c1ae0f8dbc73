import TypeBit.Session.Steps

/-! The assembly of pieces, seen through the moves. Only an accepted Piece message, a verification
outcome, a web seed and the arrival of metadata touch the assembly state; every other move is a frame
step. What the remaining atoms preserve holds along every run. -/

namespace TypeBit.Session
open Metainfo Leech Wire Relation PieceTracker

def Effect.quiet : Effect → Bool
  | .supplied _ _ _ => false
  | .cleared _ => false
  | .assembled _ _ => false
  | _ => true

theorem Effect.quiet_of_routine {e : Effect} (routine : e.routine = true) : e.quiet = true := by
  cases e <;> first | rfl | cases routine

/-- The fields most operations leave exactly as they are. -/
structure Kept where
  torrent : Option Torrent
  pieces : PieceTracker
  assembling : OrdMap Nat Bytes
  metadata : Option MetadataFetch
  webseed : WebSeedState
  pieceBytes : OrdMap Nat PieceBytes
  verifying : OrdMap Nat Nat

def TorrentSession.kept (s : TorrentSession) : Kept :=
  ⟨s.torrent, s.pieces, s.assembling, s.metadata, s.webseed, s.pieceBytes, s.verifying⟩

structure Core where
  torrent : Option Torrent
  pieceCount : Nat
  haveBits : Bitfield
  assembling : OrdMap Nat Bytes
  webseed : WebSeedState
  pieceBytes : OrdMap Nat PieceBytes

def TorrentSession.core (s : TorrentSession) : Core :=
  ⟨s.torrent, s.pieces.pieceCount, s.pieces.haveBits, s.assembling, s.webseed, s.pieceBytes⟩

section Frame
variable {H : Type}

/-- The assembly state stays, metadata never returns, no piece enters verification. -/
structure Frame (w v : World H) : Prop where
  core : v.sess.core = w.sess.core
  metadata : w.sess.metadata = none → v.sess.metadata = none
  verifying : ∀ i tb, v.sess.verifying.get? i = some tb → w.sess.verifying.get? i = some tb
  trace : ∃ more, v.trace = w.trace ++ more ∧ ∀ e ∈ more, e.quiet = true

theorem Frame.refl (w : World H) : Frame w w := ⟨rfl, id, fun _ _ found => found, [], by simp, by simp⟩

theorem Frame.trans {w v u : World H} (first : Frame w v) (second : Frame v u) : Frame w u := by
  refine ⟨second.core.trans first.core, fun none => second.metadata (first.metadata none),
    fun i tb found => first.verifying i tb (second.verifying i tb found), ?_⟩
  obtain ⟨early, traced, quiet⟩ := first.trace
  obtain ⟨late, traced', quiet'⟩ := second.trace
  refine ⟨early ++ late, by rw [traced', traced, List.append_assoc], ?_⟩
  intro e member
  rcases List.mem_append.mp member with before | after
  · exact quiet e before
  · exact quiet' e after

theorem frame_of_kept {w v : World H}
    (same : v.sess.kept = { w.sess.kept with pieces := v.sess.pieces, metadata := v.sess.metadata })
    (count : v.sess.pieces.pieceCount = w.sess.pieces.pieceCount)
    (haves : v.sess.pieces.haveBits = w.sess.pieces.haveBits)
    (gone : w.sess.metadata = none → v.sess.metadata = none) (traced : v.trace = w.trace) : Frame w v := by
  have torrent : v.sess.torrent = w.sess.torrent := congrArg Kept.torrent same
  have assembling : v.sess.assembling = w.sess.assembling := congrArg Kept.assembling same
  have webseed : v.sess.webseed = w.sess.webseed := congrArg Kept.webseed same
  have pieceBytes : v.sess.pieceBytes = w.sess.pieceBytes := congrArg Kept.pieceBytes same
  have verifying : v.sess.verifying = w.sess.verifying := congrArg Kept.verifying same
  refine ⟨?_, gone, fun i tb found => verifying ▸ found, [], by simp [traced], by simp⟩
  simp only [TorrentSession.core, torrent, count, haves, assembling, webseed, pieceBytes]

theorem frame_of_same {w v : World H} (same : v.sess.kept = w.sess.kept) (traced : v.trace = w.trace) : Frame w v := by
  have pieces : v.sess.pieces = w.sess.pieces := congrArg Kept.pieces same
  have metadata : v.sess.metadata = w.sess.metadata := congrArg Kept.metadata same
  refine frame_of_kept ?_ (congrArg pieceCount pieces) (congrArg haveBits pieces)
    metadata.trans traced
  rw [same, pieces, metadata]
  rfl

theorem frame_map {w : World H} {f : TorrentSession → TorrentSession} (same : (f w.sess).kept = w.sess.kept) :
    Frame w (w.map f) := frame_of_same same rfl

theorem frame_emit (w : World H) {e : Effect} (quiet : e.quiet = true) : Frame w (w.emit e) :=
  ⟨rfl, id, fun _ _ found => found, [e], rfl, by simpa using quiet⟩

theorem Calm.frame {w v : World H} (calm : Calm w v) : Frame w v := by
  have torrent : v.sess.torrent = w.sess.torrent := congrArg Ledger.torrent calm.ledger
  have assembling : v.sess.assembling = w.sess.assembling := congrArg Ledger.assembling calm.ledger
  have fetching : v.sess.metadata.isSome = w.sess.metadata.isSome := congrArg Ledger.fetching calm.ledger
  have webseed : v.sess.webseed = w.sess.webseed := congrArg Ledger.webseed calm.ledger
  have pieceBytes : v.sess.pieceBytes = w.sess.pieceBytes := congrArg Ledger.pieceBytes calm.ledger
  have verifying : v.sess.verifying = w.sess.verifying := congrArg Ledger.verifying calm.ledger
  obtain ⟨more, traced, routine⟩ := calm.trace
  refine ⟨?_, ?_, fun i tb found => verifying ▸ found, more, traced, ?_⟩
  · simp only [TorrentSession.core, torrent, calm.released.count, calm.released.haves, assembling, webseed, pieceBytes]
  · intro none
    rw [none] at fetching
    exact Option.isNone_iff_eq_none.mp (by simpa using fetching)
  · exact fun e member => Effect.quiet_of_routine (routine e member)

end Frame

/-! ### Requests -/

section Requests
variable {H : Type} (env : Env)

theorem frame_issueRequest (conn : ConnId) (piece block totalBlocks len : Nat) (w : World H) :
    Frame w (issueRequest env conn piece block totalBlocks len w) := by
  unfold issueRequest
  refine Frame.trans ?_ (calm_mapPeer _ conn _).frame
  refine Frame.trans ?_ (calm_mapCache _ _).frame
  exact frame_of_kept rfl (pieceCount_markBlockRequested _ _ _ _)
    (haveBits_markBlockRequested _ _ _ _) id rfl

theorem onPiece_cases (conn : ConnId) (index start : Nat) (data : Bytes) (w : World H) :
    (onPiece env conn index start data w).2 = w ∨
      ∃ t info u, w.sess.torrent = some t ∧ t.pieceInfo index = .ok info ∧ data.length ≠ 0 ∧
        start + data.length ≤ info.len ∧ 0 < blockCountFor info.len ∧ Calm w u ∧
        (onPiece env conn index start data w).2 =
          storeBytes conn index start data info.len (u.emit (.supplied index start data)) := by
  unfold onPiece
  split
  · exact Or.inl rfl
  · rename_i t torrent
    split
    · exact Or.inl rfl
    · rename_i info known
      split
      · exact Or.inl rfl
      · rename_i valid
        split
        · exact Or.inl rfl
        · rename_i counted
          obtain ⟨u, calm, stored⟩ := acceptPiece_eq env conn index start data info.len w
          exact Or.inr ⟨t, info, u, torrent, known, by omega, by omega, by omega, calm, stored⟩

end Requests

/-! ### Atoms -/

structure Installed (t : Torrent) (s u : TorrentSession) : Prop where
  torrent : u.torrent = some t
  metadata : u.metadata = none
  pieces : u.pieces = PieceTracker.new t.pieceCount t.pieceLength
  assembling : u.assembling = s.assembling
  webseed : u.webseed = s.webseed
  pieceBytes : u.pieceBytes = s.pieceBytes
  verifying : u.verifying = s.verifying

inductive Atom {H : Type} : World H → World H → Prop where
  | frame {w v : World H} (kept : Frame w v) : Atom w v
  | store {w : World H} (conn : ConnId) (index start : Nat) (data : Bytes) {t : Torrent} {info : PieceInfo}
      (torrent : w.sess.torrent = some t) (known : t.pieceInfo index = .ok info) (filled : data.length ≠ 0)
      (inside : start + data.length ≤ info.len) (blocks : 0 < blockCountFor info.len) :
      Atom w (storeBytes conn index start data info.len (w.emit (.supplied index start data)))
  | settle (w : World H) (index : Nat) : Atom w ((w.map (settlePiece index)).emit (.cleared index))
  | forget (w : World H) (index : Nat) : Atom w ((w.map (forgetPiece index)).emit (.cleared index))
  | fetch {w v : World H} (fetched : Fetched (WebSound w.sess) w.sess v.sess) (traced : v.trace = w.trace) : Atom w v
  | install {w v : World H} (t : Torrent) (absent : w.sess.torrent = none ∨ w.sess.metadata ≠ none)
      (installed : Installed t w.sess v.sess) (traced : v.trace = w.trace) : Atom w v

abbrev Atoms {H : Type} : World H → World H → Prop := ReflTransGen Atom

section Atoms
variable {H : Type}

theorem Frame.atoms {w v : World H} (kept : Frame w v) : Atoms w v := ReflTransGen.single (.frame kept)

theorem Calm.atoms {w v : World H} (calm : Calm w v) : Atoms w v := calm.frame.atoms

theorem frame_eraseVerifying (piece : Nat) (w : World H) :
    Frame w (w.map (fun s => { s with verifying := s.verifying.erase piece })) := by
  refine ⟨rfl, id, ?_, [], by simp [World.map], by simp⟩
  intro i tb found
  exact OrdMap.get?_of_erase found

theorem frame_announceCompletion (env : Env) (w : World H) : Frame w (announceCompletion env w) := by
  unfold announceCompletion
  split_ifs
  · exact ((frame_map rfl).trans (frame_emit _ rfl)).trans (frame_emit _ rfl)
  · exact Frame.refl w

theorem kept_refreshCompletion (s : TorrentSession) : (refreshCompletion s).kept = s.kept := by
  unfold refreshCompletion
  split_ifs <;> rfl

theorem kept_recomputePriorities (s : TorrentSession) : (recomputePriorities s).kept = s.kept := by
  unfold recomputePriorities
  split
  · rfl
  · exact kept_refreshCompletion _

theorem frame_setMetadata {w : World H} (fetching : w.sess.metadata ≠ none) {f : TorrentSession → TorrentSession}
    (same : (f w.sess).kept = { w.sess.kept with metadata := (f w.sess).metadata }) : Frame w (w.map f) := by
  have pieces : (f w.sess).pieces = w.sess.pieces := congrArg Kept.pieces same
  refine frame_of_kept ?_ (congrArg pieceCount pieces) (congrArg haveBits pieces) ?_ rfl
  · simp only [World.map]
    rw [same, pieces]
    rfl
  · exact fun none => absurd none fetching

theorem installed_spec (env : Env) (t : Torrent) (s : TorrentSession) : Installed t s (installed env t s) := by
  have same := kept_recomputePriorities
    { s with
      pieces := PieceTracker.new t.pieceCount t.pieceLength
      availability := List.replicate t.pieceCount 0
      scheduler := Scheduler.new t s.cfg.scheduler
      torrent := some t }
  exact ⟨congrArg Kept.torrent same, rfl, congrArg Kept.pieces same, congrArg Kept.assembling same,
    congrArg Kept.webseed same, congrArg Kept.pieceBytes same, congrArg Kept.verifying same⟩

theorem Chore.atoms {w v : World H} (chore : Chore w v) : Atoms w v := by
  cases chore with
  | part parting => exact parting.calm.atoms
  | commit conn piece inside => exact (calm_mapPeer w conn _).atoms
  | release conn w => exact (calm_mapPeer w conn _).atoms
  | issue env conn piece block len => exact (frame_issueRequest env conn piece block _ len w).atoms
  | cancel w k => exact (calm_cancelSkipped w k).atoms
  | timeout maxTimeouts w toBan k => exact (calm_timeoutBlock maxTimeouts (w, toBan) k).atoms
  | withdraw conn index start => exact (calm_cancelPeerRequest conn index start w).atoms
  | judge w index => exact (frame_eraseVerifying index w).atoms
  | take w => exact Frame.atoms (frame_map rfl)
  | fetch fetched window traced => exact ReflTransGen.single (.fetch fetched traced)
  | install env t absent => exact ReflTransGen.single (.install t absent (installed_spec env t w.sess) rfl)
  | refetch fails fetching => exact Frame.atoms (frame_setMetadata fetching rfl)
  | abandon fails fetching => exact Frame.atoms (frame_setMetadata fetching rfl)
  | fail w => exact Frame.atoms (frame_map rfl)

theorem Move.atoms {w v : World H} (move : Move w v) : Atoms w v := by
  cases move with
  | chore chore => exact chore.atoms
  | attach w conn peer unused => exact Calm.atoms (calm_map rfl)
  | accept env conn index start data torrent known filled inside blocks =>
    obtain ⟨u, calm, stored⟩ := acceptPiece_eq env conn index start data _ w
    rw [stored]
    refine calm.atoms.tail (Atom.store conn index start data ?_ known filled inside blocks)
    exact (congrArg Ledger.torrent calm.ledger).trans torrent
  | forget w index => exact ReflTransGen.single (.forget w index)

theorem frame_stop (host : Host H) (w : World H) : Frame w (stop host w) := by
  unfold stop
  split
  · exact Frame.refl w
  · have closed := (idle_emit w (e := .announced .stopped) rfl).trans
      (Idle.foldl (fun (v : World H) c => idle_emit v (e := .closed c) rfl) w.sess.peers.keys _)
    exact closed.calm.frame.trans (frame_of_kept rfl rfl rfl id rfl)

theorem kept_setFilePriority (file : Nat) (prio : FilePriority) (s : TorrentSession) :
    (setFilePriority file prio s).2.kept = s.kept := by
  unfold setFilePriority
  split
  · rfl
  · split
    · rfl
    · exact kept_recomputePriorities _

theorem kept_setFilePriorities (priorities : List FilePriority) (s : TorrentSession) :
    (setFilePriorities priorities s).2.kept = s.kept := by
  unfold setFilePriorities
  split
  · rfl
  · dsimp only
    split
    · exact kept_recomputePriorities _
    · exact (kept_refreshCompletion _).trans (kept_recomputePriorities _)

theorem kept_resume (env : Env) (w : World H) : (resume env w).sess.kept = w.sess.kept := by
  unfold resume
  split
  · rfl
  · exact kept_refreshCompletion _

theorem Deed.atoms {host : Host H} {env : Env} {e : Event H} {w v : World H} (deed : Deed host env e w v) :
    Atoms w v := by
  cases deed with
  | start halted => exact Frame.atoms (frame_map (kept_refreshCompletion _))
  | pause running => exact Frame.atoms ((frame_map rfl).trans (frame_emit _ rfl))
  | resume paused =>
    refine Frame.atoms (frame_of_same (kept_resume env w) ?_)
    rw [Session.resume, if_neg (not_not.mpr paused)]
    rfl
  | stop running => exact (frame_stop host w).atoms
  | setFilePriority file prio w => exact Frame.atoms (frame_map (kept_setFilePriority file prio _))
  | setFilePriorities priorities w => exact Frame.atoms (frame_map (kept_setFilePriorities priorities _))
  | setHoldData hold w => exact Frame.atoms (frame_map (kept_recomputePriorities _))
  | @verify piece totalBlocks abs data t w u verifying torrent located written =>
    have stored := idle_writeAbs host abs data (w.map (fun s => { s with verifying := s.verifying.erase piece }))
    rw [written] at stored
    refine ReflTransGen.trans ((frame_eraseVerifying piece w).trans stored.calm.frame).atoms ?_
    refine ReflTransGen.head (Atom.settle u piece) ?_
    exact ((frame_emit _ rfl).trans (frame_announceCompletion env _)).atoms
  | share state w => exact Frame.atoms (frame_of_kept rfl rfl rfl id rfl)

theorem run_of_atoms {P : World H → Prop} (each : ∀ {w v : World H}, Atom w v → P w → P v) (digests : Digests)
    (host : Host H) (events : List (Env × Event H)) {w : World H} (start : P w) : P (run digests host events w) := by
  have along : ∀ {w v : World H}, Atoms w v → P w → P v := by
    intro w v atoms start
    induction atoms with
    | refl => exact start
    | tail _ last ih => exact each last ih
  exact run_invariant (fun move => along move.atoms) (fun deed => along deed.atoms) events start

end Atoms
end TypeBit.Session
