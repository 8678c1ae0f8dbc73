import TypeBit.Session.Fetches

/-! The events of a run, one after the other. Messages, bad verdicts and the work of a tick are
sequences of moves; a control call or a good verdict first does its own deed. -/

namespace TypeBit.Session
open Metainfo Leech Wire Relation

/-! ### Messages -/

section Dispatch
variable {H : Type} (digests : Digests) (host : Host H) (env : Env)

theorem errands_dispatch (conn : ConnId) {msg : Message} (other : ∀ index start data, msg ≠ .piece index start data)
    (w : World H) : Errands w (dispatch digests host env conn msg w).2 := by
  have peerStep : ∀ {f : Peer → Peer}, (∀ p, burden (f p) = burden p) → Errands w (w.mapPeer conn f) :=
    fun same => (idle_mapPeer w conn same).errands
  have claimed : ∀ piece p, burden (notePiece piece p) = burden p := by
    intro piece p
    unfold notePiece
    split_ifs <;> rfl
  cases msg with
  | choke => exact peerStep (f := fun p => { p with peerChoking := true }) (fun _ => rfl)
  | unchoke => exact peerStep (f := fun p => { p with peerChoking := false }) (fun _ => rfl)
  | interested => exact peerStep (f := fun p => { p with peerInterested := true }) (fun _ => rfl)
  | notInterested => exact peerStep (f := fun p => { p with peerInterested := false }) (fun _ => rfl)
  | haves piece => exact (peerStep (claimed piece)).trans (idle_availabilityChanged conn _).errands
  | bitfield bytes => exact (idle_onBitfield conn bytes w).errands
  | haveAll => exact (idle_onHaveAllNone conn true w).errands
  | haveNone => exact (idle_onHaveAllNone conn false w).errands
  | request index start length => exact (idle_onRequest host env conn index start length w).errands
  | piece index start data => exact absurd rfl (other index start data)
  | cancel index start length => exact errands_cancelPeerRequest conn index start w
  | port p => exact ReflTransGen.refl
  | extended id payload => exact errands_onExtended digests host env conn id payload w
  | suggest piece => exact peerStep (claimed piece)
  | allowedFast piece => exact peerStep (claimed piece)
  | reject index start length => exact ReflTransGen.refl
  | keepAlive => exact ReflTransGen.refl

theorem moves_dispatch (conn : ConnId) (msg : Message) (w : World H) :
    Moves w (dispatch digests host env conn msg w).2 := by
  by_cases piece : ∃ index start data, msg = .piece index start data
  · obtain ⟨index, start, data, rfl⟩ := piece
    exact moves_onPiece env conn index start data w
  · refine (errands_dispatch digests host env conn ?_ w).chores.moves
    rintro index start data rfl
    exact piece ⟨index, start, data, rfl⟩

theorem moves_drain (conn : ConnId) (fuel : Nat) (w : World H) : Moves w (drain digests host env conn fuel w) := by
  induction fuel generalizing w with
  | zero => exact ReflTransGen.refl
  | succ fuel ih =>
    rw [drain]
    split
    · exact ReflTransGen.refl
    · rename_i p found
      have polled := idle_mapPeer w conn (f := fun q => { q with msgs := p.msgs.poll.2 }) (fun _ => rfl)
      refine polled.moves.trans ?_
      dsimp only
      generalize w.mapPeer conn _ = v
      split
      · exact ReflTransGen.refl
      · exact (partings_noteProtocolViolation env conn v).moves
      · rename_i msg whole
        have handled := moves_dispatch digests host env conn msg v
        split
        · rename_i u done
          rw [done] at handled
          exact handled.trans (ih u)
        · rename_i u failed
          rw [failed] at handled
          exact handled.trans (partings_noteProtocolViolation env conn u).moves

theorem moves_onHandshakeData (conn : ConnId) (buf : Bytes) (w : World H) :
    Moves w (onHandshakeData digests host env conn buf w) := by
  unfold onHandshakeData
  split
  · split
    · exact (partings_dropPeer env conn w).moves
    · rename_i their parsed
      dsimp only
      have fed := idle_mapPeer w conn
        (f := fun p => { p with handshakeBuf := [], msgs := p.msgs.feed (buf.drop HANDSHAKE_LEN) }) (fun _ => rfl)
      refine fed.moves.trans ?_
      generalize w.mapPeer conn _ = v
      have shaken := partings_onHandshake env conn their v
      split
      · rename_i u failed
        rw [failed] at shaken
        exact Partings.moves (shaken.trans (partings_dropPeer env conn u))
      · rename_i u done
        rw [done] at shaken
        exact shaken.moves.trans (moves_drain digests host env conn _ u)
  · exact (idle_mapPeer w conn (f := fun p => { p with handshakeBuf := buf }) (fun _ => rfl)).moves

theorem moves_onData (conn : ConnId) (data : Bytes) (w : World H) : Moves w (onData digests host env conn data w) := by
  unfold onData
  split
  · exact ReflTransGen.refl
  · rename_i peer found
    dsimp only
    have counted := idle_mapPeer w conn (f := fun p => p.onDataIn data.length env.now) (fun _ => rfl)
    refine counted.moves.trans ?_
    generalize w.mapPeer conn _ = v
    split
    · exact moves_onHandshakeData digests host env conn _ v
    · split
      · have fed := idle_mapPeer v conn (f := fun p => { p with msgs := p.msgs.feed data }) (fun _ => rfl)
        exact fed.moves.trans (moves_drain digests host env conn _ _)
      · exact moves_drain digests host env conn _ v

end Dispatch

/-! ### Deeds -/

/-- What a control call or a good verdict does before anything else, and what other sessions do to the cache. -/
inductive Deed {H : Type} (host : Host H) (env : Env) : Event H → World H → World H → Prop where
  | start {w : World H} (halted : w.sess.status ≠ .downloading ∧ w.sess.status ≠ .seeding) :
      Deed host env .start w (w.map (started env))
  | pause {w : World H} (running : w.sess.status ≠ .paused) :
      Deed host env .pause w ((w.map (fun s => { s with status := .paused })).emit (.announced .stopped))
  | resume {w : World H} (paused : w.sess.status = .paused) : Deed host env .resume w (Session.resume env w)
  | stop {w : World H} (running : w.sess.status ≠ .stopped) : Deed host env .stop w (Session.stop host w)
  | setFilePriority (file : Nat) (prio : FilePriority) (w : World H) :
      Deed host env (.setFilePriority file prio) w (w.map (fun s => (Session.setFilePriority file prio s).2))
  | setFilePriorities (priorities : List FilePriority) (w : World H) :
      Deed host env (.setFilePriorities priorities) w (w.map (fun s => (Session.setFilePriorities priorities s).2))
  | setHoldData (hold : Bool) (w : World H) :
      Deed host env (.setHoldData hold) w (w.map (Session.setHoldData hold))
  | verify {piece totalBlocks abs : Nat} {data : Bytes} {t : Torrent} {w v : World H}
      (verifying : w.sess.verifying.get? piece = some totalBlocks) (torrent : w.sess.torrent = some t)
      (located : t.pieceAbsOffset piece = .ok abs)
      (written : writeAbs host abs data (w.map (fun s => { s with verifying := s.verifying.erase piece })) = (.ok (), v)) :
      Deed host env (.verified piece true data) w
        (announceCompletion env (((v.map (settlePiece piece)).emit (.cleared piece)).emit (.pieceVerified piece)))
  | share (state : DiskCache.State H) (w : World H) : Deed host env (.io state) w { w with io := state }

section Deeds
variable {H : Type} (host : Host H) (env : Env)

theorem start_cases (w : World H) :
    (start host env w).2 = w ∨
      ∃ u, Deed host env .start w u ∧ Idle u (start host env w).2 := by
  rw [start_eq]
  split
  · exact Or.inl rfl
  · rename_i halted
    rw [not_or] at halted
    refine Or.inr ⟨_, Deed.start halted, ?_⟩
    have opened := idle_openFiles host (w.map (started env))
    split
    · rename_i u failed
      rw [failed] at opened
      exact opened
    · rename_i u done
      rw [done] at opened
      refine opened.trans ?_
      dsimp only
      exact idle_map rfl

theorem pause_cases (w : World H) :
    pause env w = w ∨ ∃ u, Deed host env .pause w u ∧ Errands u (pause env w) := by
  unfold pause
  split
  · exact Or.inl rfl
  · rename_i running
    refine Or.inr ⟨_, Deed.pause running, ?_⟩
    have dropped : ∀ (v : World H) (c : ConnId), Partings v (dropPeer env c v) := fun v c => partings_dropPeer env c v
    exact (Partings.foldl dropped _ _).errands

theorem verified_cases (piece : Nat) (ok : Bool) (data : Bytes) (w : World H) :
    Moves w (onVerified host env piece ok data w).2 ∨
      Deed host env (.verified piece ok data) w (onVerified host env piece ok data w).2 := by
  unfold onVerified
  split
  · exact Or.inl ReflTransGen.refl
  · rename_i totalBlocks verifying
    have judged := (Chore.judge w piece).chores.moves
    dsimp only
    split
    · exact Or.inl judged
    · rename_i t torrent
      cases ok with
      | false => exact Or.inl (judged.trans (moves_completePieceFailed env piece totalBlocks _))
      | true =>
        rw [if_pos rfl]
        unfold completePieceVerified
        split
        · exact Or.inl judged
        · rename_i abs located
          have written := idle_writeAbs host abs data (w.map (fun s => { s with verifying := s.verifying.erase piece }))
          split
          · rename_i e v failed
            rw [failed] at written
            exact Or.inl (judged.trans written.moves)
          · rename_i v done
            exact Or.inr (Deed.verify verifying torrent located done)

theorem errands_reopenFiles (w : World H) : Errands w (reopenFiles host w) := by
  have opened := idle_openFiles host w
  unfold reopenFiles
  split
  · rename_i u done
    rw [done] at opened
    exact opened.errands
  · rename_i u failed
    rw [failed] at opened
    exact opened.errands.tail (errand_fail u)

end Deeds

/-! ### Events -/

section Step
variable {H : Type} (digests : Digests) (host : Host H)

def Event.spoken : Event H → Bool
  | .attach _ _ _ _ => true
  | .data _ _ => true
  | .verified _ _ _ => true
  | _ => false

theorem step_chores (env : Env) {e : Event H} (silent : e.spoken = false) (w : World H) :
    Chores w (step digests host env e w) ∨
      ∃ u, Deed host env e w u ∧ Chores u (step digests host env e w) := by
  have unchanged : ∀ {v : World H}, v = w → Chores w v := by
    rintro v rfl
    exact ReflTransGen.refl
  cases e with
  | attach conn addr outbound source => cases silent
  | connectDone conn =>
    exact Or.inl (idle_mapPeer w conn (f := fun p => { p with phase := .handshake, connectedAt := env.now })
      (fun _ => rfl)).chores
  | data conn bytes => cases silent
  | disconnect conn => exact Or.inl (partings_onDisconnect env conn w).chores
  | drop conn => exact Or.inl (partings_dropPeer env conn w).chores
  | evict conn => exact Or.inl (partings_evict env conn w).chores
  | ban conn addr reason => exact Or.inl (partings_banPeer env conn addr reason w).chores
  | verified piece ok data => cases silent
  | takePendingVerify => exact Or.inl (Chore.take w).chores
  | sweepTimeouts => exact Or.inl (errands_sweepRequestTimeouts env w).chores
  | fill conn => exact Or.inl (chores_fillLoop env conn 512 w)
  | cancelSkipped => exact Or.inl (errands_cancelSkippedPieceRequests w).chores
  | setFilePriority file prio => exact Or.inr ⟨_, .setFilePriority file prio w, ReflTransGen.refl⟩
  | setFilePriorities priorities => exact Or.inr ⟨_, .setFilePriorities priorities w, ReflTransGen.refl⟩
  | setHoldData hold => exact Or.inr ⟨_, .setHoldData hold w, ReflTransGen.refl⟩
  | start =>
    rcases start_cases host env w with same | ⟨u, deed, idle⟩
    · exact Or.inl (unchanged same)
    · exact Or.inr ⟨u, deed, idle.chores⟩
  | pause =>
    rcases pause_cases host env w with same | ⟨u, deed, errands⟩
    · exact Or.inl (unchanged same)
    · exact Or.inr ⟨u, deed, errands.chores⟩
  | resume =>
    by_cases paused : w.sess.status = .paused
    · exact Or.inr ⟨_, .resume paused, ReflTransGen.refl⟩
    · exact Or.inl (unchanged (if_pos paused))
  | stop =>
    by_cases stopped : w.sess.status = .stopped
    · exact Or.inl (unchanged (if_pos stopped))
    · exact Or.inr ⟨_, .stop stopped, ReflTransGen.refl⟩
  | reopenFiles => exact Or.inl (errands_reopenFiles host w).chores
  | announceDue => exact Or.inl (idle_announceDue env w).chores
  | housekeeping => exact Or.inl (idle_map (f := Session.housekeeping env) rfl).chores
  | unchoke conns => exact Or.inl (idle_map (ledger_applyUnchoke _ conns w.sess)).chores
  | broadcastPex => exact Or.inl (idle_map (ledger_foldl (fun s c => ledger_broadcastPexTo c s) _ w.sess)).chores
  | kickMetadata =>
    rw [step]
    split
    · exact Or.inl (idle_kickMetadata env w).chores
    · exact Or.inl ReflTransGen.refl
  | install t =>
    rw [step]
    split
    · rename_i absent
      exact Or.inl (errands_installTorrent host env t (Or.inl (Option.isNone_iff_eq_none.mp absent))).chores
    · exact Or.inl ReflTransGen.refl
  | driveWebseed => exact Or.inl (chores_driveWebseed host env w)
  | rangeJobDone id result => exact Or.inl (chores_of_fetched (fetched_onRangeJobDone (fun sound => sound) id result env.now))
  | discovered addr source => exact Or.inl (idle_map (ledger_enqueuePeer addr source env.now w.sess)).chores
  | takeConnectQueue => exact Or.inl (idle_map (f := fun s => { s with connectQueue := [] }) rfl).chores
  | sent conn n => exact Or.inl (idle_mapPeer w conn (f := fun p => { p with out := p.out.drop n }) (fun _ => rfl)).chores
  | io state => exact Or.inr ⟨_, .share state w, ReflTransGen.refl⟩

theorem step_cases (env : Env) (e : Event H) (w : World H) :
    Moves w (step digests host env e w) ∨
      ∃ u, Deed host env e w u ∧ Moves u (step digests host env e w) := by
  cases silent : e.spoken with
  | false =>
    rcases step_chores digests host env silent w with chores | ⟨u, deed, chores⟩
    · exact Or.inl chores.moves
    · exact Or.inr ⟨u, deed, chores.moves⟩
  | true =>
    cases e with
    | attach conn addr outbound source => exact Or.inl (moves_attachPeer env conn addr outbound source w)
    | data conn bytes => exact Or.inl (moves_onData digests host env conn bytes w)
    | verified piece ok data =>
      exact (verified_cases host env piece ok data w).imp id (fun deed => ⟨_, deed, ReflTransGen.refl⟩)
    | _ => cases silent

variable {digests host}

theorem step_preserves {P : World H → Prop} (moved : ∀ {w v : World H}, Move w v → P w → P v) {env : Env} {e : Event H}
    {w : World H} (done : ∀ {v : World H}, Deed host env e w v → P v) (start : P w) :
    P (step digests host env e w) := by
  rcases step_cases digests host env e w with moves | ⟨u, deed, moves⟩
  · exact moves.invariant moved start
  · exact moves.invariant moved (done deed)

/-- Every event of a run meets a condition on the state it finds. -/
def Along (digests : Digests) (host : Host H) (condition : Event H → World H → Prop) :
    List (Env × Event H) → World H → Prop
  | [], _ => True
  | e :: tail, w => condition e.2 w ∧ Along digests host condition tail (step digests host e.1 e.2 w)

theorem Along.invariant {condition : Event H → World H → Prop} {P : World H → Prop}
    (each : ∀ {env : Env} {e : Event H} {w : World H}, condition e w → P w → P (step digests host env e w))
    {events : List (Env × Event H)} {w : World H} (along : Along digests host condition events w) (start : P w) :
    P (run digests host events w) := by
  induction events generalizing w with
  | nil => exact start
  | cons e tail ih => exact ih along.2 (each along.1 start)

theorem Along.begins {condition : Event H → World H → Prop} {events early : List (Env × Event H)} {w : World H}
    (along : Along digests host condition events w) (begins : early <+: events) :
    Along digests host condition early w := by
  induction early generalizing events w with
  | nil => exact trivial
  | cons e tail ih =>
    obtain ⟨late, rfl⟩ := begins
    exact ⟨along.1, ih along.2 (List.prefix_append tail late)⟩

theorem along_true (events : List (Env × Event H)) (w : World H) : Along digests host (fun _ _ => True) events w := by
  induction events generalizing w with
  | nil => exact trivial
  | cons e tail ih => exact ⟨trivial, ih _⟩

theorem run_invariant {P : World H → Prop} (moved : ∀ {w v : World H}, Move w v → P w → P v)
    (done : ∀ {env : Env} {e : Event H} {w v : World H}, Deed host env e w v → P w → P v)
    (events : List (Env × Event H)) {w : World H} (start : P w) : P (run digests host events w) :=
  (along_true events w).invariant (fun _ before => step_preserves moved (fun deed => done deed before) before) start

end Step
end TypeBit.Session
