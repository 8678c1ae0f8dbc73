import TypeBit.Session.Hearing
import TypeBit.Session.Completion

/-! The messages of a run, each with the world it meets. Between two of them the side of the session shifts; so what
every shift and every message preserves holds whenever a message arrives, and at the end of the run. -/

namespace TypeBit.Session
open Metainfo Leech Wire

structure Encounter (H : Type) where
  env : Env
  conn : ConnId
  msg : Message
  world : World H

section Encounters
variable {H : Type} (digests : Digests) (host : Host H) (env : Env)

def Encounter.outcome (e : Encounter H) : World H := (dispatch digests host e.env e.conn e.msg e.world).2

def drained (conn : ConnId) : Nat → World H → List (Encounter H)
  | 0, _ => []
  | fuel + 1, w =>
      match w.sess.peers.get? conn with
      | none => []
      | some p =>
          match p.msgs.poll with
          | (polled, msgs) =>
              let w := w.mapPeer conn (fun p => { p with msgs := msgs })
              match polled with
              | .ok none => []
              | .error _ => []
              | .ok (some msg) =>
                  ⟨env, conn, msg, w⟩ ::
                    match dispatch digests host env conn msg w with
                    | (.ok _, w) => drained conn fuel w
                    | (.error _, _) => []

def drainedAll (conn : ConnId) (w : World H) : List (Encounter H) :=
  drained digests host env conn (((w.sess.peers.get? conn).map (fun p => p.msgs.buf.length)).getD 0 + 1) w

def afterHandshake (conn : ConnId) (buf : Bytes) (w : World H) : List (Encounter H) :=
  if buf.length ≥ HANDSHAKE_LEN then
    match Handshake.parse (buf.take HANDSHAKE_LEN) with
    | .error _ => []
    | .ok their =>
        let w := w.mapPeer conn (fun p =>
          { p with handshakeBuf := [], msgs := p.msgs.feed (buf.drop HANDSHAKE_LEN) })
        match onHandshake env conn their w with
        | (.error _, _) => []
        | (.ok _, w) => drainedAll digests host env conn w
  else []

def inbound (conn : ConnId) (data : Bytes) (w : World H) : List (Encounter H) :=
  match w.sess.peers.get? conn with
  | none => []
  | some peer =>
      let w := w.mapPeer conn (fun p => p.onDataIn data.length env.now)
      if peer.phase = .handshake then afterHandshake digests host env conn (peer.handshakeBuf ++ data) w
      else
        let w := if peer.phase = .ready ∧ peer.handshakeBuf = [] then
          w.mapPeer conn (fun p => { p with msgs := p.msgs.feed data }) else w
        drainedAll digests host env conn w

def messagesOf (e : Event H) (w : World H) : List (Encounter H) :=
  match e with
  | .data conn bytes => inbound digests host env conn bytes w
  | _ => []

def encounters : List (Env × Event H) → World H → List (Encounter H)
  | [], _ => []
  | e :: tail, w => messagesOf digests host e.1 e.2 w ++ encounters tail (step digests host e.1 e.2 w)

/-! ### The way from message to message -/

/-- From one world through the messages of a list to another, with shifts in between. -/
inductive Path : World H → List (Encounter H) → World H → Prop where
  | rest (w : World H) : Path w [] w
  | shift {w v u : World H} {met : List (Encounter H)} (shifts : Shifts w.sess.side v.sess.side) (path : Path v met u) :
      Path w met u
  | hear (e : Encounter H) {u : World H} {met : List (Encounter H)} (path : Path (e.outcome digests host) met u) :
      Path e.world (e :: met) u

variable {digests host env}

variable {w v : World H}

theorem path_of_shifts (shifts : Shifts w.sess.side v.sess.side) : Path digests host w [] v :=
  .shift shifts (.rest v)

theorem path_of_same (same : v.sess.side = w.sess.side) : Path digests host w [] v :=
  path_of_shifts (shifts_of_eq same)

def Onward (P : List (Encounter H) → Side → Prop) (past : List (Encounter H)) : List (Encounter H) → Prop
  | [] => True
  | e :: tail => P past e.world.sess.side ∧ Onward P (past ++ [e]) tail

variable {P : List (Encounter H) → Side → Prop}

theorem onward_append (past met more : List (Encounter H)) :
    Onward P past (met ++ more) ↔ Onward P past met ∧ Onward P (past ++ met) more := by
  induction met generalizing past with
  | nil => simp [Onward]
  | cons e tail ih => simp [Onward, ih, and_assoc]

theorem Onward.here {past front back : List (Encounter H)} {e : Encounter H}
    (onward : Onward P past (front ++ e :: back)) : P (past ++ front) e.world.sess.side :=
  ((onward_append past front (e :: back)).mp onward).2.1

variable {Fine : Encounter H → Prop}

theorem Path.history (shifted : ∀ {past x y}, Shift x y → P past x → P past y)
    (hears : ∀ past e, Fine e → P past e.world.sess.side → P (past ++ [e]) (e.outcome digests host).sess.side) {met : List (Encounter H)} (path : Path digests host w met v) (past : List (Encounter H))
    (fine : ∀ e ∈ met, Fine e) (start : P past w.sess.side) : P (past ++ met) v.sess.side ∧ Onward P past met := by
  induction path generalizing past with
  | rest w =>
    rw [List.append_nil]
    exact ⟨start, trivial⟩
  | shift shifts _ ih => exact ih past fine (shifts.invariant (P := P past) shifted start)
  | hear e _ ih =>
    have good := fine e List.mem_cons_self
    obtain ⟨ends, onward⟩ := ih (past ++ [e]) (fun e member => fine e (List.mem_cons_of_mem _ member))
      (hears past e good start)
    rw [List.append_assoc, List.singleton_append] at ends
    exact ⟨ends, start, onward⟩

variable (digests host env)

theorem path_drain (conn : ConnId) (fuel : Nat) (w : World H) :
    Path digests host w (drained digests host env conn fuel w) (drain digests host env conn fuel w) := by
  induction fuel generalizing w with
  | zero => exact .rest w
  | succ fuel ih =>
    rw [drained, drain]
    cases w.sess.peers.get? conn with
    | none => exact .rest w
    | some p =>
      dsimp only
      cases p.msgs.poll with
      | mk polled msgs =>
        have taken := side_mapPeer w conn (f := fun p => { p with msgs := msgs }) (fun _ => rfl)
        refine .shift (shifts_of_eq taken) ?_
        generalize w.mapPeer conn (fun p => { p with msgs := msgs }) = v
        cases polled with
        | error e => exact path_of_shifts (shifts_noteProtocolViolation env conn v)
        | ok next =>
          cases next with
          | none => exact .rest v
          | some msg =>
            refine .hear ⟨env, conn, msg, v⟩ ?_
            unfold Encounter.outcome
            dsimp only
            cases dispatch digests host env conn msg v with
            | mk result u =>
              cases result with
              | error e => exact path_of_shifts (shifts_noteProtocolViolation env conn u)
              | ok done => exact ih u

theorem path_onHandshakeData (conn : ConnId) (buf : Bytes) (w : World H) :
    Path digests host w (afterHandshake digests host env conn buf w) (onHandshakeData digests host env conn buf w) := by
  unfold afterHandshake onHandshakeData
  by_cases whole : buf.length ≥ HANDSHAKE_LEN
  · rw [if_pos whole, if_pos whole]
    cases Handshake.parse (buf.take HANDSHAKE_LEN) with
    | error e => exact path_of_shifts (shifts_dropPeer env conn w)
    | ok their =>
      have fed := side_mapPeer w conn
        (f := fun p => { p with handshakeBuf := [], msgs := p.msgs.feed (buf.drop HANDSHAKE_LEN) }) (fun _ => rfl)
      refine .shift (shifts_of_eq fed) ?_
      dsimp only
      generalize w.mapPeer conn
        (fun p => { p with handshakeBuf := [], msgs := p.msgs.feed (buf.drop HANDSHAKE_LEN) }) = v
      refine .shift (shifts_onHandshake env conn their v) ?_
      cases onHandshake env conn their v with
      | mk result u =>
        cases result with
        | error e => exact path_of_shifts (shifts_dropPeer env conn u)
        | ok done => exact path_drain digests host env conn _ u
  · rw [if_neg whole, if_neg whole]
    exact path_of_same (side_mapPeer w conn (fun _ => rfl))

theorem path_onData (conn : ConnId) (data : Bytes) (w : World H) :
    Path digests host w (inbound digests host env conn data w) (onData digests host env conn data w) := by
  unfold inbound onData
  cases w.sess.peers.get? conn with
  | none => exact .rest w
  | some peer =>
    dsimp only
    have counted := side_mapPeer w conn (f := fun p => p.onDataIn data.length env.now) (fun _ => rfl)
    refine .shift (shifts_of_eq counted) ?_
    generalize w.mapPeer conn (fun p => p.onDataIn data.length env.now) = v
    by_cases shaking : peer.phase = .handshake
    · rw [if_pos shaking, if_pos shaking]
      exact path_onHandshakeData digests host env conn _ v
    · rw [if_neg shaking, if_neg shaking]
      by_cases ready : peer.phase = .ready ∧ peer.handshakeBuf = []
      · rw [if_pos ready]
        have fed := side_mapPeer v conn (f := fun p => { p with msgs := p.msgs.feed data }) (fun _ => rfl)
        exact .shift (shifts_of_eq fed) (path_drain digests host env conn _ _)
      · rw [if_neg ready]
        exact path_drain digests host env conn _ v

/-! ### Events -/

def Event.fetches : Event H → Bool
  | .kickMetadata => true
  | .install _ => true
  | .driveWebseed => true
  | .rangeJobDone _ _ => true
  | _ => false

theorem path_step {e : Event H} (other : e.fetches = false) (w : World H) :
    Path digests host w (messagesOf digests host env e w) (step digests host env e w) := by
  cases e with
  | attach conn addr outbound source => exact path_of_shifts (shifts_attachPeer env conn addr outbound source w)
  | connectDone conn => exact path_of_same (side_mapPeer w conn (fun _ => rfl))
  | data conn bytes => exact path_onData digests host env conn bytes w
  | disconnect conn => exact path_of_shifts (shifts_onDisconnect env conn w)
  | drop conn => exact path_of_shifts (shifts_dropPeer env conn w)
  | evict conn => exact path_of_shifts (shifts_evict env conn w)
  | ban conn addr reason => exact path_of_shifts (shifts_banPeer env conn addr reason w)
  | verified piece ok data => exact path_of_shifts (shifts_onVerified host env piece ok data w)
  | takePendingVerify => exact path_of_same rfl
  | sweepTimeouts => exact path_of_shifts (shifts_sweepRequestTimeouts env w)
  | fill conn => exact path_of_same (side_fillLoop env conn 512 w)
  | cancelSkipped => exact path_of_same (side_cancelSkippedPieceRequests w)
  | setFilePriority file prio => exact path_of_same (side_setFilePriority file prio w.sess)
  | setFilePriorities priorities => exact path_of_same (side_setFilePriorities priorities w.sess)
  | setHoldData hold => exact path_of_same (side_setHoldData hold w.sess)
  | start => exact path_of_same (side_start host env w)
  | pause => exact path_of_shifts (shifts_pause env w)
  | resume => exact path_of_same (side_resume env w)
  | stop => exact path_of_shifts (shifts_stop host w)
  | reopenFiles => exact path_of_same (side_reopenFiles host w)
  | announceDue => exact path_of_same (side_announceDue env w)
  | housekeeping => exact path_of_same rfl
  | unchoke conns => exact path_of_same (side_applyUnchoke _ conns w.sess)
  | broadcastPex => exact path_of_same (side_foldl (fun s c => side_broadcastPexTo c s) _ w.sess)
  | kickMetadata => cases other
  | install t => cases other
  | driveWebseed => cases other
  | rangeJobDone id result => cases other
  | discovered addr source => exact path_of_same (side_enqueuePeer addr source env.now w.sess)
  | takeConnectQueue => exact path_of_same rfl
  | sent conn n => exact path_of_same (side_mapPeer w conn (fun _ => rfl))
  | io state => exact path_of_same rfl

variable {digests host env}

theorem run_history {F : (Env × Event H) × World H → Prop} (shifted : ∀ {past x y}, Shift x y → P past x → P past y)
    (hears : ∀ past e, Fine e → P past e.world.sess.side → P (past ++ [e]) (e.outcome digests host).sess.side)
    (fetched : ∀ past env (e : Event H) w, e.fetches = true → F ((env, e), w) → P past w.sess.side →
      P past (step digests host env e w).sess.side) {events : List (Env × Event H)} (past : List (Encounter H))
    (fair : ∀ moment ∈ moments digests host events w, F moment) (fine : ∀ e ∈ encounters digests host events w, Fine e)
    (start : P past w.sess.side) : P (past ++ encounters digests host events w) (run digests host events w).sess.side ∧
      Onward P past (encounters digests host events w) := by
  induction events generalizing w past with
  | nil =>
    rw [encounters, List.append_nil]
    exact ⟨start, trivial⟩
  | cons event tail ih =>
    have later := fun e member => fine e (List.mem_append_right (messagesOf digests host event.1 event.2 w) member)
    have after := fun moment member => fair moment (List.mem_cons_of_mem (event, w) member)
    rw [encounters, onward_append, ← List.append_assoc]
    cases fetches : event.2.fetches with
    | false =>
      have path := path_step digests host event.1 fetches w
      obtain ⟨ends, onward⟩ := path.history (P := P) shifted hears past (fun e member => fine e (List.mem_append_left _ member)) start
      obtain ⟨final, rest⟩ := ih _ after later ends
      exact ⟨final, onward, rest⟩
    | true =>
      have silent : messagesOf digests host event.1 event.2 w = [] := by
        cases kind : event.2 with
        | data conn bytes =>
          rw [kind] at fetches
          cases fetches
        | _ => rfl
      have ends := fetched past event.1 event.2 w fetches (fair (event, w) List.mem_cons_self) start
      rw [silent, List.append_nil]
      obtain ⟨final, rest⟩ := ih past after later ends
      exact ⟨final, trivial, rest⟩

theorem run_sides {P : Side → Prop} {F : (Env × Event H) × World H → Prop} (shifted : ∀ {x y}, Shift x y → P x → P y)
    (hears : ∀ e, Fine e → P e.world.sess.side → P (e.outcome digests host).sess.side)
    (fetched : ∀ env (e : Event H) w, e.fetches = true → F ((env, e), w) → P w.sess.side →
      P (step digests host env e w).sess.side)
    {events : List (Env × Event H)} (fair : ∀ moment ∈ moments digests host events w, F moment)
    (fine : ∀ e ∈ encounters digests host events w, Fine e) (start : P w.sess.side) :
    P (run digests host events w).sess.side ∧ ∀ e ∈ encounters digests host events w, P e.world.sess.side := by
  obtain ⟨ends, onward⟩ := run_history (P := fun _ x => P x) (fun shift here => shifted shift here)
    (fun _ e good here => hears e good here) (fun _ env e w fetches fits here => fetched env e w fetches fits here)
    [] fair fine start
  refine ⟨ends, fun e member => ?_⟩
  obtain ⟨front, back, split⟩ := List.append_of_mem member
  rw [split] at onward
  exact onward.here

end Encounters

/-! ### Fetches -/

section Kick
variable {H : Type} (env : Env)

theorem side_askNext (s : TorrentSession) (conn : ConnId) :
    (askNext env s conn).side = { s.side with metadata := (askNext env s conn).metadata } := by
  unfold askNext
  split
  · rename_i p m found fetching
    split
    · rfl
    · rename_i id ext
      split
      · rfl
      · split
        · rfl
        · rename_i piece next
          have told : (s.peers.insert conn (p.send (.extended id (MetadataMsg.request piece).encode))).view facet =
              s.peers.view facet := OrdMap.view_insert_same found rfl
          exact congrArg (fun facets => { s.side with
            metadata := some { m with requested := m.requested.set piece, outstanding := m.outstanding + 1 }
            facets := facets }) told
  · rfl

theorem side_kickPeers (conns : List ConnId) (s : TorrentSession) :
    (conns.foldl (askNext env) s).side = { s.side with metadata := (conns.foldl (askNext env) s).metadata } := by
  induction conns generalizing s with
  | nil => rfl
  | cons c tail ih =>
    rw [List.foldl_cons, ih, side_askNext]

theorem side_sweepMetadataRequests (s : TorrentSession) :
    (sweepMetadataRequests env s).side = { s.side with metadata := (sweepMetadataRequests env s).metadata } := by
  unfold sweepMetadataRequests
  split
  · rfl
  · split
    · rfl
    · rfl

theorem sess_kickMetadata {w v : World H} (kicks : kickMetadata env w = some v) : v.sess.side =
    ((sweepMetadataRequests env w.sess).peers.keys.foldl (askNext env) (sweepMetadataRequests env w.sess)).side := by
  rw [kickMetadata_some kicks]
  unfold announceStarted
  split <;> rfl

theorem side_kickMetadata (w : World H) : ((kickMetadata env w).getD w).sess.side =
    { w.sess.side with metadata := ((kickMetadata env w).getD w).sess.metadata } := by
  refine kickMetadata_getD (P := fun v => v.sess.side = { w.sess.side with metadata := v.sess.metadata }) rfl fun v kicks => ?_
  have ends := sess_kickMetadata env kicks
  have metadata := congrArg Side.metadata ends
  change v.sess.metadata = _ at metadata
  rw [metadata, ends, side_kickPeers, side_sweepMetadataRequests]

end Kick
end TypeBit.Session
