import TypeBit.Engine.Slots
import TypeBit.Session.Selection

/-! A paused or stopped session sleeps: it has no peers, its ticks do nothing, and most of what still
reaches it leaves it so. What wakes it is a change of all priorities, late metadata, a late verdict
that completes the download, and a peer that the connect queue or the inbound pump attaches. -/

namespace TypeBit.Engine
open Metainfo Leech Wire Session OrdMap

section Sessions
variable {H : Type}

structure Asleep (status : SessionStatus) (s : TorrentSession) : Prop where
  status : s.status = status
  deserted : ∀ conn, s.peers.get? conn = none

def Resting (status : SessionStatus) : Prop := status = .paused ∨ status = .stopped

/-- The event neither wakes a sleeping session nor moves it from one of the two statuses to the other. -/
def LetsSleep (host : Host H) (event : Session.Event H) (w : World H) : Prop :=
  match event with
  | .start => False
  | .resume => False
  | .pause => w.sess.status = .paused
  | .stop => w.sess.status = .stopped
  | .setFilePriorities _ => w.sess.torrent = none
  | .install _ => w.sess.torrent.isSome = true
  | .verified piece ok data => ¬ Completes host (.verified piece ok data) w
  | _ => True

variable {status : SessionStatus} {w v : World H}

theorem Resting.halted (resting : Resting status) : status ≠ .downloading ∧ status ≠ .seeding := by
  rcases resting with rfl | rfl
  · exact ⟨nofun, nofun⟩
  · exact ⟨nofun, nofun⟩

theorem Asleep.of_burdens {s u : TorrentSession} (asleep : Asleep status s) (same : u.status = s.status)
    (burdens : burdensOf u.peers = burdensOf s.peers) : Asleep status u := by
  refine ⟨same.trans asleep.status, fun conn => ?_⟩
  have none : burdensOf u.peers conn = none := by
    rw [burdens, burdensOf, asleep.deserted conn]
    rfl
  exact Option.map_eq_none_iff.mp none

theorem asleep_idle (idle : Idle w v) (asleep : Asleep status w.sess) : Asleep status v.sess :=
  asleep.of_burdens (congrArg Ledger.status idle.ledger) (congrArg Ledger.burdens idle.ledger)

theorem asleep_partings (partings : Partings w v) (asleep : Asleep status w.sess) : Asleep status v.sess := by
  induction partings with
  | refl => exact asleep
  | tail _ last ih =>
    cases last with
    | idle same => exact asleep_idle same ih
    | detach conn attached =>
      rw [contains, ih.deserted conn] at attached
      cases attached

theorem asleep_dropPeer (env : Env) (conn : ConnId) (asleep : Asleep status w.sess) :
    Asleep status (dropPeer env conn w).sess := asleep_partings (partings_dropPeer env conn w) asleep

theorem onData_absent (digests : Digests) (host : Host H) (env : Env) {conn : ConnId} (data : Bytes)
    (absent : w.sess.peers.get? conn = none) : onData digests host env conn data w = w := by
  unfold onData
  rw [absent]

theorem asleep_modify {s : TorrentSession} {conn : ConnId} {f : Peer → Peer} (asleep : Asleep status s) :
    Asleep status { s with peers := s.peers.modify conn f } := by
  refine ⟨asleep.status, fun c => ?_⟩
  dsimp only
  rw [get?_modify, asleep.deserted c]
  split_ifs <;> rfl

theorem asleep_roster {s u : TorrentSession} (asleep : Asleep status s) (same : u.status = s.status)
    (roster : u.roster = s.roster) : Asleep status u :=
  asleep.of_burdens same (congrArg (fun r => burdensOf r.peers) roster)

theorem asleep_completePieceFailed (env : Env) (index totalBlocks : Nat) (asleep : Asleep status w.sess) :
    Asleep status (completePieceFailed env index totalBlocks w).sess := by
  have forgotten : Asleep status ((w.map (forgetPiece index)).emit (.cleared index)).sess :=
    ⟨asleep.status, asleep.deserted⟩
  have punished := asleep_partings (partings_punishCorruptSuppliers env index totalBlocks _) forgotten
  exact ⟨punished.status, punished.deserted⟩

theorem asleep_verified {host : Host H} (env : Env) {piece : Nat} {ok : Bool} {data : Bytes}
    (incomplete : ¬ Completes host (.verified piece ok data) w) (asleep : Asleep status w.sess) :
    Asleep status (onVerified host env piece ok data w).2.sess := by
  unfold onVerified
  split
  · exact asleep
  · rename_i totalBlocks verifying
    have judged : Asleep status (w.map (fun s => { s with verifying := s.verifying.erase piece })).sess :=
      ⟨asleep.status, asleep.deserted⟩
    dsimp only
    split
    · exact judged
    · rename_i t torrent
      cases ok with
      | false => exact asleep_completePieceFailed env piece totalBlocks judged
      | true =>
        rw [if_pos rfl]
        unfold completePieceVerified
        split
        · exact judged
        · rename_i abs located
          have same := sess_writeAbs host abs data (w.map (fun s => { s with verifying := s.verifying.erase piece }))
          split
          · rename_i e u failed
            rw [failed] at same
            exact same ▸ judged
          · rename_i u done
            obtain ⟨pieces, selected, _⟩ := settled_trace done
            rw [done] at same
            have kept : Asleep status u.sess := same ▸ judged
            have settled : Asleep status (u.map (settlePiece piece)).sess := by
              refine ⟨kept.status, fun c => ?_⟩
              simp [World.map, settlePiece, get?_mapValues, kept.deserted c]
            rw [announceCompletion, if_neg]
            · exact settled
            · intro enough
              refine incomplete ⟨piece, data, rfl, (contains_iff _ _).mpr ⟨_, verifying⟩, ?_, ?_⟩
              · refine (written_judged host piece data w).mp ⟨t, abs, torrent, located, ?_⟩
                rw [done]
              · rw [← pieces, ← selected]
                exact enough

theorem asleep_step (digests : Digests) {host : Host H} (env : Env) {event : Session.Event H}
    (plain : direct event = true) (resting : Resting status) (lets : LetsSleep host event w)
    (asleep : Asleep status w.sess) : Asleep status (step digests host env event w).sess := by
  have halted : w.sess.status ≠ .downloading ∧ w.sess.status ≠ .seeding := asleep.status.symm ▸ resting.halted
  cases event with
  | connectDone conn => exact asleep_modify asleep
  | drop conn => exact asleep_dropPeer env conn asleep
  | verified piece ok data => exact asleep_verified env lets asleep
  | takePendingVerify => exact ⟨asleep.status, asleep.deserted⟩
  | setFilePriority file prio =>
    refine asleep_roster asleep ?_ (roster_setFilePriority file prio w.sess)
    unfold step Session.setFilePriority
    dsimp only [World.map]
    split
    · rfl
    · split
      · rfl
      · exact status_recomputePriorities_halted halted
  | setFilePriorities priorities =>
    have absent : w.sess.torrent = none := lets
    have same : (Session.setFilePriorities priorities w.sess).2 = w.sess := by
      simp [Session.setFilePriorities, absent]
    exact asleep_roster asleep (congrArg TorrentSession.status same) (congrArg TorrentSession.roster same)
  | setHoldData hold =>
    refine asleep_roster asleep ?_ (roster_recomputePriorities { w.sess with holdDataUntilPriorities := hold })
    exact status_recomputePriorities_halted (s := { w.sess with holdDataUntilPriorities := hold }) halted
  | start => exact lets.elim
  | resume => exact lets.elim
  | pause =>
    have same : step digests host env .pause w = w := if_pos lets
    rwa [same]
  | stop =>
    have same : step digests host env .stop w = w := if_pos lets
    rwa [same]
  | install t =>
    have present : ¬ w.sess.torrent.isNone = true := by
      rw [Option.isNone_iff_eq_none]
      exact Option.isSome_iff_ne_none.mp lets
    have same : step digests host env (.install t) w = w := if_neg present
    rwa [same]
  | rangeJobDone id result =>
    have fetched : Fetched False w.sess (onRangeJobDone id result env.now w.sess) :=
      fetched_onRangeJobDone False.elim id result env.now
    exact asleep.of_burdens (congrArg Ledger.status fetched.ledger) (congrArg Ledger.burdens fetched.ledger)
  | discovered addr source =>
    exact asleep_idle (idle_map (ledger_enqueuePeer addr source env.now w.sess)) asleep
  | sent conn n => exact asleep_modify asleep
  | _ => cases plain

end Sessions

/-! ### Tasks -/

section Tasks
variable {H : Type} (digests : Digests) (host : Host H)

/-- A session with this hash is there, and asleep. -/
def Rests (status : SessionStatus) (hash : InfoHash) (e : Engine H) : Prop :=
  ∃ s, e.sessions.get? hash = some s ∧ Asleep status s

/-- The task leaves a sleeping session alone: it does not remove it, sends it no event that wakes it, and
attaches no peer to it. -/
def LeavesAlone (hash : InfoHash) (now : Nat) (task : Task H) (e : Engine H) : Prop :=
  ∀ s, e.sessions.get? hash = some s →
    match task with
    | .remove k => k ≠ hash
    | .call k event _ => k = hash → LetsSleep host event (e.world s)
    | .connectQueue k dials => k = hash →
        ∀ d ∈ s.connectQueue.zip dials, ∀ conn, d.2 = .ok conn → s.bans.isBanned d.1.1 now = true
    | .inbound conn results => ∀ u p their, recvInbound conn results e = (true, u) → u.inbound.get? conn = some p →
        HANDSHAKE_LEN ≤ p.buf.length → Handshake.parse (p.buf.take HANDSHAKE_LEN) = .ok their →
        u.sessionFor their.infoHash = some hash → s.bans.isBanned p.addr now = true
    | _ => True

variable {digests host} {status : SessionStatus} {hash : InfoHash} {e : Engine H}

theorem Rests.same (rests : Rests status hash e) {u : Engine H} (sessions : u.sessions = e.sessions) :
    Rests status hash u := by
  unfold Rests
  rw [sessions]
  exact rests

variable {k : InfoHash}

theorem rests_onSession {f : World H → World H}
    (keeps : k = hash → ∀ s, e.sessions.get? hash = some s → Asleep status s → Asleep status (f (e.world s)).sess)
    (rests : Rests status hash e) : Rests status hash (e.onSession k f) := by
  obtain ⟨s, found, asleep⟩ := rests
  unfold Rests
  rw [get?_onSession]
  split_ifs with same
  · rw [found]
    exact ⟨_, rfl, keeps same s found asleep⟩
  · exact ⟨s, found, asleep⟩

theorem rests_dropPeer (env : Env) (conn : ConnId) (rests : Rests status hash e) :
    Rests status hash (e.onSession k (dropPeer env conn)) :=
  rests_onSession (fun _ _ _ asleep => asleep_dropPeer env conn asleep) rests

variable {conn : ConnId} {now : Nat}

theorem rests_pumpConnection {results : List (Result Bytes)}
    (rests : Rests status hash e) : Rests status hash (e.pumpConnection digests host conn k now results) := by
  fun_induction pumpConnection digests host conn k now results e with
  | case1 e => exact rests
  | case2 tail e => exact rests_dropPeer _ conn rests
  | case3 data tail e filled ih =>
    refine ih (rests_onSession (fun _ s _ asleep => ?_) rests)
    rw [onData_absent digests host _ data (asleep.deserted conn)]
    exact asleep
  | case4 tail e => exact rests
  | case5 tail e => exact rests
  | case6 failure tail e => exact rests_dropPeer _ conn rests

theorem sessions_recvInbound (conn : ConnId) (results : List (Result Bytes)) (e : Engine H) :
    (recvInbound conn results e).2.sessions = e.sessions := by
  fun_induction recvInbound conn results e with
  | case1 e => rfl
  | case2 tail e => rfl
  | case3 data tail e filled full => rfl
  | case4 data tail e filled room ih => exact ih
  | case5 tail e => rfl
  | case6 failure tail e => rfl

theorem asleep_attachPeer {env : Env} {addr : NetAddr} {outbound : Bool} {source : DiscoverySource}
    {w : World H} (banned : w.sess.bans.isBanned addr env.now = true) (asleep : Asleep status w.sess) :
    Asleep status (attachPeer env conn addr outbound source w).sess := by
  have refused : attachPeer env conn addr outbound source w = w.emit (.closed conn) := if_pos banned
  rw [refused]
  exact asleep

theorem rests_pumpInbound {results : List (Result Bytes)}
    (alone : LeavesAlone host hash now (.inbound conn results) e) (rests : Rests status hash e) :
    Rests status hash (e.pumpInbound digests host conn results now) := by
  have sessions := sessions_recvInbound conn results e
  unfold pumpInbound
  split
  · rename_i u lost
    rw [lost] at sessions
    exact rests.same sessions
  · rename_i u kept
    rw [kept] at sessions
    have received : Rests status hash u := rests.same sessions
    unfold routeInbound
    split
    · exact received
    · rename_i p waiting
      split
      · exact received
      · rename_i long
        dsimp only
        split
        · exact received.same rfl
        · rename_i their parsed
          split
          · exact received.same rfl
          · rename_i k named
            have attached : Rests status hash (({ u with
                inbound := u.inbound.erase conn, connOwner := u.connOwner.insert conn k } : Engine H).onSession k
                  (attachPeer (u.env now) conn p.addr false .manual)) := by
              refine rests_onSession (fun same s found asleep => ?_) (received.same rfl)
              have before : e.sessions.get? hash = some s := by rw [← sessions]; exact found
              rw [same] at named
              have banned := alone s before u p their kept waiting (by omega) parsed named
              exact asleep_attachPeer banned asleep
            split
            · exact attached
            · refine rests_onSession (fun _ s _ asleep => ?_) attached
              rw [onData_absent digests host _ _ (asleep.deserted conn)]
              exact asleep

theorem get?_attachOutbound {addr : NetAddr} {source : DiscoverySource}
    (refused : k = hash → ∀ s, e.sessions.get? hash = some s → s.bans.isBanned addr now = true) :
    (e.attachOutbound k conn addr source now).sessions.get? hash = e.sessions.get? hash := by
  unfold attachOutbound
  dsimp only
  rw [get?_onSession]
  split_ifs with same
  · dsimp only
    cases found : e.sessions.get? hash with
    | none => rfl
    | some s =>
      have banned := refused same s found
      rw [Option.map_some, attachPeer, if_pos]
      · rfl
      · exact banned
  · rfl

theorem rests_driveConnectQueue {dials : List (Result ConnId)}
    (alone : LeavesAlone host hash now (.connectQueue k dials) e) (rests : Rests status hash e) :
    Rests status hash (e.driveConnectQueue k dials now) := by
  obtain ⟨s, found, asleep⟩ := rests
  -- the session with its queue taken stays what it is through all dials
  obtain ⟨s', taken, asleep', bans⟩ : ∃ s', (e.onSession k (fun w => w.map (fun s => { s with connectQueue := [] }))).sessions.get?
      hash = some s' ∧ Asleep status s' ∧ s'.bans = s.bans := by
    rw [get?_onSession]
    split_ifs
    · rw [found]
      exact ⟨_, rfl, ⟨asleep.status, asleep.deserted⟩, rfl⟩
    · exact ⟨s, found, asleep, rfl⟩
  have queued : k = hash → ∀ d ∈ (((e.sessions.get? k).map TorrentSession.connectQueue).getD []).zip dials,
      ∀ conn, d.2 = .ok conn → s'.bans.isBanned d.1.1 now = true := by
    intro same
    rw [same, found, bans]
    exact alone s found same
  unfold driveConnectQueue
  dsimp only
  generalize (((e.sessions.get? k).map TorrentSession.connectQueue).getD []).zip dials = l at queued ⊢
  generalize e.onSession k (fun w => w.map (fun s => { s with connectQueue := [] })) = u at taken ⊢
  refine ⟨s', ?_, asleep'⟩
  apply List.foldlRecOn (motive := fun u : Engine H => u.sessions.get? hash = some s') _ _ taken
  intro u before d member
  split
  · exact before
  · split
    · rename_i conn dialled
      rw [get?_attachOutbound]
      · exact before
      · intro same s'' there
        rw [before] at there
        cases there
        exact queued same d member conn dialled
    · exact before

theorem rests_cleanupUtpConn {tcpFallback : Bool} {dial : Result ConnId}
    (rests : Rests status hash e) : Rests status hash (e.cleanupUtpConn conn tcpFallback dial now) := by
  unfold cleanupUtpConn
  dsimp only
  split
  · exact rests.same rfl
  · rename_i k owned
    have dropped : Rests status hash (({ e with
        connecting := e.connecting.filter (fun c => decide (c ≠ conn))
        inbound := e.inbound.erase conn
        connOwner := e.connOwner.erase conn } : Engine H).onSession k (dropPeer (e.env now) conn)) :=
      rests_dropPeer _ conn (rests.same rfl)
    split
    · rename_i p tcp there
      split
      · obtain ⟨s, kept, asleep⟩ := dropped
        refine ⟨s, ?_, asleep⟩
        refine (get?_attachOutbound ?_).trans kept
        -- a sleeping session has no peer that could be dialled again
        intro same
        obtain ⟨before, found, slept⟩ := rests
        rw [same, found, Option.bind_some, slept.deserted conn] at there
        cases there
      · exact dropped
    · exact dropped

theorem rests_perform (now : Nat) {task : Task H} (resting : Resting status)
    (alone : LeavesAlone host hash now task e) (rests : Rests status hash e) :
    Rests status hash (perform digests host now task e) := by
  obtain ⟨s, found, asleep⟩ := rests
  have rests : Rests status hash e := ⟨s, found, asleep⟩
  have added : ∀ {k : InfoHash} {u : TorrentSession}, ¬ e.sessions.contains k = true →
      Rests status hash { e with sessions := e.sessions.insert k u } := by
    intro k u fresh
    refine ⟨s, ?_, asleep⟩
    rw [get?_insert_ne]
    · exact found
    · rintro rfl
      exact fresh ((contains_iff _ _).mpr ⟨s, found⟩)
  cases task with
  | addTorrent t saveDir =>
    unfold perform addTorrentObj
    dsimp only
    split
    · exact rests
    · rename_i fresh
      exact added fresh
  | addMagnet k webSeeds saveDir =>
    unfold perform addMagnet
    dsimp only
    split
    · exact rests
    · rename_i fresh
      exact added fresh
  | remove k =>
    have other : k ≠ hash := alone s found
    unfold perform removeTorrent
    dsimp only
    split
    · exact rests
    · exact ⟨s, (get?_erase_ne _ other).trans found, asleep⟩
  | restore k haveBytes priorities up down reputation =>
    refine rests_onSession (fun _ s _ slept => ?_) rests
    have halted : s.status ≠ .downloading ∧ s.status ≠ .seeding := slept.status.symm ▸ resting.halted
    exact asleep_roster slept (status_applySavedState_halted halted haveBytes priorities up down reputation now)
      (roster_applySavedState haveBytes priorities up down reputation now s)
  | call k event plain =>
    exact rests_onSession (fun same s there slept => asleep_step digests _ plain resting (alone s there same) slept) rests
  | tick k plan =>
    refine rests_onSession (fun _ s _ slept => ?_) rests
    rw [tick_halted]
    · exact slept
    · rcases resting with rfl | rfl
      · simp [Session.halted, world, slept.status]
      · simp [Session.halted, world, slept.status]
  | incoming conn addr =>
    unfold perform onInboundConnection
    dsimp only
    split
    · exact rests
    · exact rests.same rfl
  | utpAccepted conn addr => exact rests.same rfl
  | sweepStale => exact rests.same rfl
  | budget bytes => exact rests.same rfl
  | connectQueue k dials => exact rests_driveConnectQueue alone rests
  | pump conn results =>
    unfold perform
    dsimp only
    split
    · exact rests
    · exact rests_pumpConnection rests
  | inbound conn results => exact rests_pumpInbound alone rests
  | cleanupUtp conn tcpFallback dial => exact rests_cleanupUtpConn rests
  | flush maxBytes => exact rests.same rfl
  | hostActs h => exact rests.same rfl

theorem rests_along (resting : Resting status) {tasks : List (Nat × Task H)}
    (alone : ∀ moment ∈ taskMoments digests host tasks e, LeavesAlone host hash moment.1.1 moment.1.2 moment.2)
    (rests : Rests status hash e) :
    ∀ moment ∈ taskMoments digests host tasks e, Rests status hash (perform digests host moment.1.1 moment.1.2 moment.2) := by
  induction tasks generalizing e with
  | nil =>
    intro moment none
    cases none
  | cons t tail ih =>
    obtain ⟨first, others⟩ := List.forall_mem_cons.mp alone
    have next : Rests status hash (perform digests host t.1 t.2 e) := rests_perform t.1 resting first rests
    exact List.forall_mem_cons.mpr ⟨next, ih others next⟩

end Tasks

/-! ### Pausing and stopping -/

/-- The two calls that put a session to sleep. -/
inductive Halt where
  | pause
  | stop
  deriving DecidableEq

namespace Halt
variable {H : Type}

def event : Halt → Session.Event H
  | pause => .pause
  | stop => .stop

def status : Halt → SessionStatus
  | pause => .paused
  | stop => .stopped

theorem plain (halt : Halt) : direct (halt.event : Session.Event H) = true := by
  cases halt <;> rfl

theorem resting (halt : Halt) : Resting halt.status := by
  cases halt with
  | pause => exact Or.inl rfl
  | stop => exact Or.inr rfl

end Halt

section Halting
variable {H : Type} {digests : Digests} {host : Host H}

theorem dropAll (env : Env) (conns : List ConnId) (w : World H) :
    (conns.foldl (fun w c => dropPeer env c w) w).sess.status = w.sess.status ∧
      ∀ c, w.sess.peers.get? c = none ∨ c ∈ conns →
        (conns.foldl (fun w c => dropPeer env c w) w).sess.peers.get? c = none := by
  induction conns generalizing w with
  | nil => exact ⟨rfl, fun c gone => gone.elim id nofun⟩
  | cons d tail ih =>
    have dropped := dropPeer_letGo env d w
    obtain ⟨status, gone⟩ := ih (dropPeer env d w)
    refine ⟨status.trans dropped.status, fun c listed => gone c ?_⟩
    rw [dropped.peers, get?_erase]
    split_ifs with same
    · exact Or.inl rfl
    · rcases listed with absent | member
      · exact Or.inl absent
      · exact Or.inr ((List.mem_cons.mp member).resolve_left (fun equal => same equal.symm))

theorem asleep_pause (env : Env) {w : World H} (running : w.sess.status ≠ .paused) :
    Asleep .paused (pause env w).sess := by
  unfold pause
  rw [if_neg running]
  dsimp only
  obtain ⟨status, gone⟩ := dropAll env w.sess.peers.keys
    ((w.map (fun s => { s with status := .paused })).emit (.announced .stopped))
  refine ⟨status, fun c => gone c ?_⟩
  cases found : w.sess.peers.get? c with
  | none => exact Or.inl found
  | some p => exact Or.inr ((mem_keys_iff _ c).mpr ⟨p, found⟩)

theorem asleep_stop (host : Host H) {w : World H} (running : w.sess.status ≠ .stopped) :
    Asleep .stopped (stop host w).sess := by
  unfold stop
  rw [if_neg running]
  exact ⟨rfl, fun c => rfl⟩

theorem rests_halt (halt : Halt) {e : Engine H} {hash : InfoHash} {s : TorrentSession}
    (found : e.sessions.get? hash = some s) (alone : s.status = halt.status → ∀ c, s.peers.get? c = none) (now : Nat) :
    Rests halt.status hash (perform digests host now (.call hash halt.event halt.plain) e) := by
  have called : Asleep halt.status (step digests host (e.env now) halt.event (e.world s)).sess := by
    by_cases already : s.status = halt.status
    · have same : step digests host (e.env now) halt.event (e.world s) = e.world s := by
        cases halt with
        | pause => exact if_pos already
        | stop => exact if_pos already
      rw [same]
      exact ⟨already, alone already⟩
    · cases halt with
      | pause => exact asleep_pause (e.env now) already
      | stop => exact asleep_stop host already
  refine ⟨_, ?_, called⟩
  unfold perform
  rw [get?_onSession, if_pos rfl, found]
  rfl

/-- Once `pause` or `stop` has returned, in every run that leaves the session alone its status stays and it
has no peer. -/
theorem halted_stays_halted (halt : Halt) {e : Engine H} {hash : InfoHash} {s : TorrentSession}
    (found : e.sessions.get? hash = some s) (alone : s.status = halt.status → ∀ c, s.peers.get? c = none) (now : Nat)
    {tasks : List (Nat × Task H)}
    (undisturbed : ∀ moment ∈ taskMoments digests host tasks
        (perform digests host now (.call hash halt.event halt.plain) e),
      LeavesAlone host hash moment.1.1 moment.1.2 moment.2) :
    Rests halt.status hash (perform digests host now (.call hash halt.event halt.plain) e) ∧
      ∀ moment ∈ taskMoments digests host tasks (perform digests host now (.call hash halt.event halt.plain) e),
        Rests halt.status hash (perform digests host moment.1.1 moment.1.2 moment.2) := by
  have rests : Rests halt.status hash (perform digests host now (.call hash halt.event halt.plain) e) :=
    rests_halt halt found alone now
  exact ⟨rests, rests_along halt.resting undisturbed rests⟩

end Halting

/-! ### Runs after a pause -/

namespace Sample

/-- The sample download before its first tick: the peer is connected and nothing is asked yet. -/
def downloading : Engine Unit := runTasks Session.Sample.digests Session.Sample.host (download.take 6) engine

def paused : Engine Unit :=
  perform Session.Sample.digests Session.Sample.host 6 (.call Session.Sample.torrent.infoHash Halt.pause.event Halt.pause.plain)
    downloading

/-- A tick, a priority for a file, an address that is found and cannot be dialled, and late bytes of the
dropped peer. -/
def quiet : List (Nat × Task Unit) :=
  [(6, .tick Session.Sample.torrent.infoHash plan),
    (6, .call Session.Sample.torrent.infoHash (.setFilePriority 0 .skip) rfl),
    (7, finding),
    (7, .connectQueue Session.Sample.torrent.infoHash [.error .io]), (8, .pump 1 [.ok [0]])]

end Sample

/-- The sample session sleeps through that after a pause. -/
theorem halted_stays_halted_paused :
    Rests .paused Session.Sample.torrent.infoHash Sample.paused ∧
      ∀ moment ∈ taskMoments Session.Sample.digests Session.Sample.host Sample.quiet Sample.paused,
        Rests .paused Session.Sample.torrent.infoHash
          (perform Session.Sample.digests Session.Sample.host moment.1.1 moment.1.2 moment.2) := by
  have running : (Sample.downloading.sessions.get? Session.Sample.torrent.infoHash).map TorrentSession.status =
      some .downloading := by decide
  obtain ⟨s, found, status⟩ := Option.map_eq_some_iff.mp running
  refine halted_stays_halted .pause found ?_ 6 ?_
  · rw [status]
    exact nofun
  · refine List.forall_mem_cons.mpr ⟨fun _ _ => trivial, List.forall_mem_cons.mpr ⟨fun _ _ _ => trivial, ?_⟩⟩
    refine List.forall_mem_cons.mpr ⟨fun _ _ _ => trivial, List.forall_mem_cons.mpr ⟨?_, ?_⟩⟩
    · intro s there same d member conn dialled
      have answered := (List.of_mem_zip member).2
      rw [dialled] at answered
      simp at answered
    · exact List.forall_mem_cons.mpr ⟨fun _ _ => trivial, fun moment none => (nomatch none)⟩

set_option maxRecDepth 20000 in
/-- A paused session downloads again once all its priorities are set, and the connect queue attaches a peer
to it. -/
theorem paused_session_wakes :
    Rests .paused Session.Sample.torrent.infoHash Sample.paused ∧
      ((runTasks Session.Sample.digests Session.Sample.host
        [(7, .call Session.Sample.torrent.infoHash (.setFilePriorities [.normal]) rfl)]
        Sample.paused).sessions.get? Session.Sample.torrent.infoHash).map TorrentSession.status = some .downloading ∧
      ((runTasks Session.Sample.digests Session.Sample.host
        [(7, .call Session.Sample.torrent.infoHash (.discovered NetAddr.unspecified .tracker) rfl),
          (7, .connectQueue Session.Sample.torrent.infoHash [.ok 2])]
        Sample.paused).sessions.get? Session.Sample.torrent.infoHash).map (fun s => s.peers.contains 2) = some true := by
  refine ⟨?_, by decide, by decide⟩
  have halted : (Sample.paused.sessions.get? Session.Sample.torrent.infoHash).map
      (fun s => (s.status, s.peers.isEmpty)) = some (.paused, true) := by decide
  obtain ⟨s, found, facts⟩ := Option.map_eq_some_iff.mp halted
  exact ⟨s, found, congrArg Prod.fst facts, (isEmpty_iff _).mp (congrArg Prod.snd facts)⟩

end TypeBit.Engine
