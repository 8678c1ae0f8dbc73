import TypeBit.Engine.State
import TypeBit.Session.Balance

/-! The in-flight window counts the requests of all sessions. Every task of the engine keeps the
count, but for a torrent that is removed while requests are outstanding: its slots never come back. -/

namespace TypeBit.Engine
open Metainfo Leech Wire Session OrdMap

section Slots
variable {H : Type}

def outstanding (e : Engine H) : Nat := e.sessions.total (fun _ s => load s)

/-- The window counts exactly the outstanding requests. -/
def SlotsEven (e : Engine H) : Prop := e.io.cache.inflightBlocks = e.outstanding

/-- A torrent is only removed when it has no request outstanding. -/
def RemovesIdle (task : Task H) (e : Engine H) : Prop :=
  match task with
  | .remove hash => ∀ s, e.sessions.get? hash = some s → load s = 0
  | _ => True

structure Even (e : Engine H) : Prop where
  slots : SlotsEven e
  limit : e.io.cache.maxInflightBlocks < 2 ^ 64

variable {e : Engine H} {hash : InfoHash} {s : TorrentSession}

theorem outstanding_eq (found : e.sessions.get? hash = some s) :
    e.outstanding = load s + (e.sessions.erase hash).total (fun _ s => load s) := total_erase found

theorem even_onSession {f : World H → World H} (balanced : ∀ w, Balanced w (f w))
    (even : Even e) : Even (e.onSession hash f) := by
  unfold onSession
  cases found : e.sessions.get? hash with
  | none => exact even
  | some s =>
    dsimp only
    have called := balanced (e.world s)
    refine ⟨?_, called.limit ▸ even.limit⟩
    have before : e.io.cache.inflightBlocks = (e.sessions.erase hash).total (fun _ s => load s) + load s := by
      rw [even.slots, outstanding_eq found, Nat.add_comm]
    have after := called.slots even.limit _ before
    refine after.trans ?_
    rw [Nat.add_comm]
    exact (total_insert (fun _ s => load s) e.sessions hash (f (e.world s)).sess).symm

theorem Even.same {e u : Engine H} (even : Even e) (sessions : u.sessions = e.sessions)
    (window : u.io.cache.window = e.io.cache.window) : Even u := by
  have inflight : u.io.cache.inflightBlocks = e.io.cache.inflightBlocks := congrArg Prod.fst window
  have limit : u.io.cache.maxInflightBlocks = e.io.cache.maxInflightBlocks := congrArg Prod.snd window
  refine ⟨?_, limit ▸ even.limit⟩
  unfold SlotsEven outstanding
  rw [inflight, sessions]
  exact even.slots

theorem even_added (absent : e.sessions.contains hash = false)
    (unused : load s = 0) (even : Even e) : Even { e with sessions := e.sessions.insert hash s } := by
  have missing : e.sessions.get? hash = none := by simpa [contains] using absent
  refine ⟨?_, even.limit⟩
  unfold SlotsEven outstanding
  dsimp only
  rw [total_insert, erase_of_absent missing, unused, Nat.zero_add]
  exact even.slots

theorem even_new (cfg : EngineConfig) (peerId : ByteArr 20) (budget : UInt64) (h : H) :
    Even (Engine.new cfg peerId budget h) := by
  refine ⟨rfl, ?_⟩
  have small := budget.toNat_lt
  simp only [Engine.new, DiskCache.Cache.new, BLOCK_LEN]
  omega

theorem balanced_attachPeer (env : Env) (conn : ConnId) (addr : NetAddr) (outbound : Bool) (source : DiscoverySource)
    (w : World H) : Balanced w (attachPeer env conn addr outbound source w) :=
  (moves_attachPeer env conn addr outbound source w).balanced

theorem even_attachOutbound (hash : InfoHash) (conn : ConnId) (addr : NetAddr) (source : DiscoverySource) (now : Nat)
    (even : Even e) : Even (e.attachOutbound hash conn addr source now) := by
  refine even_onSession (fun w => balanced_attachPeer _ conn addr true source w) ?_
  exact even.same rfl rfl

theorem even_driveConnectQueue (hash : InfoHash) (dials : List (Result ConnId)) (now : Nat)
    (even : Even e) : Even (e.driveConnectQueue hash dials now) := by
  unfold driveConnectQueue
  dsimp only
  apply List.foldlRecOn (motive := Even)
  · apply even_onSession _ even
    intro w
    exact balanced_same rfl rfl
  · intro u before d _
    split
    · exact before
    · split
      · exact even_attachOutbound hash _ _ _ now before
      · exact before

theorem even_dropPeer (hash : InfoHash) (env : Env) (conn : ConnId) (even : Even e) :
    Even (e.onSession hash (dropPeer env conn)) :=
  even_onSession (fun w => (Partings.moves (partings_dropPeer env conn w)).balanced) even

theorem even_cleanupUtpConn (conn : ConnId) (tcpFallback : Bool) (dial : Result ConnId) (now : Nat)
    (even : Even e) : Even (e.cleanupUtpConn conn tcpFallback dial now) := by
  unfold cleanupUtpConn
  dsimp only
  split
  · exact even.same rfl rfl
  · have dropped := fun (u : Engine H) (before : Even u) => even_dropPeer ‹InfoHash› (u.env now) conn before
    split
    · split
      · exact even_attachOutbound _ _ _ _ now (dropped _ (even.same rfl rfl))
      · exact dropped _ (even.same rfl rfl)
    · exact dropped _ (even.same rfl rfl)

variable (digests : Digests) (host : Host H)

theorem even_onData (hash : InfoHash) (env : Env) (conn : ConnId) (data : Bytes) (even : Even e) :
    Even (e.onSession hash (onData digests host env conn data)) :=
  even_onSession (fun w => (moves_onData digests host env conn data w).balanced) even

theorem even_pumpConnection (conn : ConnId) (hash : InfoHash) (now : Nat) (results : List (Result Bytes))
    (even : Even e) : Even (e.pumpConnection digests host conn hash now results) := by
  fun_induction pumpConnection digests host conn hash now results e with
  | case1 e => exact even
  | case2 tail e => exact even_dropPeer hash _ conn even
  | case3 data tail e filled ih => exact ih (even_onData digests host hash _ conn data even)
  | case4 tail e => exact even
  | case5 tail e => exact even
  | case6 failure tail e => exact even_dropPeer hash _ conn even

theorem even_recvInbound (conn : ConnId) (results : List (Result Bytes)) (even : Even e) :
    Even (recvInbound conn results e).2 := by
  fun_induction recvInbound conn results e with
  | case1 e => exact even
  | case2 tail e => exact even
  | case3 data tail e filled full => exact even.same rfl rfl
  | case4 data tail e filled room ih => exact ih (even.same rfl rfl)
  | case5 tail e => exact even
  | case6 failure tail e => exact even.same rfl rfl

theorem even_pumpInbound (conn : ConnId) (results : List (Result Bytes)) (now : Nat) (even : Even e) :
    Even (e.pumpInbound digests host conn results now) := by
  have received := even_recvInbound conn results even
  unfold pumpInbound
  split
  · rename_i u gone
    rw [gone] at received
    exact received
  · rename_i u going
    rw [going] at received
    unfold routeInbound
    split
    · exact received
    · split
      · exact received
      · dsimp only
        split
        · exact received.same rfl rfl
        · split
          · exact received.same rfl rfl
          · split
            · exact even_onSession (fun w => balanced_attachPeer _ _ _ _ _ w) (received.same rfl rfl)
            · refine even_onData digests host _ _ conn _ ?_
              exact even_onSession (fun w => balanced_attachPeer _ _ _ _ _ w) (received.same rfl rfl)

theorem removeTorrent_slots (even : Even e) (found : e.sessions.get? hash = some s) :
    (e.removeTorrent host hash).2.io.cache.inflightBlocks = (e.removeTorrent host hash).2.outstanding + load s ∧
      (e.removeTorrent host hash).2.io.cache.maxInflightBlocks < 2 ^ 64 := by
  have stopped := balanced_stop host (e.world s)
  have before : e.io.cache.inflightBlocks = (e.sessions.erase hash).total (fun _ s => load s) + load s := by
    rw [even.slots, outstanding_eq found, Nat.add_comm]
  have after := stopped.slots even.limit _ before
  have same : load (stop host (e.world s)).sess = load s :=
    congrArg (total (fun _ (reqs : List ConnId) => reqs.length)) (requestedBy_stop host (e.world s))
  unfold removeTorrent
  simp only [found]
  exact ⟨after.trans (congrArg (_ + ·) same), stopped.limit ▸ even.limit⟩

theorem load_fromTorrent (t : Torrent) (cfg : SessionConfig) (now : Nat) : load (fromTorrent t cfg now) = 0 := rfl

theorem load_fromMagnet (hash : InfoHash) (webSeeds : List Bytes) (cfg : SessionConfig) (now : Nat) :
    load (fromMagnet hash webSeeds cfg now) = 0 := rfl

theorem even_perform (now : Nat) {task : Task H} (keeps : ∀ hash, task ≠ .remove hash) (even : Even e) :
    Even (perform digests host now task e) := by
  cases task with
  | addTorrent t saveDir =>
    unfold perform addTorrentObj
    dsimp only
    split
    · exact even
    · rename_i fresh
      exact even_added (by simpa using fresh) (load_fromTorrent t _ now) even
  | addMagnet hash webSeeds saveDir =>
    unfold perform addMagnet
    dsimp only
    split
    · exact even
    · rename_i fresh
      exact even_added (by simpa using fresh) (load_fromMagnet hash webSeeds _ now) even
  | remove hash => exact absurd rfl (keeps hash)
  | restore hash haveBytes priorities up down reputation =>
    refine even_onSession (fun w => ?_) even
    have kept := roster_applySavedState haveBytes priorities up down reputation now w.sess
    exact balanced_same (congrArg Roster.requestedBy kept) rfl
  | call hash event plain =>
    refine even_onSession (fun w => balanced_step digests host _ ?_ w) even
    rintro state rfl
    cases plain
  | tick hash plan => exact even_onSession (fun w => (chores_tick host _ plan w).moves.balanced) even
  | incoming conn addr =>
    unfold perform onInboundConnection
    dsimp only
    split
    · exact even
    · exact even.same rfl rfl
  | utpAccepted conn addr => exact even.same rfl rfl
  | sweepStale => exact even.same rfl rfl
  | budget bytes => exact even.same rfl rfl
  | connectQueue hash dials => exact even_driveConnectQueue hash dials now even
  | pump conn results =>
    unfold perform
    dsimp only
    split
    · exact even
    · exact even_pumpConnection digests host conn _ now results even
  | inbound conn results => exact even_pumpInbound digests host conn results now even
  | cleanupUtp conn tcpFallback dial => exact even_cleanupUtpConn conn tcpFallback dial now even
  | flush maxBytes => exact even.same rfl (DiskCache.window_flushOldest host.toDiskHost maxBytes e.io)
  | hostActs h => exact even.same rfl rfl

theorem slotsEven_perform_iff (now : Nat) (task : Task H) (even : Even e) :
    SlotsEven (perform digests host now task e) ↔ RemovesIdle task e := by
  by_cases removes : ∃ hash, task = .remove hash
  · obtain ⟨hash, rfl⟩ := removes
    unfold RemovesIdle perform
    dsimp only
    cases found : e.sessions.get? hash with
    | none =>
      have same : (e.removeTorrent host hash).2 = e := by simp [removeTorrent, found]
      rw [same]
      simp [even.slots]
    | some s =>
      have slots := (removeTorrent_slots host even found).1
      unfold SlotsEven
      constructor
      · rintro kept s' same
        cases same
        omega
      · intro idle
        have none := idle s rfl
        omega
  · have keeps : ∀ hash, task ≠ .remove hash := fun hash same => removes ⟨hash, same⟩
    have idle : RemovesIdle task e := by
      cases task with
      | remove hash => exact absurd rfl (keeps hash)
      | _ => exact trivial
    exact iff_of_true (even_perform digests host now keeps even).slots idle

theorem limit_perform (now : Nat) (task : Task H) (even : Even e) :
    (perform digests host now task e).io.cache.maxInflightBlocks < 2 ^ 64 := by
  by_cases removes : ∃ hash, task = .remove hash
  · obtain ⟨hash, rfl⟩ := removes
    cases found : e.sessions.get? hash with
    | none =>
      have same : perform digests host now (.remove hash) e = e := by simp [perform, removeTorrent, found]
      rw [same]
      exact even.limit
    | some s => exact (removeTorrent_slots host even found).2
  · exact (even_perform digests host now (fun hash same => removes ⟨hash, same⟩) even).limit

theorem slots_even_along_iff (tasks : List (Nat × Task H)) (even : Even e) :
    (∀ moment ∈ taskMoments digests host tasks e, SlotsEven (perform digests host moment.1.1 moment.1.2 moment.2)) ↔
      ∀ moment ∈ taskMoments digests host tasks e, RemovesIdle moment.1.2 moment.2 := by
  induction tasks generalizing e with
  | nil => simp [taskMoments]
  | cons t tail ih =>
    have first := slotsEven_perform_iff digests host t.1 t.2 even
    simp only [taskMoments, List.forall_mem_cons]
    constructor
    · rintro ⟨kept, rest⟩
      exact ⟨first.mp kept, (ih ⟨kept, limit_perform digests host t.1 t.2 even⟩).mp rest⟩
    · rintro ⟨idle, rest⟩
      have kept := first.mpr idle
      exact ⟨kept, (ih ⟨kept, limit_perform digests host t.1 t.2 even⟩).mpr rest⟩

/-- Exactly when the in-flight count is right after every task of a run: when no torrent is removed while
it has requests outstanding. -/
theorem inflight_accounting_iff (cfg : EngineConfig) (peerId : ByteArr 20) (budget : UInt64) (h : H)
    (tasks : List (Nat × Task H)) :
    (∀ moment ∈ taskMoments digests host tasks (Engine.new cfg peerId budget h),
        SlotsEven (perform digests host moment.1.1 moment.1.2 moment.2)) ↔
      ∀ moment ∈ taskMoments digests host tasks (Engine.new cfg peerId budget h), RemovesIdle moment.1.2 moment.2 :=
  slots_even_along_iff digests host tasks (even_new cfg peerId budget h)

end Slots

/-! ### A run with one torrent -/

namespace Sample

def engine : Engine Unit := Engine.new ⟨.default, 6881, false, 512, 8⟩ Session.Sample.env.peerId 0 ()

def plan : TickPlan := ⟨none, none, [], false⟩

def starting : Task Unit := .call Session.Sample.torrent.infoHash .start rfl

def finding : Task Unit := .call Session.Sample.torrent.infoHash (.discovered NetAddr.unspecified .tracker) rfl

/-- A torrent is added and started, a peer is found and connected that has the piece, and a tick asks it. -/
def download : List (Nat × Task Unit) :=
  [(5, .addTorrent Session.Sample.torrent (ascii ".")), (5, .budget (2 ^ 20)),
    (5, starting),
    (5, finding),
    (5, .connectQueue Session.Sample.torrent.infoHash [.ok 1]),
    (5, .pump 1 [.ok (Session.Sample.handshake.encode ++ (Message.bitfield [0x80]).encode ++ Message.unchoke.encode)]),
    (5, .tick Session.Sample.torrent.infoHash plan)]

end Sample

/-- The torrent is removed while its block is requested: no session is left, and one slot is taken. -/
theorem removed_torrent_keeps_slot :
    let e := runTasks Session.Sample.digests Session.Sample.host
      (Sample.download ++ [(5, .remove Session.Sample.torrent.infoHash)]) Sample.engine
    e.io.cache.inflightBlocks = 1 ∧ e.outstanding = 0 ∧ ¬ SlotsEven e := by
  unfold SlotsEven
  decide +kernel

end TypeBit.Engine
