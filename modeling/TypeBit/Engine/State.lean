import TypeBit.Session.Tick

/-! The engine over its sessions: who owns which connection, the inbound connections that have not
said which torrent they want, and the disk cache all sessions share. What the host answers comes with
each task. -/

namespace TypeBit.Metainfo.InfoHash

def rank (h : InfoHash) : Bytes ×ₗ Nat := toLex (h.bytes, h.len)

theorem rank_injective : Function.Injective rank := by
  intro a b same
  cases a
  cases b
  simpa [rank] using same

instance : LinearOrder InfoHash := LinearOrder.lift' rank rank_injective

end TypeBit.Metainfo.InfoHash

namespace TypeBit
open Metainfo Leech Wire Session

structure EngineConfig where
  session : SessionConfig
  listenPort : Nat
  /-- Whether a proxy is set; inbound connections are refused then. -/
  proxied : Bool
  globalMaxConnections : Nat
  maxConnectionsPerIp : Nat

structure InboundPeer where
  addr : NetAddr
  buf : Bytes
  deriving DecidableEq

structure Engine (H : Type) where
  cfg : EngineConfig
  peerId : ByteArr 20
  sessions : OrdMap InfoHash TorrentSession
  connOwner : OrdMap ConnId InfoHash
  /-- Outbound connections still establishing. -/
  connecting : List ConnId
  inbound : OrdMap ConnId InboundPeer
  io : DiskCache.State H
  trace : List (InfoHash × Effect)

namespace Engine
variable {H : Type}

def MAX_INBOUND : Nat := 1024
def MAX_INBOUND_BUF : Nat := 64 * 1024
def new (cfg : EngineConfig) (peerId : ByteArr 20) (cacheBudget : UInt64) (h : H) : Engine H where
  cfg := cfg
  peerId := peerId
  sessions := ∅
  connOwner := ∅
  connecting := []
  inbound := ∅
  io := ⟨DiskCache.Cache.new cacheBudget.toNat, h⟩
  trace := []

def env (e : Engine H) (now : Nat) : Env := ⟨now, e.peerId, e.cfg.listenPort⟩

def world (e : Engine H) (s : TorrentSession) : World H := ⟨s, e.io, []⟩

def onSession (hash : InfoHash) (f : World H → World H) (e : Engine H) : Engine H :=
  match e.sessions.get? hash with
  | none => e
  | some s =>
      let w := f (e.world s)
      { e with
        sessions := e.sessions.insert hash w.sess
        io := w.io
        trace := e.trace ++ w.trace.map (fun effect => (hash, effect)) }

theorem get?_onSession (hash k : InfoHash) (f : World H → World H) (e : Engine H) :
    (e.onSession hash f).sessions.get? k =
      if hash = k then (e.sessions.get? k).map (fun s => (f (e.world s)).sess) else e.sessions.get? k := by
  unfold onSession
  split
  · rename_i absent
    split_ifs with same
    · rw [← same, absent]
      rfl
    · rfl
  · rename_i s found
    dsimp only
    rw [OrdMap.get?_insert]
    split_ifs with same
    · rw [← same, found]
      rfl
    · rfl

@[simp] theorem connOwner_onSession (hash : InfoHash) (f : World H → World H) (e : Engine H) :
    (e.onSession hash f).connOwner = e.connOwner := by
  unfold onSession
  split <;> rfl

@[simp] theorem inbound_onSession (hash : InfoHash) (f : World H → World H) (e : Engine H) :
    (e.onSession hash f).inbound = e.inbound := by
  unfold onSession
  split <;> rfl

/-! ### Torrents -/

def sessionConfig (cfg : EngineConfig) (saveDir : Bytes) : SessionConfig :=
  { cfg.session with saveDir := saveDir, proxied := cfg.proxied, listenPort := cfg.listenPort }

def addTorrentObj (t : Torrent) (saveDir : Bytes) (now : Nat) (e : Engine H) : Result InfoHash × Engine H :=
  if e.sessions.contains t.infoHash then (.error .invalidInput, e)
  else (.ok t.infoHash,
    { e with sessions := e.sessions.insert t.infoHash (fromTorrent t (sessionConfig e.cfg saveDir) now) })

def addMagnet (hash : InfoHash) (webSeeds : List Bytes) (saveDir : Bytes) (now : Nat) (e : Engine H) :
    Result InfoHash × Engine H :=
  if e.sessions.contains hash then (.error .invalidInput, e)
  else (.ok hash,
    { e with sessions := e.sessions.insert hash (fromMagnet hash webSeeds (sessionConfig e.cfg saveDir) now) })

def removeTorrent (host : Host H) (hash : InfoHash) (e : Engine H) : Result Unit × Engine H :=
  match e.sessions.get? hash with
  | none => (.error .notFound, e)
  | some s =>
      let w := stop host (e.world s)
      (.ok (), { e with
        sessions := e.sessions.erase hash
        connOwner := e.connOwner.filter (fun _ owner => decide (owner ≠ hash))
        io := w.io
        trace := e.trace ++ w.trace.map (fun effect => (hash, effect)) })

/-! ### Connections -/

def ipKey : NetAddr → Bytes
  | .v4 ip _ => ip.val ++ List.replicate 12 0
  | .v6 ip _ => ip.val

def ipCount (e : Engine H) (addr : NetAddr) : Nat :=
  e.sessions.total (fun _ s => s.peers.entries.countP (fun p => decide (ipKey p.2.addr = ipKey addr))) +
    e.inbound.entries.countP (fun p => decide (ipKey p.2.addr = ipKey addr))

def admits (e : Engine H) (addr : NetAddr) : Bool :=
  decide (e.connOwner.size + e.connecting.length + e.inbound.size < e.cfg.globalMaxConnections) &&
    decide (e.ipCount addr < e.cfg.maxConnectionsPerIp)

def onInboundConnection (conn : ConnId) (addr : NetAddr) (e : Engine H) : Engine H :=
  if e.cfg.proxied || !e.admits addr || decide (e.inbound.size ≥ MAX_INBOUND) then e
  else { e with inbound := e.inbound.insert conn ⟨addr, []⟩ }

def sweepStale (e : Engine H) : Engine H :=
  { e with connOwner := e.connOwner.filter (fun conn owner =>
      match e.sessions.get? owner with
      | some s => s.peers.contains conn
      | none => false) }

def attachOutbound (hash : InfoHash) (conn : ConnId) (addr : NetAddr) (source : DiscoverySource) (now : Nat)
    (e : Engine H) : Engine H :=
  let e := { e with connOwner := e.connOwner.insert conn hash, connecting := e.connecting ++ [conn] }
  e.onSession hash (attachPeer (e.env now) conn addr true source)

def driveConnectQueue (hash : InfoHash) (dials : List (Result ConnId)) (now : Nat) (e : Engine H) : Engine H :=
  let queued := ((e.sessions.get? hash).map TorrentSession.connectQueue).getD []
  let e := e.onSession hash (fun w => w.map (fun s => { s with connectQueue := [] }))
  (queued.zip dials).foldl (fun e d =>
    if !e.admits d.1.1 then e
    else match d.2 with
      | .ok conn => e.attachOutbound hash conn d.1.1 d.1.2 now
      | .error _ => e) e

def cleanupUtpConn (conn : ConnId) (tcpFallback : Bool) (dial : Result ConnId) (now : Nat) (e : Engine H) : Engine H :=
  let owner := e.connOwner.get? conn
  let e := { e with
    connecting := e.connecting.filter (fun c => decide (c ≠ conn))
    inbound := e.inbound.erase conn
    connOwner := e.connOwner.erase conn }
  match owner with
  | none => e
  | some hash =>
      let peer := ((e.sessions.get? hash).bind (fun s => s.peers.get? conn)).map (fun p => (p.addr, p.source))
      let e := e.onSession hash (dropPeer (e.env now) conn)
      match peer, dial with
      | some p, .ok tcp => if tcpFallback && !e.cfg.proxied then e.attachOutbound hash tcp p.1 p.2 now else e
      | _, _ => e

section Streams
variable (digests : Digests) (host : Host H)

def pumpConnection (conn : ConnId) (hash : InfoHash) (now : Nat) : List (Result Bytes) → Engine H → Engine H
  | [], e => e
  | .ok [] :: _, e => e.onSession hash (dropPeer (e.env now) conn)
  | .ok data :: tail, e => pumpConnection conn hash now tail (e.onSession hash (onData digests host (e.env now) conn data))
  | .error .wouldBlock :: _, e => e
  | .error .notFound :: _, e => e
  | .error _ :: _, e => e.onSession hash (dropPeer (e.env now) conn)

def recvInbound (conn : ConnId) : List (Result Bytes) → Engine H → Bool × Engine H
  | [], e => (true, e)
  | .ok [] :: _, e => (true, e)
  | .ok data :: tail, e =>
      if ((e.inbound.get? conn).map (fun p => decide (p.buf.length + data.length > MAX_INBOUND_BUF))).getD false then
        (false, { e with inbound := e.inbound.erase conn })
      else recvInbound conn tail { e with inbound := e.inbound.modify conn (fun p => { p with buf := p.buf ++ data }) }
  | .error .wouldBlock :: _, e => (true, e)
  | .error _ :: _, e => (false, { e with inbound := e.inbound.erase conn })

def sessionFor (infoHash : Bytes) (e : Engine H) : Option InfoHash :=
  (e.sessions.keys.find? (fun h => decide (h.asBytes = (InfoHash.v1 infoHash).asBytes))).or
    (e.sessions.keys.find? (fun h => decide (h.asBytes.take 20 = (InfoHash.v1 infoHash).asBytes.take 20)))

def routeInbound (conn : ConnId) (now : Nat) (e : Engine H) : Engine H :=
  match e.inbound.get? conn with
  | none => e
  | some p =>
      if p.buf.length < HANDSHAKE_LEN then e
      else
        let gone := { e with inbound := e.inbound.erase conn }
        match Handshake.parse (p.buf.take HANDSHAKE_LEN) with
        | .error _ => gone
        | .ok their =>
            match e.sessionFor their.infoHash with
            | none => gone
            | some hash =>
                let leftover := p.buf.drop HANDSHAKE_LEN
                let owned := { gone with connOwner := gone.connOwner.insert conn hash }
                let attached := owned.onSession hash (attachPeer (e.env now) conn p.addr false .manual)
                if leftover = [] then attached
                else attached.onSession hash (onData digests host (e.env now) conn leftover)

def pumpInbound (conn : ConnId) (results : List (Result Bytes)) (now : Nat) (e : Engine H) : Engine H :=
  match recvInbound conn results e with
  | (false, e) => e
  | (true, e) => routeInbound digests host conn now e

end Streams

/-! ### Tasks -/

/-- The events the engine or its user asks of a session directly. The others are parts of a tick, of the
pumps or of the connect queue. -/
def direct : Session.Event H → Bool
  | .connectDone _ => true
  | .drop _ => true
  | .verified _ _ _ => true
  | .takePendingVerify => true
  | .setFilePriority _ _ => true
  | .setFilePriorities _ => true
  | .setHoldData _ => true
  | .start => true
  | .pause => true
  | .resume => true
  | .stop => true
  | .install _ => true
  | .rangeJobDone _ _ => true
  | .discovered _ _ => true
  | .sent _ _ => true
  | _ => false

/-- One step of the engine, with what the host answers in it. -/
inductive Task (H : Type) where
  | addTorrent (t : Torrent) (saveDir : Bytes)
  | addMagnet (hash : InfoHash) (webSeeds : List Bytes) (saveDir : Bytes)
  | remove (hash : InfoHash)
  | restore (hash : InfoHash) (haveBytes priorities : Bytes) (up down : Nat) (reputation : Option ReputationStore)
  | call (hash : InfoHash) (event : Session.Event H) (plain : direct event = true)
  | tick (hash : InfoHash) (plan : TickPlan)
  | incoming (conn : ConnId) (addr : NetAddr)
  | utpAccepted (conn : ConnId) (addr : NetAddr)
  | sweepStale
  | budget (bytes : Nat)
  | connectQueue (hash : InfoHash) (dials : List (Result ConnId))
  | pump (conn : ConnId) (results : List (Result Bytes))
  | inbound (conn : ConnId) (results : List (Result Bytes))
  | cleanupUtp (conn : ConnId) (tcpFallback : Bool) (dial : Result ConnId)
  | flush (maxBytes : Nat)
  | hostActs (h : H)

section Tasks
variable (digests : Digests) (host : Host H)

def perform (now : Nat) (task : Task H) (e : Engine H) : Engine H :=
  match task with
  | .addTorrent t saveDir => (e.addTorrentObj t saveDir now).2
  | .addMagnet hash webSeeds saveDir => (e.addMagnet hash webSeeds saveDir now).2
  | .remove hash => (e.removeTorrent host hash).2
  | .restore hash haveBytes priorities up down reputation =>
      e.onSession hash (fun w => w.map (fun s => (applySavedState haveBytes priorities up down reputation now s).2))
  | .call hash event _ => e.onSession hash (step digests host (e.env now) event)
  | .tick hash plan => e.onSession hash (Session.tick host (e.env now) plan)
  | .incoming conn addr => e.onInboundConnection conn addr
  | .utpAccepted conn addr => { e with inbound := e.inbound.insert conn ⟨addr, []⟩ }
  | .sweepStale => e.sweepStale
  | .budget bytes => { e with io := { e.io with cache := e.io.cache.setTickDownBudget bytes } }
  | .connectQueue hash dials => e.driveConnectQueue hash dials now
  | .pump conn results =>
      match e.connOwner.get? conn with
      | none => e
      | some hash => e.pumpConnection digests host conn hash now results
  | .inbound conn results => e.pumpInbound digests host conn results now
  | .cleanupUtp conn tcpFallback dial => e.cleanupUtpConn conn tcpFallback dial now
  | .flush maxBytes => { e with io := (DiskCache.flushBounded host.toDiskHost maxBytes e.io).2 }
  | .hostActs h => { e with io := { e.io with host := h } }

def runTasks : List (Nat × Task H) → Engine H → Engine H
  | [], e => e
  | t :: tail, e => runTasks tail (perform digests host t.1 t.2 e)

def taskMoments : List (Nat × Task H) → Engine H → List ((Nat × Task H) × Engine H)
  | [], _ => []
  | t :: tail, e => (t, e) :: taskMoments tail (perform digests host t.1 t.2 e)

end Tasks
end Engine
end TypeBit
