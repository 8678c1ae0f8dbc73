import TypeBit.Engine.State
import TypeBit.Utp.Flushing

/-! The connections of the engine and the transports under them: which session lists which handle, the inbound
connections that have not said what they want, the outbound ones still establishing, the uTP sockets, and the calls of
`tcp_close`. Of a session only its peer table is kept; when it lets a peer go, and what the host answers, comes with
each step. -/

namespace TypeBit.Utp.UtpManager

def isConnected (m : UtpManager) (id : ConnId) : Bool :=
  match m.conns.get? id with
  | some s => s.isConnected
  | none => false

end TypeBit.Utp.UtpManager

namespace TypeBit
open Metainfo Wire Utp RateLimit

def isUtpHandle (conn : ConnId) : Bool := decide (conn &&& UTP_HANDLE_FLAG ≠ 0)

structure LinkConfig where
  proxied : Bool
  globalMaxConnections : Nat
  maxConnectionsPerIp : Nat
  connectTimeoutMs : Nat
  deriving DecidableEq

structure PeerLink where
  addr : NetAddr
  source : DiscoverySource
  deriving DecidableEq

structure SessionLinks where
  peers : OrdMap ConnId PeerLink := ∅
  stopped : Bool := true
  deriving DecidableEq

structure Links (H : Type) where
  cfg : LinkConfig
  sessions : OrdMap InfoHash SessionLinks := ∅
  connOwner : OrdMap ConnId InfoHash := ∅
  /-- Outbound connections still establishing. -/
  connecting : List ConnId := []
  connectDeadline : OrdMap ConnId Nat := ∅
  inbound : OrdMap ConnId InboundPeer := ∅
  udpOpen : Bool := false
  utp : UtpManager := .new
  udp : H
  /-- The calls of `tcp_close`, in order. -/
  tcpClosed : List ConnId := []
  /-- The address each connection was let in from last, for the statements only: nothing reads it. -/
  homes : OrdMap ConnId NetAddr := ∅

namespace Links
variable {H : Type}

def tcpClose (conn : ConnId) (l : Links H) : Links H := { l with tcpClosed := l.tcpClosed ++ [conn] }

def streamClose (conn : ConnId) (l : Links H) : Links H :=
  if isUtpHandle conn then { l with utp := l.utp.close conn } else l.tcpClose conn

/-! ### What sessions do -/

def dropPeer (hash : InfoHash) (conn : ConnId) (l : Links H) : Links H :=
  match l.sessions.get? hash with
  | none => l
  | some s => tcpClose conn { l with sessions := l.sessions.insert hash { s with peers := s.peers.erase conn } }

def attachPeer (hash : InfoHash) (conn : ConnId) (addr : NetAddr) (source : DiscoverySource) (banned : Bool)
    (l : Links H) : Links H :=
  match l.sessions.get? hash with
  | none => l
  | some s =>
      if banned then l.tcpClose conn
      else { l with sessions := l.sessions.insert hash { s with peers := s.peers.insert conn ⟨addr, source⟩ } }

def disown (conn : ConnId) (l : Links H) : Links H :=
  tcpClose conn { l with connectDeadline := l.connectDeadline.erase conn, connOwner := l.connOwner.erase conn }

def removeTorrent (hash : InfoHash) (l : Links H) : Links H :=
  match l.sessions.get? hash with
  | none => l
  | some s =>
      let l := if s.stopped then l else s.peers.keys.foldl (fun l c => l.tcpClose c) l
      let conns := (l.connOwner.entries.filter fun e => decide (e.2 = hash)).map Prod.fst
      conns.foldl (fun l c => l.disown c) { l with sessions := l.sessions.erase hash }

/-! ### The limits -/

def total (l : Links H) : Nat := l.connOwner.size + l.connecting.length + l.inbound.size

def onIp (key : Bytes) (l : Links H) : Nat :=
  l.sessions.total (fun _ s => s.peers.total fun _ p => if Engine.ipKey p.addr = key then 1 else 0) +
    l.inbound.total fun _ p => if Engine.ipKey p.addr = key then 1 else 0

def ipCount (addr : NetAddr) (l : Links H) : Nat := l.onIp (Engine.ipKey addr)

def letIn (conn : ConnId) (addr : NetAddr) (l : Links H) : Links H :=
  { l with inbound := l.inbound.insert conn ⟨addr, []⟩, homes := l.homes.insert conn addr }

def onInboundConnection (conn : ConnId) (addr : NetAddr) (l : Links H) : Links H :=
  if l.cfg.proxied then l.tcpClose conn
  else if l.cfg.globalMaxConnections ≤ l.total ∨ l.cfg.maxConnectionsPerIp ≤ l.ipCount addr then l.tcpClose conn
  else if Engine.MAX_INBOUND ≤ l.inbound.size then l.tcpClose conn
  else l.letIn conn addr

/-! ### Outbound connections -/

def attachOutbound (hash : InfoHash) (conn : ConnId) (addr : NetAddr) (source : DiscoverySource) (banned : Bool)
    (now : Nat) (l : Links H) : Links H :=
  attachPeer hash conn addr source banned
    { l with
      connOwner := l.connOwner.insert conn hash
      connecting := l.connecting ++ [conn]
      connectDeadline := l.connectDeadline.insert conn (satAdd now l.cfg.connectTimeoutMs)
      homes := l.homes.insert conn addr }

def dialQueued (hash : InfoHash) (addr : NetAddr) (source : DiscoverySource) (banned : Bool) (answer : Result ConnId)
    (now : Nat) (l : Links H) : Links H :=
  if l.cfg.globalMaxConnections ≤ l.total then l
  else if l.cfg.maxConnectionsPerIp ≤ l.ipCount addr then l
  else if !l.cfg.proxied && l.udpOpen then
    match l.utp.connect addr (satMul now 1000) with
    | none => l
    | some (conn, utp) => attachOutbound hash conn addr source banned now { l with utp := utp }
  else
    match answer with
    | .ok conn => attachOutbound hash conn addr source banned now l
    | .error _ => l

def unlist (conn : ConnId) (l : Links H) : Links H :=
  { l with
    connectDeadline := l.connectDeadline.erase conn
    connecting := l.connecting.filter fun c => decide (c ≠ conn)
    inbound := l.inbound.erase conn
    connOwner := l.connOwner.erase conn }

def cleanupUtpConn (conn : ConnId) (tcpFallback : Bool) (answer : Result ConnId) (banned : Bool) (now : Nat)
    (l : Links H) : Links H :=
  match l.connOwner.get? conn with
  | none => l.unlist conn
  | some hash =>
      let dropped := (l.unlist conn).dropPeer hash conn
      match (l.sessions.get? hash).bind fun s => s.peers.get? conn, answer with
      | some p, .ok tcp =>
          if tcpFallback && !l.cfg.proxied then dropped.attachOutbound hash tcp p.addr p.source banned now else dropped
      | _, _ => dropped

def sweepStale (l : Links H) : Links H :=
  let stale := (l.connOwner.entries.filter fun e =>
    match l.sessions.get? e.2 with
    | some s => !s.peers.contains e.1
    | none => true).map Prod.fst
  stale.foldl (fun l c => l.disown c) l

/-- What the host answers while the establishing connections are driven, by position. -/
structure Replies where
  connectDone : Nat → Result Unit
  dial : Nat → Result ConnId
  banned : Nat → Bool

def overdue (conn : ConnId) (now : Nat) (l : Links H) : Bool :=
  decide ((l.connectDeadline.get? conn).getD (2 ^ 64 - 1) < now)

def settle (replies : Replies) (now : Nat) (acc : List ConnId × Links H) (entry : ConnId × Nat) : List ConnId × Links H :=
  let (conn, i) := entry
  let (still, l) := acc
  match l.connOwner.get? conn with
  | none => acc
  | some hash =>
      let timed := { l with connectDeadline := l.connectDeadline.erase conn }
      if isUtpHandle conn then
        if l.utp.isConnected conn then (still, timed)
        else if l.overdue conn now then (still, timed.cleanupUtpConn conn true (replies.dial i) (replies.banned i) now)
        else (still ++ [conn], l)
      else
        match replies.connectDone i with
        | .error .wouldBlock => if l.overdue conn now then (still, timed.dropPeer hash conn) else (still ++ [conn], l)
        | .error _ => (still, timed.dropPeer hash conn)
        -- Its session goes on with it, or its SOCKS handshake does.
        | .ok () => (still, timed)

/-- Drive the establishing connections. The list is taken out and replaced by those that go on: a fallback pushed
meanwhile is lost from it. -/
def driveConnecting (replies : Replies) (now : Nat) (l : Links H) : Links H :=
  let (still, l) := l.connecting.zipIdx.foldl (settle replies now) ([], { l with connecting := [] })
  { l with connecting := still }

/-! ### Inbound connections -/

def recvInbound (conn : ConnId) : List (Result Bytes) → Links H → Bool × Links H
  | [], l => (true, l)
  | .ok [] :: _, l => (true, l)
  | .ok data :: tail, l =>
      if ((l.inbound.get? conn).map fun p => decide (Engine.MAX_INBOUND_BUF < p.buf.length + data.length)).getD false then
        (false, streamClose conn { l with inbound := l.inbound.erase conn })
      else recvInbound conn tail { l with inbound := l.inbound.modify conn fun p => { p with buf := p.buf ++ data } }
  | .error .wouldBlock :: _, l => (true, l)
  | .error _ :: _, l => (false, streamClose conn { l with inbound := l.inbound.erase conn })

def sessionFor (infoHash : Bytes) (l : Links H) : Option InfoHash :=
  (l.sessions.keys.find? fun h => decide (h.asBytes = (InfoHash.v1 infoHash).asBytes)).or
    (l.sessions.keys.find? fun h => decide (h.asBytes.take 20 = (InfoHash.v1 infoHash).asBytes.take 20))

def routeInbound (conn : ConnId) (banned : Bool) (l : Links H) : Links H :=
  match l.inbound.get? conn with
  | none => l
  | some p =>
      if p.buf.length < HANDSHAKE_LEN then l
      else
        let gone := { l with inbound := l.inbound.erase conn }
        match Handshake.parse (p.buf.take HANDSHAKE_LEN) with
        | .error _ => gone.streamClose conn
        | .ok their =>
            match l.sessionFor their.infoHash with
            | none => gone.streamClose conn
            | some hash =>
                attachPeer hash conn p.addr .manual banned { gone with connOwner := gone.connOwner.insert conn hash }

def pumpInbound (conn : ConnId) (results : List (Result Bytes)) (banned : Bool) (l : Links H) : Links H :=
  match recvInbound conn results l with
  | (false, l) => l
  | (true, l) => routeInbound conn banned l

/-! ### The uTP part of a tick -/

def takeAccepted (accepted : List (ConnId × NetAddr)) (l : Links H) : Links H :=
  accepted.foldl (fun l e => l.letIn e.1 e.2) l

def takeReaped (replies : Replies) (now : Nat) (reaped : List ConnId) (l : Links H) : Links H :=
  reaped.zipIdx.foldl (fun l e =>
    l.cleanupUtpConn e.1 (l.connecting.contains e.1) (replies.dial e.2) (replies.banned e.2) now) l

def driveUtp (host : UdpHost H) (replies : Replies) (now : Nat) (l : Links H) : Links H :=
  if !l.udpOpen then l
  else
    let (utp, udp) := l.utp.tick host (satMul now 1000) l.udp
    let (accepted, utp) := utp.takeAccepted
    let l := takeAccepted accepted { l with utp := utp, udp := udp }
    let (reaped, utp) := l.utp.takeReaped
    takeReaped replies now reaped { l with utp := utp }

/-! ### What sessions leave alone -/

theorem dropPeer_eq (hash : InfoHash) (conn : ConnId) (l : Links H) : l.dropPeer hash conn =
    { l with sessions := (l.dropPeer hash conn).sessions, tcpClosed := (l.dropPeer hash conn).tcpClosed } := by
  unfold dropPeer
  split
  · rfl
  · rfl

theorem attachPeer_eq (hash : InfoHash) (conn : ConnId) (addr : NetAddr) (source : DiscoverySource) (banned : Bool)
    (l : Links H) : l.attachPeer hash conn addr source banned =
      { l with
        sessions := (l.attachPeer hash conn addr source banned).sessions
        tcpClosed := (l.attachPeer hash conn addr source banned).tcpClosed } := by
  unfold attachPeer
  split
  · rfl
  split
  · rfl
  · rfl

section Frames
variable (hash : InfoHash) (conn : ConnId) (addr : NetAddr) (source : DiscoverySource) (banned : Bool) (l : Links H)

@[simp] theorem connOwner_dropPeer : (l.dropPeer hash conn).connOwner = l.connOwner := by rw [dropPeer_eq]

@[simp] theorem connectDeadline_dropPeer : (l.dropPeer hash conn).connectDeadline = l.connectDeadline := by rw [dropPeer_eq]

@[simp] theorem inbound_dropPeer : (l.dropPeer hash conn).inbound = l.inbound := by rw [dropPeer_eq]

@[simp] theorem utp_dropPeer : (l.dropPeer hash conn).utp = l.utp := by rw [dropPeer_eq]

@[simp] theorem cfg_attachPeer : (l.attachPeer hash conn addr source banned).cfg = l.cfg := by rw [attachPeer_eq]

@[simp] theorem connOwner_attachPeer : (l.attachPeer hash conn addr source banned).connOwner = l.connOwner := by rw [attachPeer_eq]

@[simp] theorem connecting_attachPeer : (l.attachPeer hash conn addr source banned).connecting = l.connecting := by rw
    [attachPeer_eq]

@[simp] theorem connectDeadline_attachPeer :
    (l.attachPeer hash conn addr source banned).connectDeadline = l.connectDeadline := by rw [attachPeer_eq]

@[simp] theorem inbound_attachPeer : (l.attachPeer hash conn addr source banned).inbound = l.inbound := by rw [attachPeer_eq]

@[simp] theorem homes_attachPeer : (l.attachPeer hash conn addr source banned).homes = l.homes := by rw [attachPeer_eq]

@[simp] theorem utp_attachPeer : (l.attachPeer hash conn addr source banned).utp = l.utp := by rw [attachPeer_eq]

end Frames

/-! ### Steps -/

inductive Step where
  | addTorrent (hash : InfoHash)
  /-- The session leaves its first status; only its removal stops it. -/
  | start (hash : InfoHash)
  | removeTorrent (hash : InfoHash)
  | openUdp
  /-- A session, or the engine for it, lets a peer go, for whatever reason. -/
  | drop (hash : InfoHash) (conn : ConnId)
  | incoming (conn : ConnId) (addr : NetAddr)
  | sweepStale
  | driveConnecting (replies : Replies)
  | dialQueued (hash : InfoHash) (addr : NetAddr) (source : DiscoverySource) (banned : Bool) (answer : Result ConnId)
  /-- What the stream yields comes with the step; the reads of a uTP socket are steps of their own. -/
  | pumpInbound (conn : ConnId) (results : List (Result Bytes)) (banned : Bool)
  | datagram (source : NetAddr) (payload : Bytes)
  | utpSend (conn : ConnId) (data : Bytes)
  | utpRecv (conn : ConnId) (n : Nat)
  | driveUtp (replies : Replies)

def perform (host : UdpHost H) (now : Nat) (l : Links H) : Step → Links H
  | .addTorrent hash => if l.sessions.contains hash then l else { l with sessions := l.sessions.insert hash {} }
  | .start hash => { l with sessions := l.sessions.modify hash fun s => { s with stopped := false } }
  | .removeTorrent hash => l.removeTorrent hash
  | .openUdp => { l with udpOpen := true }
  | .drop hash conn => l.dropPeer hash conn
  | .incoming conn addr => l.onInboundConnection conn addr
  | .sweepStale => l.sweepStale
  | .driveConnecting replies => l.driveConnecting replies now
  | .dialQueued hash addr source banned answer =>
      if l.sessions.contains hash then l.dialQueued hash addr source banned answer now else l
  | .pumpInbound conn results banned => l.pumpInbound conn results banned
  | .datagram source payload =>
      match l.utp.handleDatagram host source payload (satMul now 1000) l.udp with
      | (_, utp, udp) => { l with utp := utp, udp := udp }
  | .utpSend conn data => { l with utp := (l.utp.send conn data).2 }
  | .utpRecv conn n => { l with utp := (l.utp.recv conn n).2 }
  | .driveUtp replies => l.driveUtp host replies now

def moments (host : UdpHost H) : List (UInt64 × Step) → Links H → List ((UInt64 × Step) × Links H)
  | [], _ => []
  | t :: tail, l => (t, l) :: moments host tail (l.perform host t.1.toNat t.2)

def run (host : UdpHost H) : List (UInt64 × Step) → Links H → Links H
  | [], l => l
  | t :: tail, l => run host tail (l.perform host t.1.toNat t.2)

def new (cfg : LinkConfig) (udp : H) : Links H := { cfg, udp }

theorem run_invariant {host : UdpHost H} {P : Links H → Prop} {Q : Step → Links H → Nat → Prop}
    (each : ∀ now < 2 ^ 64, ∀ step l, P l → Q step l now → P (l.perform host now step)) (steps : List (UInt64 × Step))
    {l : Links H} (start : P l) (orderly : ∀ m ∈ moments host steps l, Q m.1.2 m.2 m.1.1.toNat) :
    (∀ m ∈ moments host steps l, P m.2) ∧ P (run host steps l) := by
  induction steps generalizing l with
  | nil => exact ⟨by simp [moments], start⟩
  | cons t tail ih =>
    have next := each t.1.toNat t.1.toNat_lt t.2 l start (orderly _ List.mem_cons_self)
    obtain ⟨later, last⟩ := ih next (fun m member => orderly m (List.mem_cons_of_mem _ member))
    refine ⟨?_, last⟩
    intro m member
    rcases List.mem_cons.mp member with rfl | rest
    · exact start
    · exact later m rest

end Links
end TypeBit
