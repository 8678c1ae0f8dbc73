import TypeBit.Session.State
import TypeBit.Wire.Extended

/-! The peer side of a session: attaching, the handshake, interest, availability, peer exchange,
and every way a peer is let go. -/

namespace TypeBit.Session
open Metainfo Leech Wire

namespace TorrentSession

def blockCount (s : TorrentSession) (piece : Nat) : Nat :=
  match s.torrent with
  | none => 1
  | some t =>
      match t.pieceInfo piece with
      | .ok info => blockCountFor info.len
      | .error _ => 1

def peerAddr (s : TorrentSession) (conn : ConnId) : NetAddr := ((s.peers.get? conn).map Peer.addr).getD NetAddr.unspecified

def releaseBlock (s : TorrentSession) (k : BlockKey) : TorrentSession :=
  { s with
    requestedAt := s.requestedAt.erase k
    pieces := s.pieces.clearBlockRequested (ofLex k).1 (ofLex k).2 (s.blockCount (ofLex k).1) }

end TorrentSession

/-! ### Metadata requests -/

def METADATA_PIECE : Nat := 16 * 1024

namespace MetadataFetch

def pieceCount (m : MetadataFetch) : Nat := if m.size = 0 then 0 else divCeil m.size METADATA_PIECE

def unanswered (m : MetadataFetch) : List Nat :=
  (List.range m.requested.len).filter (fun p =>
    m.requested.get p && !m.pieces.contains p && (decide (m.pieceCount = 0) || decide (p < m.pieceCount)))

def release (m : MetadataFetch) : MetadataFetch :=
  { m with
    requested := m.unanswered.foldl Bitfield.clear m.requested
    outstanding := m.outstanding - m.unanswered.length }

end MetadataFetch

def clearMetadataRequests (s : TorrentSession) : TorrentSession := { s with metadata := s.metadata.map MetadataFetch.release }

/-! ### Availability -/

def availabilityOf (n : Nat) (peers : List Peer) : List Nat :=
  peers.foldl (fun counts p =>
    if p.haveAll then counts.map (· + 1)
    else p.haveBits.setBits.foldl (fun counts b => if b < n then counts.modify b (· + 1) else counts) counts)
    (List.replicate n 0)

def recomputeAvailability (s : TorrentSession) : TorrentSession :=
  if s.pieces.pieceCount = 0 then s
  else
    let counts := availabilityOf s.pieces.pieceCount (s.peers.entries.map Prod.snd)
    { s with availability := counts, scheduler := s.scheduler.updateAvailability counts }

def syncInterest (conn : ConnId) (s : TorrentSession) : TorrentSession :=
  match s.peers.get? conn with
  | none => s
  | some p =>
      if p.phase ≠ .ready then s
      else
        let want := p.shouldBeInterested s.pieces.haveBits s.piecePriorities
        if want = p.amInterested then s
        else
          let told := { p with amInterested := want }.send (if want then .interested else .notInterested)
          { s with peers := s.peers.insert conn told }

section Peers
variable {H : Type} (env : Env)

def SWARM_EMPTY_REANNOUNCE_MS : Nat := 5000

def maybeReannounceEmptySwarm (w : World H) : World H :=
  if w.sess.status ≠ .downloading ∧ w.sess.status ≠ .fetchingMetadata then w
  else if w.sess.peers.entries.any (fun e => decide (e.2.phase = .ready)) then w
  else if env.now - w.sess.lastSwarmEmptyAt < SWARM_EMPTY_REANNOUNCE_MS then w
  else (w.map (fun s => { s with lastSwarmEmptyAt := env.now, announceAt := env.now })).emit (.announced .none)

def releaseRequests (conn : ConnId) (w : World H) : World H :=
  let hit := w.sess.requestedBy.entries.filter (fun e => e.2.contains conn)
  let toClear := (hit.filter (fun e => (e.2.erase conn).isEmpty)).map Prod.fst
  let w := hit.foldl (fun w _ => w.inflightDec) w
  let w := w.map (fun s => { s with
    requestedBy := (s.requestedBy.mapValues (fun _ reqs => reqs.erase conn)).filter (fun _ reqs => !reqs.isEmpty) })
  toClear.foldl (fun w k => w.map (fun s => s.releaseBlock k)) w

def detach (conn : ConnId) (w : World H) : World H :=
  let w :=
    if w.sess.peers.contains conn then
      releaseRequests conn (w.map (fun s => { s with peers := s.peers.erase conn }))
    else w
  if w.sess.torrent.isNone then w.map clearMetadataRequests else w

def onDisconnect (conn : ConnId) (w : World H) : World H :=
  maybeReannounceEmptySwarm env ((detach conn w).map recomputeAvailability)

def dropPeer (conn : ConnId) (w : World H) : World H :=
  maybeReannounceEmptySwarm env (((detach conn w).emit (.closed conn)).map recomputeAvailability)

/-- Forgetting a peer touches the peers and the request tables, nothing else the engine looks at. -/
structure LetGo (conn : ConnId) (s u : TorrentSession) : Prop where
  peers : u.peers = s.peers.erase conn
  status : u.status = s.status
  connectQueue : u.connectQueue = s.connectQueue

theorem releaseRequests_letGo (conn : ConnId) (w : World H) :
    (releaseRequests conn w).sess.peers = w.sess.peers ∧ (releaseRequests conn w).sess.status = w.sess.status ∧
      (releaseRequests conn w).sess.connectQueue = w.sess.connectQueue := by
  have freed : ∀ (hit : List (BlockKey × List ConnId)) (v : World H),
      (hit.foldl (fun w _ => w.inflightDec) v).sess = v.sess := by
    intro hit
    induction hit with
    | nil => exact fun v => rfl
    | cons k tail ih => exact fun v => ih v.inflightDec
  have cleared : ∀ (keys : List BlockKey) (v : World H),
      (keys.foldl (fun w k => w.map (fun s => s.releaseBlock k)) v).sess.peers = v.sess.peers ∧
        (keys.foldl (fun w k => w.map (fun s => s.releaseBlock k)) v).sess.status = v.sess.status ∧
        (keys.foldl (fun w k => w.map (fun s => s.releaseBlock k)) v).sess.connectQueue = v.sess.connectQueue := by
    intro keys
    induction keys with
    | nil => exact fun v => ⟨rfl, rfl, rfl⟩
    | cons k tail ih => exact fun v => ih (v.map (fun s => s.releaseBlock k))
  unfold releaseRequests
  dsimp only
  obtain ⟨peers, status, queue⟩ := cleared _ _
  rw [peers, status, queue]
  simp only [World.map, freed, and_self]

theorem detach_letGo (conn : ConnId) (w : World H) : LetGo conn w.sess (detach conn w).sess := by
  have freed : LetGo conn w.sess (if w.sess.peers.contains conn then
      releaseRequests conn (w.map (fun s => { s with peers := s.peers.erase conn })) else w).sess := by
    split
    · obtain ⟨peers, status, queue⟩ :=
        releaseRequests_letGo conn (w.map (fun s => { s with peers := s.peers.erase conn }))
      exact ⟨peers, status, queue⟩
    · rename_i absent
      have missing : w.sess.peers.get? conn = none := by simpa [OrdMap.contains] using absent
      exact ⟨(OrdMap.erase_of_absent missing).symm, rfl, rfl⟩
  unfold detach
  dsimp only
  generalize (if w.sess.peers.contains conn then
    releaseRequests conn (w.map (fun s => { s with peers := s.peers.erase conn })) else w) = v at freed ⊢
  split
  · exact ⟨freed.peers, freed.status, freed.connectQueue⟩
  · exact freed

theorem dropPeer_letGo (conn : ConnId) (w : World H) : LetGo conn w.sess (dropPeer env conn w).sess := by
  have gone := detach_letGo conn w
  have counted : LetGo conn w.sess (((detach conn w).emit (.closed conn)).map recomputeAvailability).sess := by
    change LetGo conn w.sess (recomputeAvailability (detach conn w).sess)
    unfold recomputeAvailability
    split
    · exact gone
    · exact ⟨gone.peers, gone.status, gone.connectQueue⟩
  unfold dropPeer maybeReannounceEmptySwarm
  generalize ((detach conn w).emit (.closed conn)).map recomputeAvailability = v at counted ⊢
  split_ifs
  · exact counted
  · exact counted
  · exact counted
  · exact ⟨counted.peers, counted.status, counted.connectQueue⟩

def banPeer (conn : ConnId) (addr : NetAddr) (reason : BanReason) (w : World H) : World H :=
  let peerId := (w.sess.peers.get? conn).bind Peer.peerId
  let w := w.map (fun s => { s with bans := s.bans.ban addr peerId s.cfg.leech.banTtlMs reason env.now })
  dropPeer env conn (w.emit (.peerBanned addr reason))

def noteProtocolViolation (conn : ConnId) (w : World H) : World H :=
  let w := w.mapPeer conn (fun p =>
    { p with rep := { p.rep with protocolViolations := satAdd32 p.rep.protocolViolations 1 } })
  match w.sess.peers.get? conn with
  | none => dropPeer env conn w
  | some p =>
      if p.rep.protocolViolations ≥ w.sess.cfg.leech.protocolBanThreshold then
        banPeer env conn p.addr .protocol
          (w.map (fun s => { s with reputation := s.reputation.noteViolation p.addr p.peerId env.now }))
      else dropPeer env conn w

/-! ### Attaching and the handshake -/

def ourReserved (ih : InfoHash) : Bytes := [0, 0, 0, 0, 0, 0x10, 0, if ih.len = 32 then 0x8D else 0x0D]

def ourHandshake (s : TorrentSession) : Bytes :=
  PROTOCOL.length.toUInt8 :: PROTOCOL ++ ourReserved s.infoHash ++ s.trackerHash ++ env.peerId.val

def attachPeer (conn : ConnId) (addr : NetAddr) (_outbound : Bool) (source : DiscoverySource) (w : World H) : World H :=
  if w.sess.bans.isBanned addr env.now then w.emit (.closed conn)
  else
    let peer := { Peer.new conn addr w.sess.pieces.pieceCount source w.sess.cfg.requestPipeline with
      connectedAt := env.now, phase := .handshake }
    w.map (fun s => { s with peers := s.peers.insert conn (peer.sendRaw (ourHandshake env s)) })

def onConnectDone (conn : ConnId) (w : World H) : World H :=
  w.mapPeer conn (fun p => { p with phase := .handshake, connectedAt := env.now })

def EXTERNAL_PORT_MIN_WITNESSES : Nat := 2
def EXTERNAL_PORT_TTL_MS : Nat := 15 * 60 * 1000

def trimPorts (ports : OrdMap Nat (List (NetAddr × Nat))) : Nat → OrdMap Nat (List (NetAddr × Nat))
  | 0 => ports
  | n + 1 =>
      if ports.size > 64 then
        match ports.keys.head? with
        | some k => trimPorts (ports.erase k) n
        | none => ports
      else ports

def observeExternalPort (port : Nat) (witness : NetAddr) (s : TorrentSession) : TorrentSession :=
  if port = 0 then s
  else
    let seen := (s.externalPorts.get? port).getD []
    let seen := if seen.any (fun e => decide (e.1 = witness)) then seen else seen ++ [(witness, env.now)]
    let ports := s.externalPorts.insert port (seen.filter (fun e => decide (env.now - e.2 < EXTERNAL_PORT_TTL_MS)))
    { s with externalPorts := trimPorts ports ports.size }

def confirmedExternalPort (s : TorrentSession) (now : Nat) : Option Nat :=
  (s.externalPorts.entries.find? (fun e =>
    decide (e.2.countP (fun o => decide (now - o.2 < EXTERNAL_PORT_TTL_MS)) ≥ EXTERNAL_PORT_MIN_WITNESSES))).map Prod.fst

def distinct (addrs : List NetAddr) : List NetAddr := (addrs.foldl (fun m a => m.insert a ()) (∅ : OrdMap NetAddr Unit)).keys

def broadcastPexTo (conn : ConnId) (s : TorrentSession) : TorrentSession :=
  match s.peers.get? conn with
  | none => s
  | some p =>
      match p.extPex with
      | none => s
      | some id =>
          let ready := (s.peers.entries.filter (fun e => decide (e.1 ≠ conn) && decide (e.2.phase = .ready))).map (fun e => e.2.addr)
          let others := (distinct (ready ++ s.pexKnown)).take 50
          let msg : PexMsg := { PexMsg.default with
            added := (others.filterMap NetAddr.toCompact6).flatten
            added6 := (others.filterMap NetAddr.toCompact18).flatten
            p := if s.cfg.proxied then none else some ((confirmedExternalPort s p.lastActive).getD s.cfg.listenPort) }
          { s with peers := s.peers.insert conn (p.send (.extended id msg.encode)) }

def broadcastPex (s : TorrentSession) : TorrentSession := s.peers.keys.foldl (fun s c => broadcastPexTo c s) s

def haveMessage (t : PieceTracker) (fast : Bool) : Message :=
  if fast then
    if t.haveCount = t.pieceCount ∧ t.pieceCount > 0 then .haveAll
    else if t.haveCount = 0 then .haveNone
    else .bitfield t.haveBits.toBytes
  else .bitfield t.haveBits.toBytes

def ourExtHandshake (s : TorrentSession) : ExtHandshake where
  m := (∅ : OrdMap Bytes UInt8).insert (ascii "ut_metadata") 3 |>.insert (ascii "ut_pex") 5
  v := some (ascii "TypeBit")
  reqq := some s.cfg.requestPipeline
  metadataSize := s.torrent.map (fun t => t.infoRaw.length % 2 ^ 32)
  p := some (if s.cfg.proxied then 0 else env.port)
  yourport := none

def identify (their : Handshake) (s : TorrentSession) (p : Peer) : Peer :=
  let stored := (s.reputation.storedFor their.peerId).getD (0, 0)
  { p with
    peerId := some their.peerId
    rep := ⟨some (fingerprint their.peerId), satAdd32 p.rep.corruptBlocks stored.1,
      satAdd32 p.rep.protocolViolations stored.2⟩ }

def welcome (their : Handshake) (s : TorrentSession) (p : Peer) : Peer :=
  let p := { p with
    reserved := their.reserved
    fast := their.hasFast
    supportsDht := their.hasDht
    supportsV2 := their.hasV2
    isSeed := false
    phase := .ready }
  let p := p.send (haveMessage s.pieces p.fast)
  if their.hasExtension then p.send (.extended 0 (ourExtHandshake env s).encode) else p

def onHandshake (conn : ConnId) (their : Handshake) (w : World H) : Result Unit × World H :=
  if their.infoHash ≠ w.sess.trackerHash then (.error .handshake, w)
  else if w.sess.bans.peerIdBanned their.peerId env.now then (.error .handshake, w)
  else if w.sess.peers.entries.any (fun e =>
      decide (e.2.id ≠ conn) && decide (e.2.phase ≠ .closed) && decide (e.2.peerId = some their.peerId)) then
    (.error .handshake, w.map (fun s =>
      { s with reputation := s.reputation.noteViolation (s.peerAddr conn) (some their.peerId) env.now }))
  else match w.sess.peers.get? conn with
    | none => (.error .notFound, w)
    | some p =>
        let storedCorrupt := ((w.sess.reputation.storedFor their.peerId).getD (0, 0)).1
        let w := w.map (fun s => { s with peers := s.peers.insert conn (identify their s p) })
        if storedCorrupt ≥ w.sess.cfg.leech.corruptBanThreshold then
          (.error .handshake, banPeer env conn p.addr .corrupt
            (w.map (fun s => { s with reputation := s.reputation.noteViolation p.addr (some their.peerId) env.now })))
        else
          let w := w.map (fun s => { s with reputation := s.reputation.noteHandshake p.addr their.peerId env.now })
          let w := w.map (fun s => { s with peers := s.peers.modify conn (welcome env their s) })
          (.ok (), (w.emit (.peerConnected p.addr their.peerId)).map (broadcastPexTo conn))

end Peers

/-! ### Discovery -/

def subnetCount (s : TorrentSession) (addr : NetAddr) : Nat :=
  s.peers.entries.countP (fun e => decide (e.2.addr.subnetKey = addr.subnetKey)) +
    s.connectQueue.countP (fun e => decide (e.1.subnetKey = addr.subnetKey))

def enqueuePeer (addr : NetAddr) (source : DiscoverySource) (now : Nat) (s : TorrentSession) : TorrentSession :=
  if s.bans.isBanned addr now || decide (subnetCount s addr ≥ s.cfg.leech.maxPeersPerSubnet) ||
      decide (s.connectQueue.length ≥ 4 * max s.cfg.maxPeers 1) || decide (s.peers.size ≥ s.cfg.maxPeers) ||
      s.peers.entries.any (fun e => decide (e.2.addr = addr)) || s.connectQueue.any (fun e => decide (e.1 = addr)) then s
  else { s with connectQueue := s.connectQueue ++ [(addr, source)] }

def MAX_PEX_KNOWN : Nat := 2048

def addPex (conn : ConnId) (now : Nat) (s : TorrentSession) (a : NetAddr) : TorrentSession :=
  if (s.peers.get? conn).map Peer.addr = some a then s
  else
    let s := if !s.pexKnown.contains a && decide (s.pexKnown.length < MAX_PEX_KNOWN) then
      { s with pexKnown := s.pexKnown ++ [a] } else s
    enqueuePeer a .pex now s

def onPex (env : Env) (conn : ConnId) (msg : PexMsg) (s : TorrentSession) : TorrentSession :=
  let s := match msg.p, s.peers.get? conn with
    | some p, some peer => observeExternalPort env (p % 2 ^ 16) peer.addr s
    | _, _ => s
  let added := (chunks 6 msg.added).filterMap NetAddr.fromCompact6 ++ (chunks 18 msg.added6).filterMap NetAddr.fromCompact18
  let s := added.foldl (addPex conn env.now) s
  { s with pexKnown := ((chunks 6 msg.dropped).filterMap NetAddr.fromCompact6).foldl List.erase s.pexKnown }

end TypeBit.Session
