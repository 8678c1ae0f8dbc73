import TypeBit.Session.Disk

/-! Priorities and completion, and how a magnet session learns its metadata: the extended messages,
the metadata exchange, and installing the torrent once the hash matches. -/

namespace TypeBit.Session
open Metainfo Leech Wire RateLimit

/-! ### Selection and completion -/

def refreshCompletion (s : TorrentSession) : TorrentSession :=
  if s.torrent.isSome ∧ (s.status = .downloading ∨ s.status = .seeding) ∧ s.pieces.haveCount ≥ s.selectedPieceCount then
    { s with status := .seeding }
  else s

def recomputePriorities (s : TorrentSession) : TorrentSession :=
  match s.torrent with
  | none => { s with piecePriorities := [], selectedPieceCount := 0 }
  | some t =>
      let (prio, selected) := computePiecePriorities t s.cfg.filePriorities
      refreshCompletion
        { s with
          piecePriorities := if s.holdDataUntilPriorities then prio.map (fun _ => 0) else prio
          selectedPieceCount := if s.holdDataUntilPriorities then 0 else selected
          requestsNeedPrioritySweep := true }

def MAX_METADATA_SIZE : Nat := 64 * 1024 * 1024
def MAX_METADATA_HASH_FAILS : Nat := 5
def METADATA_REQUEST_TIMEOUT_MS : Nat := 30000

section Metadata
variable {H : Type} (digests : Digests) (host : Host H) (env : Env)

def installed (env : Env) (t : Torrent) (s : TorrentSession) : TorrentSession :=
  let s := recomputePriorities
    { s with
      pieces := PieceTracker.new t.pieceCount t.pieceLength
      availability := List.replicate t.pieceCount 0
      scheduler := Scheduler.new t s.cfg.scheduler
      torrent := some t }
  { s with
    metadata := none
    status := if s.selectedPieceCount = 0 then .seeding else .downloading
    announceAt := env.now
    pendingStartedAnnounce := true }

def installTorrent (t : Torrent) (w : World H) : World H :=
  match openFiles host (w.map (installed env t)) with
  | (.ok _, w) => w.emit .metadataComplete
  | (.error _, w) => (w.map (fun s => { s with status := .failed })).emit .metadataComplete

def MetadataFetch.complete (m : MetadataFetch) : Bool :=
  decide (m.size ≠ 0) && decide (m.pieces.size ≥ m.pieceCount) && (List.range m.pieceCount).all m.pieces.contains

def MetadataFetch.raw (m : MetadataFetch) : Bytes :=
  ((List.range m.pieceCount).map (fun i => (m.pieces.get? i).getD [])).flatten

def metadataHashOk (ih : InfoHash) (raw : Bytes) : Bool :=
  if ih.len = 20 then decide (digests.sha1 raw = ih.bytes.take 20) else decide (digests.sha256 raw = ih.bytes)

def metadataMismatch (w : World H) : World H :=
  let fails := satAdd32 w.sess.metadataHashFails 1
  if fails ≥ MAX_METADATA_HASH_FAILS then
    (w.map (fun s => { s with metadataHashFails := fails, metadata := none, status := .failed })).emit .metadataFailed
  else
    w.map (fun s => { s with
      metadataHashFails := fails
      metadata := some MetadataFetch.empty
      lastMetadataRequestAt := 0
      status := .fetchingMetadata })

def tryFinalizeMetadata (w : World H) : World H :=
  match w.sess.metadata with
  | none => w
  | some m =>
      if !m.complete then w
      else if !metadataHashOk digests w.sess.infoHash m.raw then metadataMismatch w
      else
        let w := w.map (fun s => { s with metadataHashFails := 0 })
        match Torrent.fromInfo digests m.raw with
        | .ok t => installTorrent host env t w
        | .error _ => w.map (fun s => { s with metadata := none, status := .failed })

def serveMetadata (t : Torrent) (conn : ConnId) (piece : Nat) (w : World H) : Result Unit × World H :=
  let start := piece * METADATA_PIECE
  if start ≥ t.infoRaw.length then (.ok (), w)
  else match w.sess.peers.get? conn with
    | none => (.error .notFound, w)
    | some _ =>
        let reply := MetadataMsg.data piece (t.infoRaw.length % 2 ^ 32) ((t.infoRaw.drop start).take METADATA_PIECE)
        let total := divCeil t.infoRaw.length METADATA_PIECE % 2 ^ 32
        (.ok (), w.mapPeer conn (fun p =>
          let p := match p.extMetadata with
            | some id => p.send (.extended id reply.encode)
            | none => p
          let served := satAdd32 p.metadataServedPieces 1
          let p := { p with metadataTotalPieces := total, metadataServedPieces := served }
          if served ≥ total ∧ total > 0 then { p with metadataServed := true, metadataServedAt := env.now } else p))

def MetadataFetch.sized (m : MetadataFetch) (totalSize : Nat) : MetadataFetch :=
  if m.size = 0 then { m with size := totalSize, requested := Bitfield.new (divCeil totalSize METADATA_PIECE) } else m

def MetadataFetch.store (m : MetadataFetch) (piece : Nat) (data : Bytes) : MetadataFetch :=
  if m.pieces.contains piece then m
  else { m with
    pieces := m.pieces.insert piece data
    outstanding := m.outstanding - 1
    requested := m.requested.set piece }

def onMetadataMsg (conn : ConnId) (msg : MetadataMsg) (w : World H) : Result Unit × World H :=
  match msg with
  | .request piece =>
      match w.sess.torrent with
      | none => (.ok (), w)
      | some t => serveMetadata env t conn piece w
  | .data piece totalSize data =>
      if totalSize > MAX_METADATA_SIZE then (.error .protocol, w)
      else match w.sess.metadata with
        | none => (.ok (), w)
        | some m =>
            let m := m.sized totalSize
            if m.size ≠ totalSize then (.error .protocol, w)
            else if piece ≥ m.requested.len then (.ok (), w.map (fun s => { s with metadata := some m }))
            else
              (.ok (), tryFinalizeMetadata digests host env
                (w.map (fun s => { s with metadata := some (m.store piece data) })))
  | .reject piece =>
      (.ok (), w.map (fun s => { s with metadata := s.metadata.map (fun m =>
        if m.requested.get piece then { m with outstanding := m.outstanding - 1, requested := m.requested.clear piece }
        else m) }))

def askMetadata (conn : ConnId) (s : TorrentSession) : TorrentSession :=
  match (s.peers.get? conn).bind Peer.extMetadata, s.metadata with
  | some id, some m =>
      if m.outstanding ≥ 8 then s
      else
        let requested := if m.requested.isEmpty then Bitfield.new 1 else m.requested
        { s with
          peers := s.peers.modify conn (fun p => p.send (.extended id (MetadataMsg.request 0).encode))
          metadata := some { m with outstanding := m.outstanding + 1, requested := requested.set 0 }
          lastMetadataRequestAt := env.now }
  | _, _ => s

def applyExtHandshake (ext : ExtHandshake) (p : Peer) : Peer :=
  let p := { p with
    extMetadata := ext.m.get? (ascii "ut_metadata")
    extPex := ext.m.get? (ascii "ut_pex") }
  match ext.metadataSize with
  | none => p
  | some size => { p with msgs := { p.msgs with maxFrame := max (min size MAX_METADATA_SIZE) p.msgs.maxFrame } }

def onExtended (conn : ConnId) (id : UInt8) (payload : Bytes) (w : World H) : Result Unit × World H :=
  if id = 0 then
    match ExtHandshake.parse payload with
    | .error e => (.error e, w)
    | .ok ext =>
        let w := w.map (fun s => match ext.yourport, s.peers.get? conn with
          | some port, some p => observeExternalPort env (port % 2 ^ 16) p.addr s
          | _, _ => s)
        let w := w.mapPeer conn (applyExtHandshake ext)
        (.ok (), if w.sess.torrent.isNone then w.map (askMetadata env conn) else w)
  else if id = 3 then
    match MetadataMsg.parse payload with
    | .error e => (.error e, w)
    | .ok msg => onMetadataMsg digests host env conn msg w
  else if id = 5 then
    match PexMsg.parse payload with
    | .error e => (.error e, w)
    | .ok msg => (.ok (), w.map (onPex env conn msg))
  else (.ok (), w)

def sweepMetadataRequests (s : TorrentSession) : TorrentSession :=
  match s.metadata with
  | none => s
  | some m =>
      if m.outstanding = 0 ∨ env.now - s.lastMetadataRequestAt < METADATA_REQUEST_TIMEOUT_MS then s
      else { s with metadata := some m.release }

def unwrapsFetch (s : TorrentSession) (conn : ConnId) : Bool :=
  match s.peers.get? conn with
  | none => false
  | some p => p.extMetadata.isSome && decide (p.phase = .ready) && s.metadata.isNone

def askNext (s : TorrentSession) (conn : ConnId) : TorrentSession :=
  match s.peers.get? conn, s.metadata with
  | some p, some m =>
      match p.extMetadata with
      | none => s
      | some id =>
          if p.phase ≠ .ready ∨ m.outstanding ≥ 8 then s
          else
            match (m.requested.nextClearFrom 0).filter (fun i => decide (m.pieceCount = 0) || decide (i < m.pieceCount)) with
            | none => s
            | some piece =>
                { s with
                  metadata := some { m with requested := m.requested.set piece, outstanding := m.outstanding + 1 }
                  lastMetadataRequestAt := env.now
                  peers := s.peers.insert conn (p.send (.extended id (MetadataMsg.request piece).encode)) }
  | _, _ => s

/-- A peer that can be asked unwraps the fetch: where the session has none, the call panics. -/
def kickPeer (s : TorrentSession) (conn : ConnId) : Option TorrentSession :=
  if unwrapsFetch s conn then none else some (askNext env s conn)

def announceStarted (w : World H) : World H :=
  if env.now - w.sess.announceAt ≥ 8000 then
    (w.map (fun s => { s with announceAt := env.now })).emit (.announced .started)
  else w

def kickMetadata (w : World H) : Option (World H) :=
  let w := w.map (sweepMetadataRequests env)
  (w.sess.peers.keys.foldlM (kickPeer env) w.sess).map fun s => announceStarted env (w.map fun _ => s)

variable {env}

theorem kickPeers_some {conns : List ConnId} {s u : TorrentSession} (kicks : conns.foldlM (kickPeer env) s = some u) :
    u = conns.foldl (askNext env) s := by
  induction conns generalizing s with
  | nil => exact (Option.some.inj kicks).symm
  | cons c tail ih =>
    rw [List.foldlM_cons] at kicks
    obtain ⟨v, first, rest⟩ := Option.bind_eq_some_iff.mp kicks
    unfold kickPeer at first
    split_ifs at first
    rw [List.foldl_cons, Option.some.inj first]
    exact ih rest

theorem kickMetadata_some {w v : World H} (kicks : kickMetadata env w = some v) : v = announceStarted env (w.map fun s =>
      (sweepMetadataRequests env s).peers.keys.foldl (askNext env) (sweepMetadataRequests env s)) := by
  obtain ⟨u, folded, rfl⟩ := Option.map_eq_some_iff.mp kicks
  rw [kickPeers_some folded]
  rfl

theorem metadata_askNext {s : TorrentSession} (fetching : s.metadata.isSome = true) (conn : ConnId) :
    (askNext env s conn).metadata.isSome = true := by
  unfold askNext
  split
  · split
    · exact fetching
    · split_ifs
      · exact fetching
      · split
        · exact fetching
        · rfl
  · exact fetching

theorem kickMetadata_isSome {w : World H} (fetching : w.sess.metadata.isSome = true) : (kickMetadata env w).isSome = true := by
  have swept : (sweepMetadataRequests env w.sess).metadata.isSome = true := by
    unfold sweepMetadataRequests
    split
    · exact fetching
    · split_ifs
      · exact fetching
      · rfl
  have kicks (conns : List ConnId) {s : TorrentSession} (present : s.metadata.isSome = true) :
      (conns.foldlM (kickPeer env) s).isSome = true := by
    induction conns generalizing s with
    | nil => rfl
    | cons c tail ih =>
      have calm : unwrapsFetch s c = false := by
        unfold unwrapsFetch
        split
        · rfl
        · rw [Option.isNone_eq_false_iff.mpr present, Bool.and_false]
      have asked : kickPeer env s c = some (askNext env s c) := if_neg (by rw [calm]; exact Bool.false_ne_true)
      rw [List.foldlM_cons, asked]
      exact ih (metadata_askNext present c)
  rw [kickMetadata, Option.isSome_map]
  exact kicks _ swept

/-- What holds before a kick and after every kick that returns holds where the run goes on. -/
theorem kickMetadata_getD {P : World H → Prop} {w : World H} (before : P w) (after : ∀ v, kickMetadata env w = some v → P v) :
    P ((kickMetadata env w).getD w) := by
  cases kicks : kickMetadata env w with
  | none => exact before
  | some v => exact after v kicks

end Metadata
end TypeBit.Session
