import TypeBit.Swarm
import TypeBit.Scheduler
import TypeBit.Piece.Bytes
import TypeBit.Piece.Tracker
import TypeBit.RateLimit
import TypeBit.DiskCache.Model

/-! The state of a torrent session (`session.rs`) and the world it acts on. Trackers, the DHT, the
swarm monitor and the receipt book take no part in the piece, peer and metadata logic: an announce
is recorded in the trace and its peers come back as an event of their own. -/

namespace TypeBit.Session
open Metainfo Leech Wire RateLimit

inductive FilePriority where
  | skip
  | normal
  | high
  deriving DecidableEq, Repr

inductive SessionStatus where
  | fetchingMetadata
  | downloading
  | seeding
  | paused
  | stopped
  | failed
  deriving DecidableEq, Repr

inductive Preallocation where
  | off
  | sparse
  | full
  deriving DecidableEq, Repr

structure WebSeedConfig where
  enabled : Bool
  timeoutMs : Nat
  maxFails : Nat
  backoffMs : Nat
  deriving DecidableEq, Repr

structure SessionConfig where
  saveDir : Bytes
  maxPeers : Nat
  requestPipeline : Nat
  requestTimeoutMs : Nat
  maxRequestTimeouts : Nat
  endgamePieces : Nat
  smartScheduling : Bool
  leech : LeechConfig
  scheduler : SchedulerConfig
  uploadLimitBps : Nat
  downloadLimitBps : Nat
  filePriorities : List FilePriority
  /-- Whether a SOCKS5 proxy is set. -/
  proxied : Bool
  webseed : WebSeedConfig
  listenPort : Nat
  preallocation : Preallocation
  deriving DecidableEq, Repr

def SessionConfig.default : SessionConfig where
  saveDir := ascii "."
  maxPeers := 80
  requestPipeline := 32
  requestTimeoutMs := 20000
  maxRequestTimeouts := 8
  endgamePieces := 32
  smartScheduling := true
  leech := LeechConfig.default
  scheduler := SchedulerConfig.default
  uploadLimitBps := 0
  downloadLimitBps := 0
  filePriorities := []
  proxied := false
  webseed := ⟨true, 10000, 5, 60000⟩
  listenPort := 6881
  preallocation := .sparse

structure MetadataFetch where
  size : Nat
  pieces : OrdMap Nat Bytes
  requested : Bitfield
  outstanding : Nat
  deriving DecidableEq

def MetadataFetch.empty : MetadataFetch := ⟨0, ∅, Bitfield.new 0, 0⟩

structure WebSeedJob where
  jobId : Nat
  piece : Nat
  block : Nat
  len : Nat
  seed : Nat
  deriving DecidableEq, Repr

structure WebSeedState where
  piece : Option Nat
  nextBlock : Nat
  totalBlocks : Nat
  data : Bytes
  seedIdx : Nat
  seedFails : List Nat
  retryAt : Nat
  inFlight : List WebSeedJob
  deriving DecidableEq, Repr

def WebSeedState.default : WebSeedState := ⟨none, 0, 0, [], 0, [], 0, []⟩

abbrev BlockKey := Nat ×ₗ Nat

def blockKey (piece block : Nat) : BlockKey := toLex (piece, block)

structure TorrentSession where
  torrent : Option Torrent
  infoHash : InfoHash
  trackerHash : Bytes
  status : SessionStatus
  saveDir : Bytes
  pieces : PieceTracker
  scheduler : Scheduler
  peers : OrdMap ConnId Peer
  /-- Blocks and the peers they are requested from. -/
  requestedBy : OrdMap BlockKey (List ConnId)
  /-- When each block request was issued. -/
  requestedAt : OrdMap BlockKey Nat
  availability : List Nat
  /-- Assembling piece buffers. -/
  assembling : OrdMap Nat Bytes
  /-- Open file handles aligned with the torrent's files; `none` for a skipped file. -/
  files : List (Option Nat)
  filesNeedReopen : Bool
  requestsNeedPrioritySweep : Bool
  announceAt : Nat
  startedAt : Nat
  downloadedBytes : Nat
  uploadedBytes : Nat
  discardedBytes : Nat
  endgame : Bool
  connectQueue : List (NetAddr × DiscoverySource)
  pendingStartedAnnounce : Bool
  pexKnown : List NetAddr
  externalPorts : OrdMap Nat (List (NetAddr × Nat))
  metadata : Option MetadataFetch
  lastMetadataRequestAt : Nat
  metadataHashFails : Nat
  webSeeds : List Bytes
  webseed : WebSeedState
  bans : BanManager
  reputation : ReputationStore
  uploadLimit : TokenBucket
  downloadLimit : TokenBucket
  /-- Per-piece priority multiplier, 0 for a skipped piece. -/
  piecePriorities : List Int
  selectedPieceCount : Nat
  holdDataUntilPriorities : Bool
  /-- Who supplied bytes of a piece. -/
  pieceSuppliers : OrdMap Nat (List ConnId)
  /-- Exact received-byte accounting per assembling piece. -/
  pieceBytes : OrdMap Nat PieceBytes
  /-- Assembled pieces handed to the verifier. -/
  pendingVerify : OrdMap Nat Bytes
  lastSwarmEmptyAt : Nat
  /-- Pieces being verified, with their block counts. -/
  verifying : OrdMap Nat Nat
  cfg : SessionConfig

/-- The host calls a session makes besides the cache's disk reads and writes. -/
structure Host (H : Type) extends DiskCache.DiskHost H where
  diskOpen : H → Bytes → Result Nat × H
  /-- Set the allocation mode of a file and reserve its size; both results are ignored. -/
  diskPrealloc : H → Nat → Preallocation → Nat → H
  diskFlush : H → Nat → H
  diskClose : H → Nat → H
  /-- Start a range fetch in the background; 0 when the host has no worker. -/
  httpGetRangeAsync : H → Bytes → Nat → Nat → Nat → Nat × H
  /-- Fetch a range now, through the proxy or directly: the outcome and the body. -/
  httpGetRange : H → Bool → Bytes → Nat → Nat → Nat → (Result Unit × Bytes) × H

/-- What a session is told with each call. -/
structure Env where
  now : Nat
  peerId : ByteArr 20
  port : Nat

inductive TrackerEvent where
  | none
  | started
  | stopped
  | completed
  deriving DecidableEq, Repr

/-- What a session shows the outside, in order. The last three entries record the assembly of
pieces and are read by no code. -/
inductive Effect where
  | closed (conn : ConnId)
  | announced (event : TrackerEvent)
  | peerConnected (addr : NetAddr) (peerId : Bytes)
  | peerBanned (addr : NetAddr) (reason : BanReason)
  | metadataComplete
  | metadataFailed
  | pieceVerified (piece : Nat)
  | hashFailure (piece : Nat)
  | torrentComplete
  /-- `on_piece` accepted a message. -/
  | supplied (piece start : Nat) (data : Bytes)
  /-- The byte tracker of a piece was dropped. -/
  | cleared (piece : Nat)
  /-- `on_piece` handed a buffer to the verifier. -/
  | assembled (piece : Nat) (buf : Bytes)
  deriving DecidableEq

/-- The session, the disk cache with its host, and the trace. -/
structure World (H : Type) where
  sess : TorrentSession
  io : DiskCache.State H
  trace : List Effect

namespace World
variable {H : Type}

def map (f : TorrentSession → TorrentSession) (w : World H) : World H := { w with sess := f w.sess }

def emit (e : Effect) (w : World H) : World H := { w with trace := w.trace ++ [e] }

def setHost (h : H) (w : World H) : World H := { w with io := { w.io with host := h } }

def mapCache (f : DiskCache.Cache → DiskCache.Cache) (w : World H) : World H :=
  { w with io := { w.io with cache := f w.io.cache } }

def mapPeer (conn : ConnId) (f : Peer → Peer) (w : World H) : World H :=
  w.map (fun s => { s with peers := s.peers.modify conn f })

def inflightDec (w : World H) : World H := w.mapCache DiskCache.Cache.inflightDec

end World

/-! ### Construction -/

def trackerHashOf (ih : InfoHash) : Bytes :=
  ih.asBytes.take 20 ++ List.replicate (20 - min ih.asBytes.length 20) 0

def filePieces (pl n abs len : Nat) : Nat × Nat := (min (abs / pl) n, min (divCeil (wadd abs len) pl) n)

def markPieces (flags : List Bool) (range : Nat × Nat) : List Bool :=
  flags.mapIdx (fun p flag => flag || (decide (range.1 ≤ p) && decide (p < range.2)))

def priorityFlags (pl n : Nat) (priorities : List FilePriority) :
    List FileEntry → Nat → Nat → List Bool → List Bool → List Bool × List Bool
  | [], _, _, need, high => (need, high)
  | f :: tail, fi, abs, need, high =>
      let range := filePieces pl n abs f.length
      match priorities.getD fi .normal with
      | .skip => priorityFlags pl n priorities tail (fi + 1) (satAdd abs f.length) need high
      | .normal => priorityFlags pl n priorities tail (fi + 1) (satAdd abs f.length) (markPieces need range) high
      | .high => priorityFlags pl n priorities tail (fi + 1) (satAdd abs f.length) need (markPieces high range)

def computePiecePriorities (t : Torrent) (priorities : List FilePriority) : List Int × Nat :=
  let n := t.pieceCount
  if n = 0 then ([], 0)
  else
    let (need, high) := priorityFlags t.pieceLength n priorities t.files 0 0 (List.replicate n false) (List.replicate n false)
    let prio := (List.range n).map (fun p => if high.getD p false then (4 : Int) else if need.getD p false then 1 else 0)
    (prio, prio.countP (fun m => decide (0 < m)))

def fromTorrent (t : Torrent) (cfg : SessionConfig) (now : Nat) : TorrentSession where
  torrent := some t
  infoHash := t.infoHash
  trackerHash := trackerHashOf t.infoHash
  status := .stopped
  saveDir := cfg.saveDir
  pieces := PieceTracker.new t.pieceCount t.pieceLength
  scheduler := if cfg.smartScheduling then Scheduler.new t cfg.scheduler else Scheduler.withGoal t .generic cfg.scheduler
  peers := ∅
  requestedBy := ∅
  requestedAt := ∅
  availability := List.replicate t.pieceCount 0
  assembling := ∅
  files := []
  filesNeedReopen := false
  requestsNeedPrioritySweep := false
  announceAt := 0
  startedAt := 0
  downloadedBytes := 0
  uploadedBytes := 0
  discardedBytes := 0
  endgame := false
  connectQueue := []
  pendingStartedAnnounce := false
  pexKnown := []
  externalPorts := ∅
  metadata := none
  lastMetadataRequestAt := 0
  metadataHashFails := 0
  webSeeds := t.webSeeds
  webseed := WebSeedState.default
  bans := BanManager.new cfg.leech.maxBans
  reputation := ReputationStore.new cfg.leech.repStoreCap cfg.leech.repTtlMs
  uploadLimit := TokenBucket.newUpload cfg.uploadLimitBps now
  downloadLimit := TokenBucket.new cfg.downloadLimitBps now
  piecePriorities := (computePiecePriorities t cfg.filePriorities).1
  selectedPieceCount := (computePiecePriorities t cfg.filePriorities).2
  holdDataUntilPriorities := false
  pieceSuppliers := ∅
  pieceBytes := ∅
  pendingVerify := ∅
  lastSwarmEmptyAt := 0
  verifying := ∅
  cfg := cfg

def emptyPlaceholder (ih : InfoHash) : Torrent where
  name := ascii "metadata"
  pieceLength := 16384
  totalSize := 0
  files := [⟨[ascii "metadata"], 0, none⟩]
  kind := .v1
  infoHash := ih
  v1Hashes := some []
  v2Hashes := none
  announce := none
  announceList := []
  webSeeds := []
  isPrivate := false
  pieceLayers := []
  infoRaw := []
  comment := none
  createdBy := none
  creationDate := none

def fromMagnet (ih : InfoHash) (webSeeds : List Bytes) (cfg : SessionConfig) (now : Nat) : TorrentSession :=
  let placeholder := emptyPlaceholder ih
  { fromTorrent placeholder cfg now with
    torrent := none
    status := .fetchingMetadata
    pieces := PieceTracker.new 0 0
    scheduler := Scheduler.withGoal placeholder .generic cfg.scheduler
    availability := []
    metadata := some MetadataFetch.empty
    webSeeds := webSeeds
    piecePriorities := []
    selectedPieceCount := 0 }

end TypeBit.Session
