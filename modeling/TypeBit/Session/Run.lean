import TypeBit.Session.Dispatch
import TypeBit.Session.Control
import TypeBit.Session.WebSeed

/-! Runs of a session: everything the engine may ask of it, in any order. A tick is a sequence of
these events; whom the choke pass picks and when a peer is evicted are left open. -/

namespace TypeBit.Session
open Metainfo Leech Wire

/-- One call of the engine, or something another session does to the shared cache and host. -/
inductive Event (H : Type) where
  | attach (conn : ConnId) (addr : NetAddr) (outbound : Bool) (source : DiscoverySource)
  | connectDone (conn : ConnId)
  | data (conn : ConnId) (bytes : Bytes)
  | disconnect (conn : ConnId)
  | drop (conn : ConnId)
  | evict (conn : ConnId)
  | ban (conn : ConnId) (addr : NetAddr) (reason : BanReason)
  | verified (piece : Nat) (ok : Bool) (data : Bytes)
  | takePendingVerify
  | sweepTimeouts
  | fill (conn : ConnId)
  | cancelSkipped
  | setFilePriority (file : Nat) (prio : FilePriority)
  | setFilePriorities (priorities : List FilePriority)
  | setHoldData (hold : Bool)
  | start
  | pause
  | resume
  | stop
  | reopenFiles
  | announceDue
  | housekeeping
  | unchoke (conns : List ConnId)
  | broadcastPex
  | kickMetadata
  | install (t : Torrent)
  | driveWebseed
  | rangeJobDone (id : Nat) (result : Result Bytes)
  | discovered (addr : NetAddr) (source : DiscoverySource)
  | takeConnectQueue
  | sent (conn : ConnId) (n : Nat)
  | io (state : DiskCache.State H)

section Run
variable {H : Type} (digests : Digests) (host : Host H)

/-- What one event does. Metadata is only fetched or installed while there is none; a kick that panics leaves the run where it was. -/
def step (env : Env) (e : Event H) (w : World H) : World H :=
  match e with
  | .attach conn addr outbound source => attachPeer env conn addr outbound source w
  | .connectDone conn => onConnectDone env conn w
  | .data conn bytes => onData digests host env conn bytes w
  | .disconnect conn => onDisconnect env conn w
  | .drop conn => dropPeer env conn w
  | .evict conn => Session.evict env conn w
  | .ban conn addr reason => banPeer env conn addr reason w
  | .verified piece ok data => (onVerified host env piece ok data w).2
  | .takePendingVerify => (Session.takePendingVerify w).2
  | .sweepTimeouts => sweepRequestTimeouts env w
  | .fill conn => fillPipeline env conn w
  | .cancelSkipped => cancelSkippedPieceRequests w
  | .setFilePriority file prio => w.map (fun s => (Session.setFilePriority file prio s).2)
  | .setFilePriorities priorities => w.map (fun s => (Session.setFilePriorities priorities s).2)
  | .setHoldData hold => w.map (Session.setHoldData hold)
  | .start => (Session.start host env w).2
  | .pause => Session.pause env w
  | .resume => Session.resume env w
  | .stop => Session.stop host w
  | .reopenFiles => Session.reopenFiles host w
  | .announceDue => Session.announceDue env w
  | .housekeeping => w.map (Session.housekeeping env)
  | .unchoke conns => w.map (applyUnchoke env.now conns)
  | .broadcastPex => w.map Session.broadcastPex
  | .kickMetadata => if w.sess.torrent.isNone then (Session.kickMetadata env w).getD w else w
  | .install t => if w.sess.torrent.isNone then installTorrent host env t w else w
  | .driveWebseed => Session.driveWebseed host env w
  | .rangeJobDone id result => w.map (onRangeJobDone id result env.now)
  | .discovered addr source => w.map (enqueuePeer addr source env.now)
  | .takeConnectQueue => w.map (fun s => { s with connectQueue := [] })
  | .sent conn n => w.mapPeer conn (fun p => { p with out := p.out.drop n })
  | .io state => { w with io := state }

def run : List (Env × Event H) → World H → World H
  | [], w => w
  | e :: tail, w => run tail (step digests host e.1 e.2 w)

theorem run_append (early late : List (Env × Event H)) (w : World H) :
    run digests host (early ++ late) w = run digests host late (run digests host early w) := by
  induction early generalizing w with
  | nil => rfl
  | cons e tail ih => exact ih (step digests host e.1 e.2 w)

/-- A session before its first event: new, or new with a saved state restored onto it. -/
inductive Initial : TorrentSession → Prop where
  | torrent (t : Torrent) (cfg : SessionConfig) (now : Nat) : Initial (fromTorrent t cfg now)
  | magnet (ih : InfoHash) (webSeeds : List Bytes) (cfg : SessionConfig) (now : Nat) :
      Initial (fromMagnet ih webSeeds cfg now)
  | restored {s : TorrentSession} (fresh : Initial s) (haveBytes priorities : Bytes) (up down : Nat)
      (reputation : Option ReputationStore) (now : Nat) :
      Initial (applySavedState haveBytes priorities up down reputation now s).2

/-- What a run can reach from an initial session with an empty trace. -/
def Reachable (w : World H) : Prop :=
  ∃ s io events, Initial s ∧ w = run digests host events ⟨s, io, []⟩

end Run

/-! ### A session with one piece of three bytes -/

namespace Sample

def torrent : Torrent where
  name := ascii "a"
  pieceLength := 16384
  totalSize := 3
  files := [⟨[ascii "a"], 3, none⟩]
  kind := .v1
  infoHash := InfoHash.v1 (List.replicate 20 7)
  v1Hashes := some [List.replicate 20 9]
  v2Hashes := none
  announce := none
  announceList := []
  webSeeds := []
  isPrivate := false
  pieceLayers := []
  infoRaw := []
  comment := none
  createdBy := none
  creationDate := none

def host : Host Unit where
  diskRead _ _ _ _ := (.ok [], ())
  diskWrite _ _ _ _ := (.ok (), ())
  diskOpen _ _ := (.ok 1, ())
  diskPrealloc _ _ _ _ := ()
  diskFlush _ _ := ()
  diskClose _ _ := ()
  httpGetRangeAsync _ _ _ _ _ := (0, ())
  httpGetRange _ _ _ _ _ _ := ((.error .io, []), ())

def digests : Digests := ⟨fun _ => List.replicate 20 0, fun _ => List.replicate 32 0⟩

def env : Env := ⟨5, ⟨List.replicate 20 1, by decide⟩, 6881⟩

def io : DiskCache.State Unit := ⟨DiskCache.Cache.new 0, ()⟩

def plainHandshake (hash id : UInt8) : Handshake :=
  ⟨List.replicate 8 0, List.replicate 20 hash, List.replicate 20 id, List.length_replicate, List.length_replicate,
    List.length_replicate⟩

def handshake : Handshake := plainHandshake 7 3

def fresh : World Unit := ⟨fromTorrent torrent .default 0, io, []⟩

def restored : World Unit := ⟨(applySavedState [0x80] [] 0 0 none 0 (fromTorrent torrent .default 0)).2, io, []⟩

/-- A peer connects and sends two overlapping windows that cover the piece. -/
def arrival : List (Env × Event Unit) :=
  [(env, .attach 1 NetAddr.unspecified false .manual),
    (env, .data 1 (handshake.encode ++ (Message.piece 0 0 [1, 2]).encode ++ (Message.piece 0 1 [5, 6]).encode))]

def courtship : List (Env × Event Unit) :=
  [(env, .start), (env, .attach 1 NetAddr.unspecified true .manual),
    (env, .data 1 (handshake.encode ++ (Message.bitfield [0x80]).encode ++ Message.unchoke.encode))]

def funded : DiskCache.State Unit := ⟨(DiskCache.Cache.new 0).setTickDownBudget (2 ^ 20), ()⟩

def courted : World Unit := run digests host courtship ⟨fromTorrent torrent .default 0, funded, []⟩

def asking : World Unit := step digests host env (.fill 1) courted

theorem reachable_fresh (events : List (Env × Event Unit)) :
    Reachable digests host (run digests host events fresh) := ⟨_, _, events, .torrent _ _ _, rfl⟩

theorem reachable_asking : Reachable digests host asking := by
  refine ⟨_, funded, courtship ++ [(env, .fill 1)], .torrent torrent .default 0, ?_⟩
  rw [run_append]
  rfl

theorem reachable_restored : Reachable digests host restored :=
  ⟨_, _, [], .restored (.torrent torrent .default 0) [0x80] [] 0 0 none 0, rfl⟩

end Sample
end TypeBit.Session
