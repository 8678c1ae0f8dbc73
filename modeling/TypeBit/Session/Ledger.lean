import TypeBit.Session.Dispatch
import TypeBit.Session.Control
import TypeBit.DiskCache.Inflight

/-! The books of a session: what it downloads, from whom, and where it stands. Most of what a session
does is idle: it talks to peers, trackers and files, and leaves the books and the shared in-flight
window as they are. -/

namespace TypeBit.Session
open Metainfo Leech Wire

def loadsOf (peers : OrdMap ConnId Peer) (conn : ConnId) : Option Nat := (peers.get? conn).map Peer.requestsInFlight

/-- What a peer is asked for: the number of its requests in flight, and the piece it is committed to. -/
def burden (p : Peer) : Nat × Option Nat := (p.requestsInFlight, p.currentPiece)

def burdensOf (peers : OrdMap ConnId Peer) (conn : ConnId) : Option (Nat × Option Nat) := (peers.get? conn).map burden

/-- Everything that decides what is downloaded, from whom, and in which status. -/
structure Ledger where
  torrent : Option Torrent
  status : SessionStatus
  pieces : PieceTracker
  burdens : ConnId → Option (Nat × Option Nat)
  requestedBy : OrdMap BlockKey (List ConnId)
  requestedAt : OrdMap BlockKey Nat
  assembling : OrdMap Nat Bytes
  fetching : Bool
  webseed : WebSeedState
  piecePriorities : List Int
  selectedPieceCount : Nat
  holdDataUntilPriorities : Bool
  pieceBytes : OrdMap Nat PieceBytes
  pendingVerify : OrdMap Nat Bytes
  verifying : OrdMap Nat Nat
  cfg : SessionConfig

def TorrentSession.ledger (s : TorrentSession) : Ledger where
  torrent := s.torrent
  status := s.status
  pieces := s.pieces
  burdens := burdensOf s.peers
  requestedBy := s.requestedBy
  requestedAt := s.requestedAt
  assembling := s.assembling
  fetching := s.metadata.isSome
  webseed := s.webseed
  piecePriorities := s.piecePriorities
  selectedPieceCount := s.selectedPieceCount
  holdDataUntilPriorities := s.holdDataUntilPriorities
  pieceBytes := s.pieceBytes
  pendingVerify := s.pendingVerify
  verifying := s.verifying
  cfg := s.cfg

def Effect.routine : Effect → Bool
  | .supplied _ _ _ => false
  | .cleared _ => false
  | .assembled _ _ => false
  | .torrentComplete => false
  | .announced .completed => false
  | _ => true

/-! ### Burdens -/

section Burdens
variable {peers : OrdMap ConnId Peer} {conn : ConnId}

theorem burdensOf_modify {f : Peer → Peer} (same : ∀ p, burden (f p) = burden p) :
    burdensOf (peers.modify conn f) = burdensOf peers := by
  funext c
  simp only [burdensOf, OrdMap.get?_modify]
  split_ifs
  · cases peers.get? c with
    | none => rfl
    | some p => exact congrArg some (same p)
  · rfl

theorem burdensOf_insert {p q : Peer} (found : peers.get? conn = some p)
    (same : burden q = burden p) : burdensOf (peers.insert conn q) = burdensOf peers := by
  funext c
  simp only [burdensOf, OrdMap.get?_insert]
  split_ifs with target
  · rw [← target, found, Option.map_some, Option.map_some, same]
  · rfl

theorem burdensOf_mapValues {f : ConnId → Peer → Peer} (same : ∀ c p, burden (f c p) = burden p) :
    burdensOf (peers.mapValues f) = burdensOf peers := by
  funext c
  simp only [burdensOf, OrdMap.get?_mapValues]
  cases peers.get? c with
  | none => rfl
  | some p => exact congrArg some (same c p)

theorem loadsOf_eq (peers : OrdMap ConnId Peer) (conn : ConnId) :
    loadsOf peers conn = (burdensOf peers conn).map Prod.fst := by
  rw [burdensOf, Option.map_map]
  rfl

theorem ledger_of_burdens {s u : TorrentSession} (rest : u.ledger = { s.ledger with burdens := burdensOf u.peers })
    (burdens : burdensOf u.peers = burdensOf s.peers) : u.ledger = s.ledger := by
  rw [rest, burdens]
  rfl

theorem ledger_of_fetching {s u : TorrentSession}
    (rest : u.ledger = { s.ledger with burdens := burdensOf u.peers, fetching := u.metadata.isSome })
    (burdens : burdensOf u.peers = burdensOf s.peers) (fetching : u.metadata.isSome = s.metadata.isSome) :
    u.ledger = s.ledger := by
  rw [rest, burdens, fetching]
  rfl

theorem ledger_foldl {α : Type} {f : TorrentSession → α → TorrentSession} (each : ∀ s a, (f s a).ledger = s.ledger)
    (l : List α) (s : TorrentSession) : (l.foldl f s).ledger = s.ledger := by
  induction l generalizing s with
  | nil => rfl
  | cons a tail ih => exact (ih (f s a)).trans (each s a)

end Burdens

/-! ### Idle steps -/

section Idle
variable {H : Type}

structure Idle (w v : World H) : Prop where
  ledger : v.sess.ledger = w.sess.ledger
  window : v.io.cache.window = w.io.cache.window
  trace : ∃ more, v.trace = w.trace ++ more ∧ ∀ e ∈ more, e.routine = true

theorem Idle.refl (w : World H) : Idle w w := ⟨rfl, rfl, [], by simp, by simp⟩

theorem Idle.trans {w v u : World H} (first : Idle w v) (second : Idle v u) : Idle w u := by
  refine ⟨second.ledger.trans first.ledger, second.window.trans first.window, ?_⟩
  obtain ⟨early, traced, routine⟩ := first.trace
  obtain ⟨late, traced', routine'⟩ := second.trace
  refine ⟨early ++ late, by rw [traced', traced, List.append_assoc], ?_⟩
  intro e member
  rcases List.mem_append.mp member with before | after
  · exact routine e before
  · exact routine' e after

theorem Idle.foldl {α : Type} {f : World H → α → World H} (each : ∀ w a, Idle w (f w a)) (l : List α)
    (w : World H) : Idle w (l.foldl f w) := by
  induction l generalizing w with
  | nil => exact Idle.refl w
  | cons a tail ih => exact (each w a).trans (ih (f w a))

theorem idle_of_ledger {w v : World H} (same : v.sess.ledger = w.sess.ledger)
    (window : v.io.cache.window = w.io.cache.window) (traced : v.trace = w.trace) : Idle w v :=
  ⟨same, window, [], by simp [traced], by simp⟩

theorem idle_map {w : World H} {f : TorrentSession → TorrentSession} (same : (f w.sess).ledger = w.sess.ledger) :
    Idle w (w.map f) := idle_of_ledger same rfl rfl

theorem idle_emit (w : World H) {e : Effect} (routine : e.routine = true) : Idle w (w.emit e) :=
  ⟨rfl, rfl, [e], rfl, by simpa using routine⟩

theorem idle_mapPeer (w : World H) (conn : ConnId) {f : Peer → Peer}
    (same : ∀ p, burden (f p) = burden p) : Idle w (w.mapPeer conn f) :=
  idle_map (ledger_of_burdens rfl (burdensOf_modify same))

theorem idle_setHost (w : World H) (h : H) : Idle w (w.setHost h) := idle_of_ledger rfl rfl rfl

end Idle

/-! ### Peers -/

section Peers
variable {H : Type} (env : Env)

theorem idle_clearMetadataRequests (w : World H) : Idle w (w.map clearMetadataRequests) := by
  apply idle_map
  simp [clearMetadataRequests, TorrentSession.ledger]

theorem ledger_recomputeAvailability (s : TorrentSession) : (recomputeAvailability s).ledger = s.ledger := by
  unfold recomputeAvailability
  split_ifs <;> rfl

theorem ledger_syncInterest (conn : ConnId) (s : TorrentSession) : (syncInterest conn s).ledger = s.ledger := by
  unfold syncInterest
  split
  · rfl
  · rename_i p found
    split
    · rfl
    · dsimp only
      split
      · rfl
      · exact ledger_of_burdens rfl (burdensOf_insert found rfl)

theorem idle_maybeReannounceEmptySwarm (w : World H) : Idle w (maybeReannounceEmptySwarm env w) := by
  unfold maybeReannounceEmptySwarm
  split_ifs
  · exact Idle.refl w
  · exact Idle.refl w
  · exact Idle.refl w
  · exact (idle_map rfl).trans (idle_emit _ rfl)

theorem ledger_observeExternalPort (port : Nat) (witness : NetAddr) (s : TorrentSession) :
    (observeExternalPort env port witness s).ledger = s.ledger := by
  unfold observeExternalPort
  split_ifs <;> rfl

theorem ledger_broadcastPexTo (conn : ConnId) (s : TorrentSession) : (broadcastPexTo conn s).ledger = s.ledger := by
  unfold broadcastPexTo
  split
  · rfl
  · rename_i p found
    split
    · rfl
    · exact ledger_of_burdens rfl (burdensOf_insert found rfl)

theorem ledger_enqueuePeer (addr : NetAddr) (source : DiscoverySource) (now : Nat) (s : TorrentSession) :
    (enqueuePeer addr source now s).ledger = s.ledger := by
  unfold enqueuePeer
  split_ifs <;> rfl

theorem ledger_addPex (conn : ConnId) (now : Nat) (s : TorrentSession) (a : NetAddr) :
    (addPex conn now s a).ledger = s.ledger := by
  unfold addPex
  dsimp only
  split_ifs
  · rfl
  · exact ledger_enqueuePeer a .pex now _
  · exact ledger_enqueuePeer a .pex now s

theorem ledger_onPex (conn : ConnId) (msg : PexMsg) (s : TorrentSession) : (onPex env conn msg s).ledger = s.ledger := by
  unfold onPex
  dsimp only
  refine (ledger_foldl (ledger_addPex conn env.now) _ _).trans ?_
  split
  · exact ledger_observeExternalPort env _ _ s
  · rfl

theorem idle_availabilityChanged (conn : ConnId) (w : World H) : Idle w (availabilityChanged conn w) :=
  (idle_map (ledger_recomputeAvailability _)).trans (idle_map (ledger_syncInterest conn _))

theorem idle_onBitfield (conn : ConnId) (bytes : Bytes) (w : World H) : Idle w (onBitfield conn bytes w).2 := by
  unfold onBitfield
  split
  · exact idle_availabilityChanged conn w
  · split
    · exact Idle.refl w
    · split
      · exact Idle.refl w
      · refine Idle.trans ?_ (idle_availabilityChanged conn _)
        exact idle_mapPeer w conn (fun _ => rfl)

theorem idle_onHaveAllNone (conn : ConnId) (all : Bool) (w : World H) : Idle w (onHaveAllNone conn all w).2 := by
  unfold onHaveAllNone
  split
  · dsimp only
    split
    · exact idle_availabilityChanged conn w
    · exact idle_map (ledger_syncInterest conn _)
  · split
    · exact Idle.refl w
    · split
      · refine Idle.trans ?_ (idle_availabilityChanged conn _)
        exact idle_mapPeer w conn (fun _ => rfl)
      · refine Idle.trans ?_ (idle_map (ledger_syncInterest conn _))
        exact idle_mapPeer w conn (fun _ => rfl)

end Peers

/-! ### Files -/

section Disk
variable {H : Type} (host : Host H)

theorem window_writeAbsLoop (t : Torrent) (files : List (Option Nat)) (n pos : Nat) (rest : Bytes)
    (io : DiskCache.State H) : (writeAbsLoop host t files n pos rest io).2.cache.window = io.cache.window := by
  induction n generalizing pos rest io with
  | zero => rfl
  | succ n ih =>
    rw [writeAbsLoop]
    dsimp only
    split
    · rfl
    · split
      · rfl
      · rename_i file off room located
        split
        · rfl
        · split
          · rfl
          · rename_i disk opened
            have written := DiskCache.window_write host.toDiskHost disk off (rest.take (min rest.length room)) io
            split
            · rename_i e after failed
              rw [failed] at written
              exact written
            · rename_i u after done
              rw [done] at written
              exact (ih _ _ after).trans written

theorem idle_writeAbs (abs : Nat) (data : Bytes) (w : World H) : Idle w (writeAbs host abs data w).2 := by
  unfold writeAbs
  split
  · exact Idle.refl w
  · rename_i t torrent
    have written := window_writeAbsLoop host t w.sess.files data.length abs data w.io
    split
    · rename_i e io failed
      rw [failed] at written
      exact idle_of_ledger rfl written rfl
    · rename_i u io done
      rw [done] at written
      split
      · exact idle_of_ledger rfl written rfl
      · exact idle_of_ledger rfl ((DiskCache.window_flushDiskLoop host.toDiskHost _ io).trans written) rfl

theorem window_readAbsLoop (t : Torrent) (files : List (Option Nat)) (n pos want : Nat) (got : Bytes)
    (io : DiskCache.State H) : (readAbsLoop host t files n pos want got io).2.cache.window = io.cache.window := by
  induction n generalizing pos want got io with
  | zero => rfl
  | succ n ih =>
    rw [readAbsLoop]
    dsimp only
    split
    · rfl
    · split
      · rfl
      · rename_i file off room located
        split
        · rfl
        · split
          · rfl
          · rename_i disk opened
            have loaded := DiskCache.window_readLoop host.toDiskHost disk (min want room) off (min want room) [] io
            rw [← DiskCache.read] at loaded
            split
            · rename_i e after failed
              rw [failed] at loaded
              exact loaded
            · rename_i part after done
              rw [done] at loaded
              split
              · exact loaded
              · exact (ih _ _ _ after).trans loaded

theorem idle_readAbs (abs len : Nat) (w : World H) : Idle w (readAbs host abs len w).2 := by
  unfold readAbs
  split
  · exact Idle.refl w
  · exact idle_of_ledger rfl (window_readAbsLoop host _ _ _ _ _ _ _) rfl

theorem idle_openLoop (pl : Nat) (files : List FileEntry) (fi abs : Nat) (w : World H) :
    Idle w (openLoop host pl files fi abs w).2 := by
  induction files generalizing fi abs w with
  | nil =>
    rw [openLoop]
    exact idle_of_ledger rfl rfl rfl
  | cons f tail ih =>
    rw [openLoop]
    split
    · split
      · exact idle_setHost w _
      · exact ((idle_setHost w _).trans (idle_map rfl)).trans (ih _ _ _)
    · exact ih _ _ w

theorem idle_openFiles (w : World H) : Idle w (openFiles host w).2 := by
  unfold openFiles
  split
  · exact Idle.refl w
  · split_ifs
    · exact (idle_map rfl).trans (idle_openLoop host _ _ _ _ _)
    · exact idle_openLoop host _ _ _ _ w

end Disk

/-! ### Serving peers -/

section Serving
variable {H : Type} (host : Host H) (env : Env)

theorem idle_rejectRequest (conn : ConnId) (index start length : Nat) (w : World H) :
    Idle w (rejectRequest conn index start length w) := by
  refine idle_mapPeer w conn (fun p => ?_)
  split_ifs <;> rfl

theorem idle_onRequest (conn : ConnId) (index start length : Nat) (w : World H) :
    Idle w (onRequest host env conn index start length w).2 := by
  unfold onRequest
  split
  · exact Idle.refl w
  · split
    · exact Idle.refl w
    · split
      · dsimp only
        split_ifs
        · exact idle_mapPeer w conn (fun _ => rfl)
        · refine Idle.trans ?_ (idle_rejectRequest conn index start length _)
          exact idle_mapPeer w conn (fun _ => rfl)
      · have noted := idle_mapPeer w conn (f := fun p => { p with lastRequestAt := env.now, lastRealAt := env.now })
          (fun _ => rfl)
        refine noted.trans ?_
        generalize w.mapPeer conn (fun p => { p with lastRequestAt := env.now, lastRealAt := env.now }) = v
        dsimp only
        split
        · exact idle_rejectRequest conn index start length v
        · split
          · exact idle_rejectRequest conn index start length v
          · split
            · exact Idle.refl v
            · rename_i abs located
              have read := idle_readAbs host (wadd abs start) length v
              split
              · rename_i e u failed
                rw [failed] at read
                exact read
              · rename_i buf u got
                rw [got] at read
                split
                · exact read
                · exact (read.trans (idle_map rfl)).trans (idle_mapPeer _ conn (fun _ => rfl))

theorem idle_serveMetadata (t : Torrent) (conn : ConnId) (piece : Nat) (w : World H) :
    Idle w (serveMetadata env t conn piece w).2 := by
  unfold serveMetadata
  dsimp only
  split
  · exact Idle.refl w
  · split
    · exact Idle.refl w
    · refine idle_mapPeer w conn (fun p => ?_)
      cases p.extMetadata <;> dsimp only <;> split <;> rfl

end Serving

/-! ### Asking for metadata -/

section Asking
variable {H : Type} (env : Env)

theorem ledger_askMetadata (conn : ConnId) (s : TorrentSession) : (askMetadata env conn s).ledger = s.ledger := by
  unfold askMetadata
  split
  · rename_i id m ext fetching
    split
    · rfl
    · exact ledger_of_fetching rfl (burdensOf_modify (fun _ => rfl)) (by rw [fetching]; rfl)
  · rfl

theorem ledger_sweepMetadataRequests (s : TorrentSession) : (sweepMetadataRequests env s).ledger = s.ledger := by
  unfold sweepMetadataRequests
  split
  · rfl
  · rename_i m fetching
    split
    · rfl
    · exact ledger_of_fetching rfl rfl (by rw [fetching]; rfl)

theorem ledger_askNext (s : TorrentSession) (conn : ConnId) : (askNext env s conn).ledger = s.ledger := by
  unfold askNext
  split
  · rename_i p m found fetching
    split
    · rfl
    · split
      · rfl
      · split
        · rfl
        · exact ledger_of_fetching rfl (burdensOf_insert found rfl) (by rw [fetching]; rfl)
  · rfl

theorem idle_kickMetadata (w : World H) : Idle w ((kickMetadata env w).getD w) := by
  refine kickMetadata_getD (P := Idle w) (Idle.refl w) fun v kicks => ?_
  rw [kickMetadata_some kicks]
  have asked : Idle w (w.map fun s => (sweepMetadataRequests env s).peers.keys.foldl (askNext env) (sweepMetadataRequests env s)) :=
    idle_map ((ledger_foldl (ledger_askNext env) _ _).trans (ledger_sweepMetadataRequests env w.sess))
  refine asked.trans ?_
  unfold announceStarted
  split_ifs
  · exact (idle_map rfl).trans (idle_emit _ rfl)
  · exact Idle.refl _

end Asking

/-! ### Ticks -/

section Ticks
variable {H : Type} (env : Env)

theorem idle_announceDue (w : World H) : Idle w (announceDue env w) := by
  unfold announceDue
  split
  · exact (idle_map rfl).trans (idle_emit _ rfl)
  · split
    · exact idle_emit w rfl
    · exact Idle.refl w

theorem ledger_applyUnchoke (now : Nat) (conns : List ConnId) (s : TorrentSession) : (applyUnchoke now conns s).ledger = s.ledger := by
  refine ledger_of_burdens rfl (burdensOf_mapValues (fun c p => ?_))
  dsimp only
  split_ifs <;> rfl

end Ticks
end TypeBit.Session
