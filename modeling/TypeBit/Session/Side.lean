import TypeBit.Session.Moves

/-! What a session says of itself and hears of its peers: the bytes it counts, its torrent, how far the
metadata is, and what each peer claims to have. Few steps touch this side of a session; most leave it as it
is, and of the others most only let a peer go, or add one that has said nothing yet. -/

namespace TypeBit.Session
open Metainfo Leech Wire OrdMap Relation

/-- What a peer told us about the pieces it has, its id for metadata messages, and whether it said that it has all or
none. -/
structure Facet where
  haveBits : Bitfield
  extMetadata : Option UInt8
  declared : Bool

def facet (p : Peer) : Facet := ⟨p.haveBits, p.extMetadata, p.haveAll || p.haveNone⟩

structure Side where
  downloaded : Nat
  torrent : Option Torrent
  pieceCount : Nat
  metadata : Option MetadataFetch
  facets : ConnId → Option Facet

def TorrentSession.side (s : TorrentSession) : Side where
  downloaded := s.downloadedBytes
  torrent := s.torrent
  pieceCount := s.pieces.pieceCount
  metadata := s.metadata
  facets := s.peers.view facet

namespace Side

def tell (conn : ConnId) (h : Facet → Facet) (x : Side) : Side :=
  { x with facets := fun c => if conn = c then (x.facets c).map h else x.facets c }

def leave (conn : ConnId) (x : Side) : Side := { x with facets := Function.update x.facets conn none }

def enter (conn : ConnId) (x : Side) : Side :=
  { x with facets := Function.update x.facets conn (some ⟨Bitfield.new x.pieceCount, none, false⟩) }

def scatter (x : Side) : Side := { x with facets := fun _ => none }

def release (x : Side) : Side := { x with metadata := x.metadata.map MetadataFetch.release }

end Side

/-- A shift of a session that neither counts bytes nor brings metadata along. -/
inductive Shift : Side → Side → Prop where
  | leave (x : Side) (conn : ConnId) : Shift x (x.leave conn)
  | scatter (x : Side) : Shift x x.scatter
  | release {x : Side} (fetching : x.torrent = none) : Shift x x.release
  | enter (x : Side) (conn : ConnId) : Shift x (x.enter conn)
  | tell (x : Side) (conn : ConnId) {h : Facet → Facet} (id : ∀ a, (h a).extMetadata = a.extMetadata)
      (said : ∀ a, (h a).declared = a.declared)
      (fits : ∀ a, a.haveBits.len = x.pieceCount → (h a).haveBits.len = x.pieceCount) : Shift x (x.tell conn h)

abbrev Shifts : Side → Side → Prop := ReflTransGen Shift

theorem Shift.shifts {x y : Side} (shift : Shift x y) : Shifts x y := ReflTransGen.single shift

theorem shifts_of_eq {x y : Side} (same : y = x) : Shifts x y := by
  rw [same]

theorem Shifts.invariant {P : Side → Prop} (each : ∀ {x y}, Shift x y → P x → P y) {x y : Side} (shifts : Shifts x y)
    (start : P x) : P y := by
  induction shifts with
  | refl => exact start
  | tail _ last ih => exact each last ih

theorem Shifts.foldl {H α : Type} {f : World H → α → World H} (each : ∀ w a, Shifts w.sess.side (f w a).sess.side)
    (l : List α) (w : World H) : Shifts w.sess.side (l.foldl f w).sess.side := by
  induction l generalizing w with
  | nil => exact ReflTransGen.refl
  | cons a tail ih => exact (each w a).trans (ih (f w a))

/-! ### Steps that leave the side as it is -/

section Same
variable {s u : TorrentSession}

theorem side_of_facets (rest : u.side = { s.side with facets := u.peers.view facet })
    (same : u.peers.view facet = s.peers.view facet) : u.side = s.side := by
  rw [rest, same]
  rfl

theorem side_foldl {α : Type} {f : TorrentSession → α → TorrentSession} (each : ∀ s a, (f s a).side = s.side)
    (l : List α) (s : TorrentSession) : (l.foldl f s).side = s.side := by
  induction l generalizing s with
  | nil => rfl
  | cons a tail ih => exact (ih (f s a)).trans (each s a)

variable {H : Type}

theorem side_worldFoldl {α : Type} {f : World H → α → World H} (each : ∀ w a, (f w a).sess.side = w.sess.side)
    (l : List α) (w : World H) : (l.foldl f w).sess.side = w.sess.side := by
  induction l generalizing w with
  | nil => rfl
  | cons a tail ih => exact (ih (f w a)).trans (each w a)

theorem side_foldl_fst {α β : Type} {f : World H × β → α → World H × β}
    (each : ∀ acc a, (f acc a).1.sess.side = acc.1.sess.side) (l : List α) (acc : World H × β) :
    (l.foldl f acc).1.sess.side = acc.1.sess.side := by
  induction l generalizing acc with
  | nil => rfl
  | cons a tail ih => exact (ih (f acc a)).trans (each acc a)

theorem side_mapPeer (w : World H) (conn : ConnId) {f : Peer → Peer} (same : ∀ p, facet (f p) = facet p) :
    (w.mapPeer conn f).sess.side = w.sess.side :=
  side_of_facets rfl (view_modify_same same)

theorem side_tell (w : World H) (conn : ConnId) {f : Peer → Peer} {h : Facet → Facet}
    (shows : ∀ p, facet (f p) = h (facet p)) : (w.mapPeer conn f).sess.side = w.sess.side.tell conn h := by
  have facets := view_modify (m := w.sess.peers) (k := conn) shows
  exact congrArg (fun facets => { w.sess.side with facets := facets }) facets

end Same

/-! ### Peers -/

section Peers
variable {H : Type} (env : Env)

theorem side_recomputeAvailability (s : TorrentSession) : (recomputeAvailability s).side = s.side := by
  unfold recomputeAvailability
  split_ifs
  · rfl
  · rfl

theorem side_syncInterest (conn : ConnId) (s : TorrentSession) : (syncInterest conn s).side = s.side := by
  unfold syncInterest
  split
  · rfl
  · rename_i p found
    split
    · rfl
    · dsimp only
      split
      · rfl
      · exact side_of_facets rfl (view_insert_same found rfl)

theorem side_availabilityChanged (conn : ConnId) (w : World H) :
    (availabilityChanged conn w).sess.side = w.sess.side :=
  (side_syncInterest conn (recomputeAvailability w.sess)).trans (side_recomputeAvailability w.sess)

theorem side_maybeReannounceEmptySwarm (w : World H) :
    (maybeReannounceEmptySwarm env w).sess.side = w.sess.side := by
  unfold maybeReannounceEmptySwarm
  split_ifs
  · rfl
  · rfl
  · rfl
  · rfl

theorem side_observeExternalPort (port : Nat) (witness : NetAddr) (s : TorrentSession) :
    (observeExternalPort env port witness s).side = s.side := by
  unfold observeExternalPort
  split_ifs
  · rfl
  · rfl

theorem side_broadcastPexTo (conn : ConnId) (s : TorrentSession) : (broadcastPexTo conn s).side = s.side := by
  unfold broadcastPexTo
  split
  · rfl
  · rename_i p found
    split
    · rfl
    · exact side_of_facets rfl (view_insert_same found rfl)

theorem side_enqueuePeer (addr : NetAddr) (source : DiscoverySource) (now : Nat) (s : TorrentSession) :
    (enqueuePeer addr source now s).side = s.side := by
  unfold enqueuePeer
  split_ifs
  · rfl
  · rfl

theorem side_addPex (conn : ConnId) (now : Nat) (s : TorrentSession) (a : NetAddr) :
    (addPex conn now s a).side = s.side := by
  unfold addPex
  dsimp only
  split_ifs
  · rfl
  · exact side_enqueuePeer a .pex now _
  · exact side_enqueuePeer a .pex now s

theorem side_onPex (conn : ConnId) (msg : PexMsg) (s : TorrentSession) : (onPex env conn msg s).side = s.side := by
  unfold onPex
  refine (side_foldl (side_addPex conn env.now) _ _).trans ?_
  split
  · exact side_observeExternalPort env _ _ s
  · rfl

theorem side_releaseBlock (s : TorrentSession) (k : BlockKey) : (s.releaseBlock k).side = s.side := by
  have kept := (PieceTracker.released_clearBlockRequested s.pieces (ofLex k).1 (ofLex k).2
    (s.blockCount (ofLex k).1)).count
  exact congrArg (fun count => { s.side with pieceCount := count }) kept

theorem side_releaseRequests (conn : ConnId) (w : World H) : (releaseRequests conn w).sess.side = w.sess.side := by
  unfold releaseRequests
  refine (side_worldFoldl (fun w k => side_releaseBlock w.sess k) _ _).trans ?_
  exact side_worldFoldl (f := fun (w : World H) _ => w.inflightDec) (fun _ _ => rfl) _ w

theorem shifts_detach (conn : ConnId) (w : World H) : Shifts w.sess.side (detach conn w).sess.side := by
  have freed : Shifts w.sess.side (if w.sess.peers.contains conn then
      releaseRequests conn (w.map (fun s => { s with peers := s.peers.erase conn })) else w).sess.side := by
    split
    · rw [side_releaseRequests]
      have facets : (w.sess.peers.erase conn).view facet = _ := view_erase
      have left : ({ w.sess with peers := w.sess.peers.erase conn } : TorrentSession).side = w.sess.side.leave conn :=
        congrArg (fun facets => { w.sess.side with facets := facets }) facets
      exact left ▸ (Shift.leave w.sess.side conn).shifts
    · exact ReflTransGen.refl
  refine freed.trans ?_
  unfold detach
  dsimp only
  generalize (if w.sess.peers.contains conn then
    releaseRequests conn (w.map (fun s => { s with peers := s.peers.erase conn })) else w) = v
  split
  · rename_i fetching
    exact (Shift.release (x := v.sess.side) (Option.isNone_iff_eq_none.mp fetching)).shifts
  · exact ReflTransGen.refl

theorem shifts_onDisconnect (conn : ConnId) (w : World H) : Shifts w.sess.side (onDisconnect env conn w).sess.side := by
  refine (shifts_detach conn w).trans (shifts_of_eq ?_)
  exact (side_maybeReannounceEmptySwarm env _).trans (side_recomputeAvailability _)

theorem shifts_dropPeer (conn : ConnId) (w : World H) : Shifts w.sess.side (dropPeer env conn w).sess.side := by
  refine (shifts_detach conn w).trans (shifts_of_eq ?_)
  exact (side_maybeReannounceEmptySwarm env _).trans (side_recomputeAvailability _)

theorem shifts_banPeer (conn : ConnId) (addr : NetAddr) (reason : BanReason) (w : World H) :
    Shifts w.sess.side (banPeer env conn addr reason w).sess.side :=
  shifts_dropPeer env conn ((w.map (fun s => { s with
    bans := s.bans.ban addr ((w.sess.peers.get? conn).bind Peer.peerId) s.cfg.leech.banTtlMs reason env.now })).emit
      (.peerBanned addr reason))

theorem shifts_noteProtocolViolation (conn : ConnId) (w : World H) :
    Shifts w.sess.side (noteProtocolViolation env conn w).sess.side := by
  unfold noteProtocolViolation
  have charged := side_mapPeer w conn
    (f := fun p => { p with rep := { p.rep with protocolViolations := satAdd32 p.rep.protocolViolations 1 } })
    (fun _ => rfl)
  refine (shifts_of_eq charged).trans ?_
  dsimp only
  generalize w.mapPeer conn _ = v
  split
  · exact shifts_dropPeer env conn v
  · rename_i p found
    split_ifs
    · exact shifts_banPeer env conn p.addr .protocol
        (v.map (fun s => { s with reputation := s.reputation.noteViolation p.addr p.peerId env.now }))
    · exact shifts_dropPeer env conn v

theorem shifts_attachPeer (conn : ConnId) (addr : NetAddr) (outbound : Bool) (source : DiscoverySource) (w : World H) :
    Shifts w.sess.side (attachPeer env conn addr outbound source w).sess.side := by
  unfold attachPeer
  split_ifs
  · exact ReflTransGen.refl
  · dsimp only
    generalize known : ({ Peer.new conn addr w.sess.pieces.pieceCount source w.sess.cfg.requestPipeline with
      connectedAt := env.now, phase := .handshake } : Peer) = peer
    have blank : facet (peer.sendRaw (ourHandshake env w.sess)) = ⟨Bitfield.new w.sess.pieces.pieceCount, none, false⟩ := by
      rw [← known]
      rfl
    have facets := view_insert (g := facet) (m := w.sess.peers) (k := conn) (peer.sendRaw (ourHandshake env w.sess))
    rw [blank] at facets
    have entered : (w.map (fun s => { s with
        peers := s.peers.insert conn (peer.sendRaw (ourHandshake env s)) })).sess.side = w.sess.side.enter conn :=
      congrArg (fun facets => { w.sess.side with facets := facets }) facets
    exact entered ▸ (Shift.enter w.sess.side conn).shifts

theorem facet_welcome (their : Handshake) (s : TorrentSession) (p : Peer) : facet (welcome env their s p) = facet p := by
  unfold welcome
  dsimp only
  split
  · rfl
  · rfl

theorem shifts_onHandshake (conn : ConnId) (their : Handshake) (w : World H) :
    Shifts w.sess.side (onHandshake env conn their w).2.sess.side := by
  unfold onHandshake
  split_ifs
  · exact ReflTransGen.refl
  · exact ReflTransGen.refl
  · exact ReflTransGen.refl
  · split
    · exact ReflTransGen.refl
    · rename_i p found
      have identified : (w.map (fun s => { s with
          peers := s.peers.insert conn (identify their s p) })).sess.side = w.sess.side :=
        side_of_facets rfl (view_insert_same found rfl)
      dsimp only
      refine (shifts_of_eq identified).trans ?_
      generalize w.map (fun s => { s with peers := s.peers.insert conn (identify their s p) }) = v
      split
      · exact shifts_banPeer env conn p.addr .corrupt
          (v.map (fun s => { s with reputation := s.reputation.noteViolation p.addr (some their.peerId) env.now }))
      · refine shifts_of_eq ((side_broadcastPexTo conn _).trans ?_)
        generalize noted : v.map (fun s => { s with
          reputation := s.reputation.noteHandshake p.addr their.peerId env.now }) = u
        have same : u.sess.side = v.sess.side := noted ▸ rfl
        exact (side_mapPeer u conn (facet_welcome env their u.sess)).trans same

theorem shifts_evict (conn : ConnId) (w : World H) : Shifts w.sess.side (evict env conn w).sess.side := by
  unfold evict
  split
  · exact ReflTransGen.refl
  · rename_i p found
    dsimp only
    split_ifs
    · exact shifts_dropPeer env conn
        (w.map (fun s => { s with reputation := s.reputation.noteViolation p.addr p.peerId env.now }))
    · exact shifts_dropPeer env conn w

end Peers

/-! ### Files and requests of others -/

section Disk
variable {H : Type} (host : Host H) (env : Env)

theorem side_writeAbs (abs : Nat) (data : Bytes) (w : World H) :
    (writeAbs host abs data w).2.sess.side = w.sess.side := by
  unfold writeAbs
  split
  · rfl
  · split
    · rfl
    · split
      · rfl
      · rfl

theorem side_readAbs (abs len : Nat) (w : World H) : (readAbs host abs len w).2.sess.side = w.sess.side := by
  unfold readAbs
  split
  · rfl
  · rfl

theorem side_openLoop (pl : Nat) (files : List FileEntry) (fi abs : Nat) (w : World H) :
    (openLoop host pl files fi abs w).2.sess.side = w.sess.side := by
  induction files generalizing fi abs w with
  | nil => rfl
  | cons f tail ih =>
    rw [openLoop]
    split
    · split
      · rfl
      · exact ih _ _ _
    · exact ih _ _ w

theorem side_openFiles (w : World H) : (openFiles host w).2.sess.side = w.sess.side := by
  unfold openFiles
  split
  · rfl
  · split
    · exact side_openLoop host _ _ _ _ _
    · exact side_openLoop host _ _ _ _ w

theorem side_rejectRequest (conn : ConnId) (index start length : Nat) (w : World H) :
    (rejectRequest conn index start length w).sess.side = w.sess.side := by
  refine side_mapPeer w conn (fun p => ?_)
  split
  · rfl
  · rfl

theorem side_onRequest (conn : ConnId) (index start length : Nat) (w : World H) :
    (onRequest host env conn index start length w).2.sess.side = w.sess.side := by
  unfold onRequest
  split
  · rfl
  · split
    · rfl
    · split
      · have charged := side_mapPeer w conn (f := fun p => { p with invalidRequests := p.invalidRequests + 1 })
          (fun _ => rfl)
        dsimp only
        split_ifs
        · exact charged
        · exact (side_rejectRequest conn index start length _).trans charged
      · have noted := side_mapPeer w conn (f := fun p => { p with lastRequestAt := env.now, lastRealAt := env.now })
          (fun _ => rfl)
        rw [← noted]
        generalize w.mapPeer conn (fun p => { p with lastRequestAt := env.now, lastRealAt := env.now }) = v
        dsimp only
        split
        · exact side_rejectRequest conn index start length v
        · split
          · exact side_rejectRequest conn index start length v
          · split
            · rfl
            · rename_i abs located
              have loaded := side_readAbs host (wadd abs start) length v
              split
              · rename_i e u failed
                rw [failed] at loaded
                exact loaded
              · rename_i buf u got
                rw [got] at loaded
                split
                · exact loaded
                · refine (side_mapPeer _ conn ?_).trans ?_
                  · exact fun _ => rfl
                  · exact loaded

theorem side_serveMetadata (t : Torrent) (conn : ConnId) (piece : Nat) (w : World H) :
    (serveMetadata env t conn piece w).2.sess.side = w.sess.side := by
  unfold serveMetadata
  dsimp only
  split
  · rfl
  · split
    · rfl
    · refine side_mapPeer w conn (fun p => ?_)
      cases told : p.extMetadata <;> dsimp only <;> split <;> simp [facet, Peer.send, Peer.sendRaw, told]

end Disk

/-! ### Our requests -/

section Requests
variable {H : Type} (env : Env)

theorem side_issueRequest (conn : ConnId) (piece block totalBlocks len : Nat) (w : World H) :
    (issueRequest env conn piece block totalBlocks len w).sess.side = w.sess.side := by
  refine (side_mapPeer _ conn ?_).trans ?_
  · exact fun _ => rfl
  · have kept := w.sess.pieces.pieceCount_markBlockRequested piece block totalBlocks
    exact congrArg (fun count => { w.sess.side with pieceCount := count }) kept

theorem side_fillLoop (conn : ConnId) (guard : Nat) (w : World H) :
    (fillLoop env conn guard w).sess.side = w.sess.side := by
  induction guard generalizing w with
  | zero => rfl
  | succ guard ih =>
    rw [fillLoop]
    split
    · rfl
    · rename_i p found
      split
      · rfl
      · split
        · rfl
        · rename_i piece chosen
          have pledged : (pledge conn p piece w).sess.side = w.sess.side := by
            unfold pledge
            split
            · rfl
            · exact side_mapPeer w conn (fun _ => rfl)
          rw [← pledge, ← pledged]
          generalize pledge conn p piece w = v
          have released := side_mapPeer v conn (f := fun p => { p with currentPiece := none }) (fun _ => rfl)
          dsimp only
          split
          · exact (ih _).trans released
          · rename_i info placed
            split
            · exact (ih _).trans released
            · split_ifs
              · rfl
              · rfl
              · rfl
              · exact (ih _).trans (side_issueRequest env conn _ _ _ _ _)

theorem side_cancelRequester (piece block : Nat) (w : World H) (c : ConnId) :
    (cancelRequester piece block w c).sess.side = w.sess.side := side_mapPeer w c (fun _ => rfl)

theorem side_cancelSkipped (w : World H) (k : BlockKey) : (cancelSkipped w k).sess.side = w.sess.side := by
  unfold cancelSkipped
  split
  · rfl
  · refine (side_releaseBlock _ k).trans ?_
    exact (side_worldFoldl (side_cancelRequester (ofLex k).1 (ofLex k).2) _ _).trans rfl

theorem side_cancelSkippedPieceRequests (w : World H) :
    (cancelSkippedPieceRequests w).sess.side = w.sess.side :=
  (side_worldFoldl side_cancelSkipped _ _).trans rfl

theorem side_timeoutRequester (piece block maxTimeouts : Nat) (acc : World H × List ConnId) (c : ConnId) :
    (timeoutRequester piece block maxTimeouts acc c).1.sess.side = acc.1.sess.side :=
  side_mapPeer acc.1 c (fun _ => rfl)

theorem side_timeoutBlock (maxTimeouts : Nat) (acc : World H × List ConnId) (k : BlockKey) :
    (timeoutBlock maxTimeouts acc k).1.sess.side = acc.1.sess.side := by
  unfold timeoutBlock
  split
  · rfl
  · rename_i reqs found
    refine (side_releaseBlock _ k).trans ?_
    exact side_foldl_fst (side_timeoutRequester (ofLex k).1 (ofLex k).2 maxTimeouts) reqs acc

theorem shifts_banTimedOut (w : World H) (c : ConnId) : Shifts w.sess.side (banTimedOut env w c).sess.side := by
  unfold banTimedOut
  split
  · exact ReflTransGen.refl
  · rename_i p found
    exact shifts_banPeer env c p.addr .timeout
      (w.map (fun s => { s with reputation := s.reputation.noteViolation p.addr p.peerId env.now }))

theorem shifts_sweepRequestTimeouts (w : World H) : Shifts w.sess.side (sweepRequestTimeouts env w).sess.side := by
  unfold sweepRequestTimeouts
  have timedOut := side_foldl_fst (side_timeoutBlock (H := H) (max w.sess.cfg.maxRequestTimeouts 1))
    ((w.sess.requestedAt.entries.filter (fun e =>
      decide (env.now - e.2 ≥ effectiveTimeout w.sess.cfg))).map Prod.fst) (w, [])
  exact (shifts_of_eq timedOut).trans (Shifts.foldl (shifts_banTimedOut env) _ _)

theorem side_cancelPeerRequest (conn : ConnId) (index start : Nat) (w : World H) :
    (cancelPeerRequest conn index start w).2.sess.side = w.sess.side := by
  unfold cancelPeerRequest
  dsimp only
  split
  · split
    · rfl
    · have charged := side_mapPeer w conn (f := fun p => { p with spuriousCancels := p.spuriousCancels + 1 })
        (fun _ => rfl)
      split
      · exact charged
      · exact charged
  · refine (side_mapPeer _ conn ?_).trans ?_
    · exact fun _ => rfl
    · split
      · exact (side_releaseBlock _ _).trans rfl
      · rfl

end Requests

/-! ### Control -/

section Control
variable {H : Type} (host : Host H) (env : Env)

theorem side_refreshCompletion (s : TorrentSession) : (refreshCompletion s).side = s.side := by
  unfold refreshCompletion
  split_ifs
  · rfl
  · rfl

theorem side_recomputePriorities (s : TorrentSession) : (recomputePriorities s).side = s.side := by
  unfold recomputePriorities
  split
  · rfl
  · exact (side_refreshCompletion _).trans rfl

theorem side_setFilePriority (file : Nat) (prio : FilePriority) (s : TorrentSession) :
    (setFilePriority file prio s).2.side = s.side := by
  unfold setFilePriority
  split
  · rfl
  · split
    · rfl
    · dsimp only
      exact (side_recomputePriorities _).trans rfl

theorem side_setHoldData (hold : Bool) (s : TorrentSession) : (setHoldData hold s).side = s.side :=
  (side_recomputePriorities _).trans rfl

theorem side_setFilePriorities (priorities : List FilePriority) (s : TorrentSession) :
    (setFilePriorities priorities s).2.side = s.side := by
  unfold setFilePriorities
  split
  · rfl
  · rename_i t torrent
    have recomputed := side_recomputePriorities { s with
      cfg := { s.cfg with filePriorities := priorities.take (min priorities.length t.files.length) }
      holdDataUntilPriorities := false }
    dsimp only
    split
    · exact recomputed
    · exact (side_refreshCompletion _).trans recomputed

theorem side_start (w : World H) : (start host env w).2.sess.side = w.sess.side := by
  unfold start
  split
  · rfl
  · dsimp only
    generalize begun : w.map (fun s => refreshCompletion { s with
      status := if s.torrent.isNone then .fetchingMetadata else if s.selectedPieceCount = 0 then .seeding else .downloading
      startedAt := env.now
      announceAt := env.now }) = v
    have same : v.sess.side = w.sess.side := begun ▸ (side_refreshCompletion _).trans rfl
    have opened := side_openFiles host v
    split
    · rename_i u failed
      rw [failed] at opened
      exact opened.trans same
    · rename_i u done
      rw [done] at opened
      exact opened.trans same

theorem shifts_pause (w : World H) : Shifts w.sess.side (pause env w).sess.side := by
  unfold pause
  split
  · exact ReflTransGen.refl
  · exact Shifts.foldl (fun v c => shifts_dropPeer env c v) _
      ((w.map (fun s => { s with status := .paused })).emit (.announced .stopped))

theorem side_resume (w : World H) : (resume env w).sess.side = w.sess.side := by
  unfold resume
  split
  · rfl
  · exact (side_refreshCompletion { w.sess with status := .downloading }).trans rfl

theorem shifts_stop (w : World H) : Shifts w.sess.side (stop host w).sess.side := by
  unfold stop
  split
  · exact ReflTransGen.refl
  · have closed := side_worldFoldl (f := fun (v : World H) c => v.emit (.closed c)) (fun _ _ => rfl) w.sess.peers.keys
      (w.emit (.announced .stopped))
    dsimp only
    have told := (shifts_of_eq closed).trans (Shift.scatter _).shifts
    exact told

theorem side_reopenFiles (w : World H) : (reopenFiles host w).sess.side = w.sess.side := by
  have opened := side_openFiles host w
  unfold reopenFiles
  split
  · rename_i u done
    rw [done] at opened
    exact opened
  · rename_i u failed
    rw [failed] at opened
    exact opened

theorem side_announceDue (w : World H) : (announceDue env w).sess.side = w.sess.side := by
  unfold announceDue
  split
  · rfl
  · split
    · rfl
    · rfl

theorem side_applyUnchoke (now : Nat) (conns : List ConnId) (s : TorrentSession) : (applyUnchoke now conns s).side = s.side := by
  refine side_of_facets rfl (view_mapValues_same fun c p => ?_)
  dsimp only
  split_ifs <;> rfl

end Control

/-! ### Verdicts -/

section Verdicts
variable {H : Type} (host : Host H) (env : Env)

theorem side_settlePiece (index : Nat) (s : TorrentSession) : (settlePiece index s).side = s.side := by
  refine side_of_facets rfl (view_mapValues_same fun c p => ?_)
  split
  · rfl
  · rfl

theorem side_announceCompletion (w : World H) : (announceCompletion env w).sess.side = w.sess.side := by
  unfold announceCompletion
  split
  · rfl
  · rfl

theorem side_completePieceVerified (index : Nat) (buf : Bytes) (t : Torrent) (w : World H) :
    (completePieceVerified host env index buf t w).2.sess.side = w.sess.side := by
  unfold completePieceVerified
  split
  · rfl
  · rename_i abs located
    have written := side_writeAbs host abs buf w
    split
    · rename_i e u failed
      rw [failed] at written
      exact written
    · rename_i u done
      rw [done] at written
      exact (side_announceCompletion env _).trans ((side_settlePiece index u.sess).trans written)

theorem side_penalize (acc : TorrentSession × List (ConnId × NetAddr)) (e : ConnId × Nat) :
    (penalize env acc e).1.side = acc.1.side := by
  unfold penalize
  split
  · rfl
  · rename_i p found
    exact side_of_facets rfl (view_insert_same found rfl)

theorem shifts_punishCorruptSuppliers (piece totalBlocks : Nat) (w : World H) :
    Shifts w.sess.side (punishCorruptSuppliers env piece totalBlocks w).sess.side := by
  unfold punishCorruptSuppliers
  split
  · exact ReflTransGen.refl
  · dsimp only
    generalize attributeCorruption _ _ = blame
    have blamed : ∀ acc, (blame.foldl (penalize env) acc).1.side = acc.1.side := by
      intro acc
      induction blame generalizing acc with
      | nil => rfl
      | cons e tail ih => exact (ih _).trans (side_penalize env acc e)
    have noted := blamed ((w.map (fun s => { s with pieceSuppliers := s.pieceSuppliers.erase piece })).sess, [])
    generalize blame.foldl (penalize env) _ = punished at noted ⊢
    have banned := Shifts.foldl (fun (v : World H) (e : ConnId × NetAddr) => shifts_banPeer env e.1 e.2 .corrupt v)
      punished.2 { w with sess := punished.1 }
    exact (shifts_of_eq noted).trans banned

theorem shifts_onVerified (piece : Nat) (ok : Bool) (data : Bytes) (w : World H) :
    Shifts w.sess.side (onVerified host env piece ok data w).2.sess.side := by
  unfold onVerified
  split
  · exact ReflTransGen.refl
  · rename_i totalBlocks verifying
    dsimp only
    generalize judged : w.map (fun s => { s with verifying := s.verifying.erase piece }) = v
    have same : v.sess.side = w.sess.side := judged ▸ rfl
    refine (shifts_of_eq same).trans ?_
    split
    · exact ReflTransGen.refl
    · rename_i t torrent
      cases ok with
      | true => exact shifts_of_eq (side_completePieceVerified host env piece data t v)
      | false =>
        have forgotten : ((v.map (forgetPiece piece)).emit (.cleared piece)).sess.side = v.sess.side := rfl
        exact (shifts_of_eq forgotten).trans (shifts_punishCorruptSuppliers env piece totalBlocks _)

end Verdicts

theorem side_applySavedState (haveBytes priorities : Bytes) (up down : Nat) (reputation : Option ReputationStore)
    (now : Nat) (s : TorrentSession) : (applySavedState haveBytes priorities up down reputation now s).2.side = s.side := by
  unfold applySavedState
  split
  · rfl
  · rename_i pieces loaded
    obtain ⟨bits, parsed, updated⟩ := bind_eq_ok.mp loaded
    cases updated
    dsimp only
    split
    · rfl
    · rename_i u selected
      have chosen : u.side = s.side := by
        split_ifs at selected
        · cases selected
          rfl
        · split at selected
          · cases selected
          · cases selected
            exact (side_recomputePriorities _).trans rfl
      refine (side_refreshCompletion _).trans (Eq.trans ?_ chosen)
      cases reputation with
      | none => rfl
      | some r => rfl

end TypeBit.Session
