import TypeBit.Session.Side

/-! The messages of a run, each with the world it meets, and what each does to the side of the session. -/

namespace TypeBit.Session
open Metainfo Leech Wire Relation

/-! ### What a message does -/

namespace MetadataFetch

def asked (m : MetadataFetch) : MetadataFetch :=
  { m with
    outstanding := m.outstanding + 1
    requested := (if m.requested.isEmpty then Bitfield.new 1 else m.requested).set 0 }

def rejected (m : MetadataFetch) (piece : Nat) : MetadataFetch :=
  if m.requested.get piece then { m with outstanding := m.outstanding - 1, requested := m.requested.clear piece } else m

def Takes (m : MetadataFetch) (piece total : Nat) : Prop :=
  total ≤ MAX_METADATA_SIZE ∧ (m.sized total).size = total ∧ piece < (m.sized total).requested.len

def Spoilt (digests : Digests) (ih : InfoHash) (m : MetadataFetch) : Prop :=
  m.complete = true ∧ metadataHashOk digests ih m.raw = false

def Yields (digests : Digests) (ih : InfoHash) (m : MetadataFetch) (t : Torrent) : Prop :=
  m.complete = true ∧ metadataHashOk digests ih m.raw = true ∧ Torrent.fromInfo digests m.raw = .ok t

end MetadataFetch

namespace Side

/-- The first metadata piece is asked of a peer that serves metadata, unless eight requests are out. -/
def ask (conn : ConnId) (x : Side) : Side :=
  match (x.facets conn).bind Facet.extMetadata, x.metadata with
  | some _, some m => if m.outstanding ≥ 8 then x else { x with metadata := some m.asked }
  | _, _ => x

def greet (conn : ConnId) (id : Option UInt8) (x : Side) : Side := x.tell conn (fun a => { a with extMetadata := id })

def install (t : Torrent) (x : Side) : Side := { x with torrent := some t, pieceCount := t.pieceCount, metadata := none }

def count (n : Nat) (x : Side) : Side := if n = 0 then x else { x with downloaded := wadd x.downloaded n }

end Side

def Facet.note (piece : Nat) (a : Facet) : Facet :=
  if piece < a.haveBits.len then { a with haveBits := a.haveBits.set piece } else a

def Facet.declare (a : Facet) : Facet := { a with declared := true }

inductive Gather (digests : Digests) (s : TorrentSession) (piece total : Nat) (data : Bytes) (m : MetadataFetch) (x : Side) :
    Side → Prop where
  | refused (wrong : MAX_METADATA_SIZE < total ∨ (m.sized total).size ≠ total) : Gather digests s piece total data m x x
  | outside (small : total ≤ MAX_METADATA_SIZE) (agrees : (m.sized total).size = total)
      (past : (m.sized total).requested.len ≤ piece) :
      Gather digests s piece total data m x { x with metadata := some (m.sized total) }
  | stored (takes : m.Takes piece total) :
      Gather digests s piece total data m x { x with metadata := some ((m.sized total).store piece data) }
  | restart (takes : m.Takes piece total) (spoilt : ((m.sized total).store piece data).Spoilt digests s.infoHash)
      (again : satAdd32 s.metadataHashFails 1 < MAX_METADATA_HASH_FAILS) :
      Gather digests s piece total data m x { x with metadata := some MetadataFetch.empty }
  | ended (takes : m.Takes piece total) : Gather digests s piece total data m x { x with metadata := none }
  | install (takes : m.Takes piece total) {t : Torrent} (yields : ((m.sized total).store piece data).Yields digests s.infoHash t) :
      Gather digests s piece total data m x (x.install t)

inductive Heard (digests : Digests) (s : TorrentSession) (conn : ConnId) (x : Side) : Message → Side → Prop where
  | plain {msg : Message} {y : Side} (shifts : Shifts x y) : Heard digests s conn x msg y
  | declares {msg : Message} (all : msg = .haveAll ∨ msg = .haveNone) :
      Heard digests s conn x msg (x.tell conn Facet.declare)
  | counted (index start : Nat) (data : Bytes) (n : Nat) : Heard digests s conn x (.piece index start data) (x.count n)
  | greeted {payload : Bytes} {ext : ExtHandshake} (parsed : ExtHandshake.parse payload = .ok ext) :
      Heard digests s conn x (.extended 0 payload) (if x.torrent.isNone then
        (x.greet conn (ext.m.get? (ascii "ut_metadata"))).ask conn else x.greet conn (ext.m.get? (ascii "ut_metadata")))
  | gathered {payload data : Bytes} {piece total : Nat} {m : MetadataFetch} {y : Side}
      (parsed : MetadataMsg.parse payload = .ok (.data piece total data)) (fetching : x.metadata = some m)
      (gather : Gather digests s piece total data m x y) : Heard digests s conn x (.extended 3 payload) y
  | rejected {payload : Bytes} {piece : Nat} (parsed : MetadataMsg.parse payload = .ok (.reject piece)) :
      Heard digests s conn x (.extended 3 payload) { x with metadata := x.metadata.map (fun m => m.rejected piece) }

section Messages
variable {H : Type} (digests : Digests) (host : Host H) (env : Env)

theorem facet_notePiece (piece : Nat) (p : Peer) : facet (notePiece piece p) = (facet p).note piece := by
  unfold notePiece Facet.note
  by_cases inside : piece < p.haveBits.len
  · rw [if_pos inside, if_pos (show piece < (facet p).haveBits.len from inside)]
    rfl
  · rw [if_neg inside, if_neg (show ¬ piece < (facet p).haveBits.len from inside)]

theorem shifts_notePiece (conn : ConnId) (piece : Nat) (w : World H) :
    Shifts w.sess.side (w.mapPeer conn (notePiece piece)).sess.side := by
  rw [side_tell w conn (facet_notePiece piece)]
  refine (Shift.tell w.sess.side conn (fun a => ?_) (fun a => ?_) (fun a fits => ?_)).shifts
  · unfold Facet.note
    split
    · rfl
    · rfl
  · unfold Facet.note
    split
    · rfl
    · rfl
  · unfold Facet.note
    split
    · exact (Bitfield.len_set ..).trans fits
    · exact fits

theorem shifts_onBitfield (conn : ConnId) (bytes : Bytes) (w : World H) :
    Shifts w.sess.side (onBitfield conn bytes w).2.sess.side := by
  unfold onBitfield
  split
  · exact shifts_of_eq (side_availabilityChanged conn w)
  · split
    · exact ReflTransGen.refl
    · split
      · exact ReflTransGen.refl
      · rename_i bits loaded
        refine ReflTransGen.trans ?_ (shifts_of_eq (side_availabilityChanged conn _))
        have fits : bits.len = w.sess.side.pieceCount := Bitfield.len_fromBytes loaded
        have told := Shift.tell w.sess.side conn (h := fun a => { a with haveBits := bits }) (fun _ => rfl)
          (fun _ => rfl) (fun _ _ => fits)
        rw [side_tell w conn (h := fun a => { a with haveBits := bits }) (fun _ => rfl)]
        exact told.shifts

theorem heard_onHaveAllNone {msg : Message} (declares : msg = .haveAll ∨ msg = .haveNone) (conn : ConnId) (all : Bool)
    (w : World H) : Heard digests w.sess conn w.sess.side msg (onHaveAllNone conn all w).2.sess.side := by
  have declared : ∀ {y}, y = w.sess.side.tell conn Facet.declare → Heard digests w.sess conn w.sess.side msg y :=
    fun same => same ▸ .declares declares
  unfold onHaveAllNone
  split
  · dsimp only
    split
    · exact .plain (shifts_of_eq (side_availabilityChanged conn w))
    · exact .plain (shifts_of_eq (side_syncInterest conn w.sess))
  · split
    · exact .plain ReflTransGen.refl
    · split
      · exact declared ((side_availabilityChanged conn _).trans (side_tell w conn (fun _ => rfl)))
      · refine declared ((side_syncInterest conn _).trans (side_tell w conn (fun p => ?_)))
        exact congrArg (Facet.mk p.haveBits p.extMetadata) (Bool.or_true p.haveAll)

/-! ### Metadata messages -/

theorem side_askMetadata (conn : ConnId) (s : TorrentSession) : (askMetadata env conn s).side = s.side.ask conn := by
  have id : (s.side.facets conn).bind Facet.extMetadata = (s.peers.get? conn).bind Peer.extMetadata := by
    change ((s.peers.get? conn).map facet).bind Facet.extMetadata = _
    rw [Option.bind_map]
    rfl
  have same : s.side.metadata = s.metadata := rfl
  unfold askMetadata Side.ask
  rw [id, same]
  cases (s.peers.get? conn).bind Peer.extMetadata with
  | none => rfl
  | some id =>
    cases s.metadata with
    | none => rfl
    | some m =>
      dsimp only
      split
      · rfl
      · have told : (s.peers.modify conn (fun p => p.send (.extended id (MetadataMsg.request 0).encode))).view facet =
            s.peers.view facet := OrdMap.view_modify_same (fun _ => rfl)
        exact congrArg (fun facets => { s.side with metadata := some m.asked, facets := facets }) told

theorem side_installed (t : Torrent) (s : TorrentSession) : (installed env t s).side = s.side.install t := by
  generalize fresh : ({ s with
    pieces := PieceTracker.new t.pieceCount t.pieceLength
    availability := List.replicate t.pieceCount 0
    scheduler := Scheduler.new t s.cfg.scheduler
    torrent := some t } : TorrentSession) = u
  have same : u.side = { s.side with torrent := some t, pieceCount := t.pieceCount } := fresh ▸ rfl
  have recomputed := (side_recomputePriorities u).trans same
  have unfolded : (installed env t s).side = { (recomputePriorities u).side with metadata := none } := fresh ▸ rfl
  rw [unfolded, recomputed]
  rfl

theorem side_installTorrent (t : Torrent) (w : World H) :
    (installTorrent host env t w).sess.side = w.sess.side.install t := by
  have opened := side_openFiles host (w.map (installed env t))
  have same := side_installed env t w.sess
  unfold installTorrent
  split
  · rename_i u done
    rw [done] at opened
    exact opened.trans same
  · rename_i u failed
    rw [failed] at opened
    exact opened.trans same

theorem gather_tryFinalizeMetadata {piece total : Nat} {data : Bytes} {m : MetadataFetch} {x : Side} {s : TorrentSession} {w : World H}
    (kept : w.sess.side = { x with metadata := some ((m.sized total).store piece data) })
    (takes : m.Takes piece total) (hash : w.sess.infoHash = s.infoHash)
    (fails : w.sess.metadataHashFails = s.metadataHashFails) :
    Gather digests s piece total data m x (tryFinalizeMetadata digests host env w).sess.side := by
  have fetching : w.sess.metadata = some ((m.sized total).store piece data) := congrArg Side.metadata kept
  unfold tryFinalizeMetadata
  rw [fetching, hash]
  generalize stored : (m.sized total).store piece data = got at kept
  have ends : ∀ other, { w.sess.side with metadata := other } = { x with metadata := other } := by
    intro other
    rw [kept]
  have stopped : Gather digests s piece total data m x { w.sess.side with metadata := none } :=
    ends none ▸ .ended takes
  dsimp only
  split
  · rw [kept, ← stored]
    exact .stored takes
  · rename_i complete
    rw [Bool.not_eq_true, Bool.not_eq_false'] at complete
    split
    · rename_i mismatch
      have spoilt : got.Spoilt digests s.infoHash := ⟨complete, by simpa using mismatch⟩
      unfold metadataMismatch
      dsimp only
      split
      · exact stopped
      · rename_i few
        have again : Gather digests s piece total data m x { w.sess.side with metadata := some MetadataFetch.empty } :=
          ends _ ▸ .restart takes (stored ▸ spoilt) (by rw [← fails]; omega)
        exact again
    · rename_i matching
      have right : metadataHashOk digests s.infoHash got.raw = true := by simpa using matching
      split
      · rename_i t described
        have built := side_installTorrent host env t (w.map (fun s => { s with metadataHashFails := 0 }))
        have base : (w.map (fun s => { s with metadataHashFails := 0 })).sess.side.install t = x.install t := by
          change w.sess.side.install t = x.install t
          rw [kept]
          rfl
        rw [built, base]
        exact .install takes (stored ▸ ⟨complete, right, described⟩)
      · exact stopped

theorem heard_onMetadataMsg (conn : ConnId) {payload : Bytes} {msg : MetadataMsg}
    (parsed : MetadataMsg.parse payload = .ok msg) (w : World H) :
    Heard digests w.sess conn w.sess.side (.extended 3 payload)
      (onMetadataMsg digests host env conn msg w).2.sess.side := by
  cases msg with
  | request piece =>
    rw [onMetadataMsg]
    split
    · exact .plain ReflTransGen.refl
    · exact .plain (shifts_of_eq (side_serveMetadata env _ conn piece w))
  | data piece total data =>
    rw [onMetadataMsg]
    split
    · exact .plain ReflTransGen.refl
    · rename_i small
      split
      · exact .plain ReflTransGen.refl
      · rename_i m fetching
        refine .gathered parsed (show w.sess.side.metadata = some m from fetching) ?_
        dsimp only
        split
        · rename_i differs
          exact .refused (.inr differs)
        · rename_i agrees
          rw [not_not] at agrees
          split
          · rename_i past
            exact .outside (by omega) agrees past
          · rename_i inside
            exact gather_tryFinalizeMetadata digests host env
              (w := w.map (fun s => { s with metadata := some ((m.sized total).store piece data) })) rfl
              ⟨by omega, agrees, by omega⟩ rfl rfl
  | reject piece => exact .rejected parsed

theorem heard_onExtended (conn : ConnId) (id : UInt8) (payload : Bytes) (w : World H) :
    Heard digests w.sess conn w.sess.side (.extended id payload)
      (onExtended digests host env conn id payload w).2.sess.side := by
  unfold onExtended
  split
  · rename_i shakes
    subst shakes
    split
    · exact .plain ReflTransGen.refl
    · rename_i ext parsed
      generalize observed : w.map _ = v
      have same : v.sess.side = w.sess.side := by
        rw [← observed]
        dsimp only [World.map]
        split
        · exact side_observeExternalPort env _ _ _
        · rfl
      have greeted : (v.mapPeer conn (applyExtHandshake ext)).sess.side =
          w.sess.side.greet conn (ext.m.get? (ascii "ut_metadata")) := by
        rw [← same]
        refine side_tell v conn (fun p => ?_)
        unfold applyExtHandshake
        dsimp only
        split
        · rfl
        · rfl
      have torrent : (v.mapPeer conn (applyExtHandshake ext)).sess.torrent = w.sess.side.torrent :=
        congrArg Side.torrent greeted
      have heard : Heard digests w.sess conn w.sess.side (.extended 0 payload) _ := .greeted parsed
      dsimp only
      rw [torrent]
      rw [← greeted] at heard
      split
      · rename_i fetching
        rw [if_pos fetching, ← side_askMetadata env] at heard
        exact heard
      · rename_i known
        rw [if_neg known] at heard
        exact heard
  · split
    · rename_i id3
      subst id3
      split
      · exact .plain ReflTransGen.refl
      · rename_i msg parsed
        exact heard_onMetadataMsg digests host env conn parsed w
    · split
      · split
        · exact .plain ReflTransGen.refl
        · exact .plain (shifts_of_eq (side_onPex env conn _ _))
      · exact .plain ReflTransGen.refl

/-! ### Piece messages -/

def acceptedLength (s : TorrentSession) (index start : Nat) (data : Bytes) : Nat :=
  match s.torrent with
  | none => 0
  | some t =>
      match t.pieceInfo index with
      | .error _ => 0
      | .ok info =>
          if data.length = 0 ∨ data.length > BLOCK_LEN ∨ start + data.length > info.len then 0
          else if (start + data.length - 1) / BLOCK_LEN % 2 ^ 16 ≥ blockCountFor info.len then 0
          else data.length

theorem side_resolveRequest (conn : ConnId) (index start len : Nat) (w : World H) (c : ConnId) :
    (resolveRequest conn index start len w c).sess.side = w.sess.side := by
  unfold resolveRequest
  dsimp only
  split
  · exact side_mapPeer w c (fun _ => rfl)
  · rfl

theorem side_resolveBlock (conn : ConnId) (index start len totalBlocks : Nat) (w : World H) (b : Nat) :
    (resolveBlock conn index start len totalBlocks w b).sess.side = w.sess.side := by
  have resolved := side_worldFoldl (side_resolveRequest (H := H) conn index start len)
    ((w.sess.requestedBy.get? (blockKey index (b % 2 ^ 16))).getD []) w
  have kept := (PieceTracker.released_clearBlockRequested (((w.sess.requestedBy.get?
    (blockKey index (b % 2 ^ 16))).getD []).foldl (resolveRequest conn index start len) w).sess.pieces
    index (b % 2 ^ 16) totalBlocks).count
  refine Eq.trans ?_ resolved
  exact congrArg (fun count => { TorrentSession.side (((w.sess.requestedBy.get?
    (blockKey index (b % 2 ^ 16))).getD []).foldl (resolveRequest conn index start len) w).sess with pieceCount := count }) kept

theorem pieceCount_markCovered (index pieceLen totalBlocks : Nat) (pb : PieceBytes) (blocks : List Nat) (t : PieceTracker) :
    (blocks.foldl (markCovered index pieceLen totalBlocks pb) t).pieceCount = t.pieceCount := by
  induction blocks generalizing t with
  | nil => rfl
  | cons b tail ih =>
    refine (ih _).trans ?_
    unfold markCovered
    split
    · exact t.pieceCount_markBlockReceived index (b % 2 ^ 16) totalBlocks
    · rfl

theorem side_handOver (index totalBlocks : Nat) (w : World H) :
    (handOver index totalBlocks w).sess.side = w.sess.side := by
  unfold handOver
  split
  · rfl
  · rfl

theorem side_storeBytes (conn : ConnId) (index start : Nat) {data : Bytes} (filled : data.length ≠ 0) (pieceLen : Nat)
    (w : World H) : (storeBytes conn index start data pieceLen w).sess.side = w.sess.side.count data.length := by
  have counted : w.sess.side.count data.length = { w.sess.side with downloaded := wadd w.sess.side.downloaded data.length } :=
    if_neg filled
  rw [counted]
  unfold storeBytes
  generalize (w.sess.pieceBytes.get? index).getD PieceBytes.new = pb
  dsimp only
  split
  · rfl
  · have kept := pieceCount_markCovered index pieceLen (blockCountFor pieceLen) (pb.add start (start + data.length)).1
      (overlapped start data.length) w.sess.pieces
    have same := congrArg (fun count => { w.sess.side with
      downloaded := wadd w.sess.side.downloaded data.length, pieceCount := count }) kept
    split
    · exact (side_handOver index _ _).trans same
    · exact same

theorem side_acceptPiece (conn : ConnId) (index start : Nat) {data : Bytes} (filled : data.length ≠ 0) (pieceLen : Nat)
    (w : World H) : (acceptPiece env conn index start data pieceLen w).sess.side = w.sess.side.count data.length := by
  have resolved := side_worldFoldl (side_resolveBlock (H := H) conn index start data.length (blockCountFor pieceLen))
    (overlapped start data.length) w
  unfold acceptPiece
  refine (side_storeBytes conn index start filled pieceLen _).trans (congrArg (Side.count data.length) ?_)
  exact (side_mapPeer _ conn (f := fun p => { p with
    requestsInFlight := p.requestsInFlight - 1, lastRealAt := env.now, requestsTimedOut := 0 }) (fun _ => rfl)).trans resolved

theorem side_onPiece (conn : ConnId) (index start : Nat) (data : Bytes) (w : World H) :
    (onPiece env conn index start data w).2.sess.side =
      w.sess.side.count (acceptedLength w.sess index start data) := by
  have unheard : w.sess.side.count 0 = w.sess.side := if_pos rfl
  unfold onPiece acceptedLength
  cases w.sess.torrent with
  | none => exact unheard.symm
  | some t =>
    dsimp only
    cases t.pieceInfo index with
    | error e => exact unheard.symm
    | ok info =>
      dsimp only
      by_cases invalid : data.length = 0 ∨ data.length > BLOCK_LEN ∨ start + data.length > info.len
      · rw [if_pos invalid, if_pos invalid]
        exact unheard.symm
      · rw [if_neg invalid, if_neg invalid]
        by_cases beyond : (start + data.length - 1) / BLOCK_LEN % 2 ^ 16 ≥ blockCountFor info.len
        · rw [if_pos beyond, if_pos beyond]
          exact unheard.symm
        · rw [if_neg beyond, if_neg beyond]
          exact side_acceptPiece env conn index start (by omega) info.len w

/-! ### Messages -/

theorem heard_dispatch (conn : ConnId) (msg : Message) (w : World H) :
    Heard digests w.sess conn w.sess.side msg (dispatch digests host env conn msg w).2.sess.side := by
  have unheard : ∀ {f : Peer → Peer}, (∀ p, facet (f p) = facet p) →
      Heard digests w.sess conn w.sess.side msg (w.mapPeer conn f).sess.side :=
    fun same => .plain (shifts_of_eq (side_mapPeer w conn same))
  cases msg with
  | choke => exact unheard (f := fun p => { p with peerChoking := true }) (fun _ => rfl)
  | unchoke => exact unheard (f := fun p => { p with peerChoking := false }) (fun _ => rfl)
  | interested => exact unheard (f := fun p => { p with peerInterested := true }) (fun _ => rfl)
  | notInterested => exact unheard (f := fun p => { p with peerInterested := false }) (fun _ => rfl)
  | haves piece =>
    exact .plain ((shifts_notePiece conn piece w).trans (shifts_of_eq (side_availabilityChanged conn _)))
  | bitfield bytes => exact .plain (shifts_onBitfield conn bytes w)
  | haveAll => exact heard_onHaveAllNone digests (.inl rfl) conn true w
  | haveNone => exact heard_onHaveAllNone digests (.inr rfl) conn false w
  | request index start length => exact .plain (shifts_of_eq (side_onRequest host env conn index start length w))
  | piece index start data =>
    have counted := side_onPiece env conn index start data w
    change Heard digests w.sess conn w.sess.side _ (onPiece env conn index start data w).2.sess.side
    rw [counted]
    exact .counted index start data _
  | cancel index start length => exact .plain (shifts_of_eq (side_cancelPeerRequest conn index start w))
  | port p => exact .plain ReflTransGen.refl
  | extended id payload => exact heard_onExtended digests host env conn id payload w
  | suggest piece => exact .plain (shifts_notePiece conn piece w)
  | allowedFast piece => exact .plain (shifts_notePiece conn piece w)
  | reject index start length => exact .plain ReflTransGen.refl
  | keepAlive => exact .plain ReflTransGen.refl

end Messages
end TypeBit.Session
