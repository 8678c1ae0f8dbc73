import Mathlib.Logic.Relation
import TypeBit.Session.Calm
import TypeBit.Session.Run

/-! Every event of a session is a sequence of moves: idle steps, a peer that comes or goes, a request
that is issued, cancelled, timed out or answered, a piece that is forgotten, a web-seed step, or the
arrival of metadata. What only one kind of event does, a control call or a good verdict, comes apart. -/

namespace TypeBit.Session
open Metainfo Leech Wire Relation

/-- A piece of the torrent with at least one block. -/
def Known (s : TorrentSession) (piece : Nat) : Prop :=
  ∃ t info, s.torrent = some t ∧ t.pieceInfo piece = .ok info ∧ 0 < blockCountFor info.len

/-- The web-seed fetch works on a piece of the torrent, and fetches only while it has one. -/
structure WebSound (s : TorrentSession) : Prop where
  idle : s.webseed.piece = none → s.webseed.inFlight = []
  piece : ∀ p, s.webseed.piece = some p →
    ∃ t info, s.torrent = some t ∧ t.pieceInfo p = .ok info ∧ s.webseed.totalBlocks = blockCountFor info.len
  blocks : s.webseed.inFlight ≠ [] → 0 < s.webseed.totalBlocks

structure Raised (s u : TorrentSession) : Prop where
  length : u.pieces.inFlight.len = s.pieces.inFlight.len
  flights : ∀ i, s.pieces.isInFlight i = true → u.pieces.isInFlight i = true
  landed : ∀ i tb, u.verifying.get? i = some tb →
    s.verifying.get? i = some tb ∨ (i < s.pieces.inFlight.len → u.pieces.isInFlight i = true)

/-- A web-seed step. As long as the fetch was sound it stays so, and hands over pieces it may hand over. -/
structure Fetched (sane : Prop) (s u : TorrentSession) : Prop where
  ledger : u.ledger = { s.ledger with
    pieces := u.pieces, webseed := u.webseed, pendingVerify := u.pendingVerify, verifying := u.verifying }
  pieces : ∃ flights, u.pieces = { s.pieces with inFlight := flights }
  raised : Raised s u
  sound : sane → WebSound u
  verifying : sane → ∀ i tb, u.verifying.get? i = some tb → s.verifying.get? i = some tb ∨ Known u i

theorem raised_of_same {s u : TorrentSession} (inFlight : u.pieces.inFlight = s.pieces.inFlight)
    (verifying : u.verifying = s.verifying) : Raised s u := by
  refine ⟨by rw [inFlight], fun i aloft => ?_, fun i tb found => .inl ?_⟩
  · rw [PieceTracker.isInFlight, inFlight]
    exact aloft
  · rw [← verifying]
    exact found

theorem Raised.trans {s u r : TorrentSession} (first : Raised s u) (second : Raised u r) : Raised s r := by
  refine ⟨second.length.trans first.length, fun i aloft => second.flights i (first.flights i aloft), ?_⟩
  intro i tb found
  rcases second.landed i tb found with before | aloft
  · rcases first.landed i tb before with earlier | aloft
    · exact .inl earlier
    · exact .inr fun below => second.flights i (aloft below)
  · rw [first.length] at aloft
    exact .inr aloft

inductive Parting {H : Type} : World H → World H → Prop where
  | idle {w v : World H} (same : Idle w v) : Parting w v
  | detach (w : World H) (conn : ConnId) (attached : w.sess.peers.contains conn = true) :
      Parting w (releaseRequests conn (w.map (fun s => { s with peers := s.peers.erase conn })))

/-- What can happen to the books without a new peer, an answer to a request, or a piece that is lost. -/
inductive Chore {H : Type} : World H → World H → Prop where
  | part {w v : World H} (parting : Parting w v) : Chore w v
  | commit (conn : ConnId) (piece : Nat) {w : World H} (inside : piece < w.sess.pieces.pieceCount) :
      Chore w (w.mapPeer conn (fun p => { p with currentPiece := some piece }))
  | release (conn : ConnId) (w : World H) : Chore w (w.mapPeer conn (fun p => { p with currentPiece := none }))
  | issue (env : Env) (conn : ConnId) (piece block len : Nat) {w : World H} {p : Peer} {t : Torrent} {info : PieceInfo}
      (attached : w.sess.peers.get? conn = some p) (pledged : p.currentPiece = some piece)
      (torrent : w.sess.torrent = some t)
      (known : t.pieceInfo piece = .ok info) (wanted : 0 < w.sess.piecePriorities.getD piece 1)
      (free : Picker.pickBlock w.sess.pieces piece (blockCountFor info.len) true = some block)
      (room : w.io.cache.inflightAvailable = true) :
      Chore w (issueRequest env conn piece block (blockCountFor info.len) len w)
  | cancel (w : World H) (k : BlockKey) : Chore w (cancelSkipped w k)
  | timeout (maxTimeouts : Nat) (w : World H) (toBan : List ConnId) (k : BlockKey) :
      Chore w (timeoutBlock maxTimeouts (w, toBan) k).1
  | withdraw (conn : ConnId) (index start : Nat) {w : World H} {reqs : List ConnId}
      (found : w.sess.requestedBy.get? (blockKey index (start / BLOCK_LEN % 2 ^ 16)) = some reqs)
      (outstanding : conn ∈ reqs) : Chore w (cancelPeerRequest conn index start w).2
  | judge (w : World H) (index : Nat) : Chore w (w.map (fun s => { s with verifying := s.verifying.erase index }))
  | take (w : World H) : Chore w (w.map (fun s => { s with pendingVerify := ∅ }))
  | fetch {w v : World H} (fetched : Fetched (WebSound w.sess) w.sess v.sess) (window : v.io.cache.window = w.io.cache.window)
      (traced : v.trace = w.trace) : Chore w v
  | install (env : Env) (t : Torrent) {w : World H} (absent : w.sess.torrent = none ∨ w.sess.metadata ≠ none) :
      Chore w (w.map (installed env t))
  | refetch (fails : Nat) {w : World H} (fetching : w.sess.metadata ≠ none) :
      Chore w (w.map (fun s => { s with
        metadataHashFails := fails
        metadata := some MetadataFetch.empty
        lastMetadataRequestAt := 0
        status := .fetchingMetadata }))
  | abandon (fails : Nat) {w : World H} (fetching : w.sess.metadata ≠ none) :
      Chore w (w.map (fun s => { s with metadataHashFails := fails, metadata := none, status := .failed }))
  | fail (w : World H) : Chore w (w.map (fun s => { s with status := .failed }))

/-- A chore that asks for nothing and hands nothing to the verifier; a piece in flight without a request stays so. -/
structure Errand {H : Type} (w v : World H) : Prop where
  chore : Chore w v
  verifying : ∀ i, w.sess.verifying.get? i = none → v.sess.verifying.get? i = none
  requests : ∀ i, w.sess.pieces.requested.get? i = none → v.sess.pieces.requested.get? i = none
  parked : w.sess.torrent.isSome = true → w.sess.metadata = none →
    v.sess.pieces.pieceCount = w.sess.pieces.pieceCount ∧ ∀ i, w.sess.pieces.Parked i → v.sess.pieces.Parked i

inductive Move {H : Type} : World H → World H → Prop where
  | chore {w v : World H} (chore : Chore w v) : Move w v
  | attach (w : World H) (conn : ConnId) (peer : Peer) (unused : burden peer = (0, none)) :
      Move w (w.map (fun s => { s with peers := s.peers.insert conn peer }))
  | accept (env : Env) (conn : ConnId) (index start : Nat) (data : Bytes) {w : World H} {t : Torrent} {info : PieceInfo}
      (torrent : w.sess.torrent = some t) (known : t.pieceInfo index = .ok info) (filled : data.length ≠ 0)
      (inside : start + data.length ≤ info.len) (blocks : 0 < blockCountFor info.len) :
      Move w (acceptPiece env conn index start data info.len w)
  | forget (w : World H) (index : Nat) : Move w ((w.map (forgetPiece index)).emit (.cleared index))

abbrev Partings {H : Type} : World H → World H → Prop := ReflTransGen Parting

abbrev Chores {H : Type} : World H → World H → Prop := ReflTransGen Chore

abbrev Errands {H : Type} : World H → World H → Prop := ReflTransGen Errand

abbrev Moves {H : Type} : World H → World H → Prop := ReflTransGen Move

section Moves
variable {H : Type}

variable {w v : World H}

theorem Idle.partings (same : Idle w v) : Partings w v := ReflTransGen.single (.idle same)

theorem Partings.chores (partings : Partings w v) : Chores w v :=
  ReflTransGen.mono (fun _ _ parting => Chore.part parting) w v partings

theorem Chores.moves (chores : Chores w v) : Moves w v :=
  ReflTransGen.mono (fun _ _ chore => Move.chore chore) w v chores

theorem Parting.calm (parting : Parting w v) : Calm w v := by
  cases parting with
  | idle same => exact same.calm
  | detach conn attached => exact (calm_map rfl).trans (calm_releaseRequests conn _)

theorem Partings.calm (partings : Partings w v) : Calm w v := by
  induction partings with
  | refl => exact Calm.refl w
  | tail _ last ih => exact ih.trans last.calm

theorem errand_of_calm (chore : Chore w v) (calm : Calm w v) : Errand w v := by
  have verifying : v.sess.verifying = w.sess.verifying := congrArg Ledger.verifying calm.ledger
  refine ⟨chore, fun i none => ?_, calm.released.requests, fun _ _ => ⟨calm.released.count, calm.released.parked⟩⟩
  rw [verifying]
  exact none

theorem errand_of_same (chore : Chore w v) (pieces : v.sess.pieces = w.sess.pieces)
    (verifying : ∀ i, w.sess.verifying.get? i = none → v.sess.verifying.get? i = none) : Errand w v :=
  ⟨chore, verifying, fun _ free => pieces ▸ free, fun _ _ => ⟨by rw [pieces], fun i parked => pieces ▸ parked⟩⟩

theorem errand_fail (w : World H) : Errand w (w.map (fun s => { s with status := .failed })) :=
  errand_of_same (Chore.fail w) rfl (fun _ none => none)

theorem Errand.errands (errand : Errand w v) : Errands w v := ReflTransGen.single errand

theorem Errands.chores (errands : Errands w v) : Chores w v :=
  ReflTransGen.mono (fun _ _ errand => errand.chore) w v errands

theorem Partings.errands (partings : Partings w v) : Errands w v :=
  ReflTransGen.mono (fun _ _ parting => errand_of_calm (Chore.part parting) parting.calm) w v partings

theorem Idle.errands (same : Idle w v) : Errands w v := Partings.errands same.partings

theorem Partings.moves (partings : Partings w v) : Moves w v := partings.chores.moves

theorem Idle.chores (same : Idle w v) : Chores w v := Partings.chores same.partings

theorem Idle.moves (same : Idle w v) : Moves w v := same.chores.moves

theorem Chore.chores (chore : Chore w v) : Chores w v := ReflTransGen.single chore

theorem Move.moves (move : Move w v) : Moves w v := ReflTransGen.single move

variable {α : Type}

theorem Partings.foldl {f : World H → α → World H} (each : ∀ w a, Partings w (f w a)) (l : List α)
    (w : World H) : Partings w (l.foldl f w) := by
  induction l generalizing w with
  | nil => exact ReflTransGen.refl
  | cons a tail ih => exact (each w a).trans (ih (f w a))

theorem Chores.foldl {f : World H → α → World H} (each : ∀ w a, Chores w (f w a)) (l : List α)
    (w : World H) : Chores w (l.foldl f w) := by
  induction l generalizing w with
  | nil => exact ReflTransGen.refl
  | cons a tail ih => exact (each w a).trans (ih (f w a))

theorem Errands.foldl {f : World H → α → World H} (each : ∀ w a, Errands w (f w a)) (l : List α)
    (w : World H) : Errands w (l.foldl f w) := by
  induction l generalizing w with
  | nil => exact ReflTransGen.refl
  | cons a tail ih => exact (each w a).trans (ih (f w a))

theorem Errands.foldl_fst {α β : Type} {f : World H × β → α → World H × β} (each : ∀ acc a, Errands acc.1 (f acc a).1)
    (l : List α) (acc : World H × β) : Errands acc.1 (l.foldl f acc).1 := by
  induction l generalizing acc with
  | nil => exact ReflTransGen.refl
  | cons a tail ih => exact (each acc a).trans (ih (f acc a))

theorem Moves.invariant {P : World H → Prop} (each : ∀ {w v}, Move w v → P w → P v)
    (moves : Moves w v) (start : P w) : P v := by
  induction moves with
  | refl => exact start
  | tail _ last ih => exact each last ih

end Moves

/-! ### Peers that come and go -/

section Peers
variable {H : Type} (env : Env)

theorem partings_detach (conn : ConnId) (w : World H) : Partings w (detach conn w) := by
  unfold detach
  have freed : Partings w (if w.sess.peers.contains conn then
      releaseRequests conn (w.map (fun s => { s with peers := s.peers.erase conn })) else w) := by
    split_ifs with attached
    · exact ReflTransGen.single (.detach w conn attached)
    · exact ReflTransGen.refl
  refine freed.trans ?_
  dsimp only
  generalize (if w.sess.peers.contains conn then
    releaseRequests conn (w.map (fun s => { s with peers := s.peers.erase conn })) else w) = v
  split
  · exact (idle_clearMetadataRequests v).partings
  · exact ReflTransGen.refl

theorem partings_onDisconnect (conn : ConnId) (w : World H) : Partings w (onDisconnect env conn w) :=
  (partings_detach conn w).trans
    ((idle_map (ledger_recomputeAvailability _)).trans (idle_maybeReannounceEmptySwarm env _)).partings

theorem partings_dropPeer (conn : ConnId) (w : World H) : Partings w (dropPeer env conn w) :=
  (partings_detach conn w).trans
    (((idle_emit _ rfl).trans (idle_map (ledger_recomputeAvailability _))).trans
      (idle_maybeReannounceEmptySwarm env _)).partings

theorem partings_banPeer (conn : ConnId) (addr : NetAddr) (reason : BanReason) (w : World H) :
    Partings w (banPeer env conn addr reason w) := by
  unfold banPeer
  refine ReflTransGen.trans ?_ (partings_dropPeer env conn _)
  exact ((idle_map rfl).trans (idle_emit _ rfl)).partings

theorem partings_noteProtocolViolation (conn : ConnId) (w : World H) :
    Partings w (noteProtocolViolation env conn w) := by
  unfold noteProtocolViolation
  dsimp only
  have noted := idle_mapPeer w conn
    (f := fun p => { p with rep := { p.rep with protocolViolations := satAdd32 p.rep.protocolViolations 1 } })
    (fun _ => rfl)
  refine noted.partings.trans ?_
  generalize w.mapPeer conn _ = v
  split
  · exact partings_dropPeer env conn v
  · split_ifs
    · refine ReflTransGen.trans ?_ (partings_banPeer env conn _ _ _)
      exact (idle_map rfl).partings
    · exact partings_dropPeer env conn v

theorem moves_attachPeer (conn : ConnId) (addr : NetAddr) (outbound : Bool) (source : DiscoverySource)
    (w : World H) : Moves w (attachPeer env conn addr outbound source w) := by
  unfold attachPeer
  split_ifs
  · exact (idle_emit w rfl).moves
  · exact (Move.attach w conn _ rfl).moves

theorem partings_onHandshake (conn : ConnId) (their : Handshake) (w : World H) :
    Partings w (onHandshake env conn their w).2 := by
  unfold onHandshake
  split_ifs
  · exact ReflTransGen.refl
  · exact ReflTransGen.refl
  · dsimp only
    exact (idle_map rfl).partings
  · split
    · exact ReflTransGen.refl
    · rename_i p found
      have identified : Idle w (w.map (fun s => { s with peers := s.peers.insert conn (identify their s p) })) :=
        idle_map (ledger_of_burdens rfl (burdensOf_insert found rfl))
      dsimp only
      refine identified.partings.trans ?_
      generalize w.map (fun s => { s with peers := s.peers.insert conn (identify their s p) }) = v
      split
      · refine ReflTransGen.trans ?_ (partings_banPeer env conn _ _ _)
        exact (idle_map rfl).partings
      · refine Idle.partings (Idle.trans ?_ (idle_map (ledger_broadcastPexTo conn _)))
        refine Idle.trans ?_ (idle_emit _ rfl)
        refine Idle.trans (v := v.map (fun s => { s with
          reputation := s.reputation.noteHandshake p.addr their.peerId env.now })) (idle_map rfl) ?_
        refine idle_map (ledger_of_burdens rfl (burdensOf_modify (fun q => ?_)))
        unfold welcome
        dsimp only
        split <;> rfl

theorem partings_evict (conn : ConnId) (w : World H) : Partings w (evict env conn w) := by
  unfold evict
  split
  · exact ReflTransGen.refl
  · dsimp only
    split
    · refine ReflTransGen.trans ?_ (partings_dropPeer env conn _)
      exact (idle_map rfl).partings
    · exact partings_dropPeer env conn w

end Peers

/-! ### Requests -/

section Requests
variable {H : Type} (env : Env)

theorem pieceFor_wanted {s : TorrentSession} {p : Peer} {piece : Nat} (chosen : pieceFor s p = some piece) :
    0 < s.piecePriorities.getD piece 1 := by
  unfold pieceFor at chosen
  split at chosen
  · rename_i i commits
    cases chosen
    obtain ⟨_, guard⟩ := Option.filter_eq_some_iff.mp commits
    simp only [Bool.and_eq_true, decide_eq_true_eq] at guard
    exact guard.2
  · have eligible := (Picker.pickPiece_eq_some chosen).2
    simp only [Picker.eligible, Bool.and_eq_true, decide_eq_true_eq] at eligible
    exact eligible.2

def pledge (conn : ConnId) (p : Peer) (piece : Nat) (w : World H) : World H :=
  if (committed w.sess p).isSome then w else w.mapPeer conn (fun p => { p with currentPiece := some piece })

theorem chores_pledge {conn : ConnId} {p : Peer} {piece : Nat} {w : World H} (found : w.sess.peers.get? conn = some p)
    (chosen : pieceFor w.sess p = some piece) :
    Chores w (pledge conn p piece w) ∧
      (∃ q, (pledge conn p piece w).sess.peers.get? conn = some q ∧ q.currentPiece = some piece) ∧
      (pledge conn p piece w).sess.piecePriorities = w.sess.piecePriorities := by
  unfold pieceFor at chosen
  cases already : committed w.sess p with
  | some i =>
    rw [already] at chosen
    cases chosen
    have kept : pledge conn p piece w = w := if_pos (by rw [already]; rfl)
    rw [kept]
    exact ⟨ReflTransGen.refl, ⟨p, found, (Option.filter_eq_some_iff.mp already).1⟩, rfl⟩
  | none =>
    rw [already] at chosen
    have inside := (Picker.pickPiece_eq_some chosen).1
    have taken : pledge conn p piece w = w.mapPeer conn (fun p => { p with currentPiece := some piece }) :=
      if_neg (by rw [already]; exact Bool.false_ne_true)
    rw [taken]
    refine ⟨(Chore.commit conn piece inside).chores, ⟨{ p with currentPiece := some piece }, ?_, rfl⟩, rfl⟩
    simp [World.mapPeer, World.map, OrdMap.get?_modify, found]

theorem chores_fillLoop (conn : ConnId) (guard : Nat) (w : World H) : Chores w (fillLoop env conn guard w) := by
  induction guard generalizing w with
  | zero => exact ReflTransGen.refl
  | succ guard ih =>
    rw [fillLoop]
    split
    · exact ReflTransGen.refl
    · rename_i p found
      split
      · exact ReflTransGen.refl
      · split
        · exact ReflTransGen.refl
        · rename_i piece chosen
          have wanted := pieceFor_wanted chosen
          obtain ⟨pledges, ⟨q, here, pledged⟩, priorities⟩ := chores_pledge found chosen
          rw [← priorities] at wanted
          refine pledges.trans ?_
          rw [← pledge]
          generalize pledge conn p piece w = v at here wanted ⊢
          have released := (Chore.release conn v).chores
          dsimp only
          split
          · exact released.trans (ih _)
          · rename_i info placed
            split
            · exact released.trans (ih _)
            · rename_i block free
              have refilled : Idle v (v.map (fun s => { s with
                downloadLimit := (v.sess.downloadLimit.available env.now).2 })) := idle_map rfl
              refine refilled.chores.trans ?_
              split_ifs with slow budget full
              · exact ReflTransGen.refl
              · exact ReflTransGen.refl
              · exact ReflTransGen.refl
              · obtain ⟨t, torrent, known⟩ := Option.bind_eq_some_iff.mp placed
                have located : t.pieceInfo piece = .ok info := by
                  cases result : t.pieceInfo piece with
                  | error e => simp [result, Except.toOption] at known
                  | ok i => simpa [result, Except.toOption] using known
                refine ReflTransGen.trans (Chore.chores ?_) (ih _)
                exact Chore.issue env conn piece block _ here pledged torrent located wanted free (by simpa using full)

theorem errands_cancelSkippedPieceRequests (w : World H) : Errands w (cancelSkippedPieceRequests w) := by
  unfold cancelSkippedPieceRequests
  refine ReflTransGen.trans ?_ (Errands.foldl (fun v k => (errand_of_calm (Chore.cancel v k) (calm_cancelSkipped v k)).errands) _ _)
  exact (idle_map rfl).errands

theorem partings_banTimedOut (w : World H) (c : ConnId) : Partings w (banTimedOut env w c) := by
  unfold banTimedOut
  split
  · exact ReflTransGen.refl
  · refine ReflTransGen.trans ?_ (partings_banPeer env c _ _ _)
    exact (idle_map rfl).partings

theorem errands_sweepRequestTimeouts (w : World H) : Errands w (sweepRequestTimeouts env w) := by
  unfold sweepRequestTimeouts
  have timedOut : ∀ (maxTimeouts : Nat) (acc : World H × List ConnId) (k : BlockKey),
      Errands acc.1 (timeoutBlock maxTimeouts acc k).1 := fun maxTimeouts acc k =>
    (errand_of_calm (Chore.timeout maxTimeouts acc.1 acc.2 k) (calm_timeoutBlock maxTimeouts acc k)).errands
  exact (Errands.foldl_fst (timedOut _) _ (w, [])).trans
    (Partings.foldl (partings_banTimedOut env) _ _).errands

theorem errands_cancelPeerRequest (conn : ConnId) (index start : Nat) (w : World H) :
    Errands w (cancelPeerRequest conn index start w).2 := by
  cases outstanding : (w.sess.requestedBy.get? (blockKey index (start / BLOCK_LEN % 2 ^ 16))).filter
      (fun reqs => reqs.contains conn) with
  | none =>
    unfold cancelPeerRequest
    simp only [outstanding]
    split
    · exact ReflTransGen.refl
    · have charged : Idle w (w.mapPeer conn (fun p => { p with spuriousCancels := p.spuriousCancels + 1 })) :=
        idle_mapPeer w conn (fun _ => rfl)
      split
      · exact charged.errands
      · exact charged.errands
  | some reqs =>
    obtain ⟨found, contained⟩ := Option.filter_eq_some_iff.mp outstanding
    have withdrawn := Chore.withdraw conn index start found (List.contains_iff_mem.mp contained)
    exact (errand_of_calm withdrawn (calm_cancelPeerRequest conn index start w)).errands

end Requests

/-! ### Pieces -/

section Assemble
variable {H : Type} (env : Env)

theorem moves_onPiece (conn : ConnId) (index start : Nat) (data : Bytes) (w : World H) :
    Moves w (onPiece env conn index start data w).2 := by
  unfold onPiece
  split
  · exact ReflTransGen.refl
  · rename_i t torrent
    split
    · exact ReflTransGen.refl
    · rename_i info known
      split
      · exact ReflTransGen.refl
      · rename_i valid
        split
        · exact ReflTransGen.refl
        · rename_i counted
          exact (Move.accept env conn index start data torrent known (by omega) (by omega) (by omega)).moves

theorem ledger_penalize (acc : TorrentSession × List (ConnId × NetAddr)) (e : ConnId × Nat) :
    (penalize env acc e).1.ledger = acc.1.ledger := by
  unfold penalize
  split
  · rfl
  · rename_i p found
    exact ledger_of_burdens rfl (burdensOf_insert found rfl)

theorem ledger_penalizeAll (blame : List (ConnId × Nat)) (acc : TorrentSession × List (ConnId × NetAddr)) :
    (blame.foldl (penalize env) acc).1.ledger = acc.1.ledger := by
  induction blame generalizing acc with
  | nil => rfl
  | cons e tail ih => exact (ih _).trans (ledger_penalize env acc e)

theorem partings_punishCorruptSuppliers (piece totalBlocks : Nat) (w : World H) :
    Partings w (punishCorruptSuppliers env piece totalBlocks w) := by
  unfold punishCorruptSuppliers
  split
  · exact ReflTransGen.refl
  · rename_i sups found
    dsimp only
    generalize attributeCorruption _ _ = blame
    have blamed := ledger_penalizeAll env blame
      ((w.map (fun s => { s with pieceSuppliers := s.pieceSuppliers.erase piece })).sess, [])
    generalize blame.foldl (penalize env) _ = punished at blamed ⊢
    have noted : Idle w { w with sess := punished.1 } := idle_of_ledger blamed rfl rfl
    have banned : ∀ (v : World H) (e : ConnId × NetAddr), Partings v (banPeer env e.1 e.2 .corrupt v) :=
      fun v e => partings_banPeer env e.1 e.2 .corrupt v
    exact noted.partings.trans (Partings.foldl banned punished.2 _)

theorem moves_completePieceFailed (index totalBlocks : Nat) (w : World H) :
    Moves w (completePieceFailed env index totalBlocks w) := by
  unfold completePieceFailed
  refine ReflTransGen.head (Move.forget w index) ?_
  refine Partings.moves (ReflTransGen.trans (partings_punishCorruptSuppliers env index totalBlocks _) ?_)
  exact (idle_emit _ rfl).partings

end Assemble

/-! ### Metadata -/

section Metadata
variable {H : Type} (digests : Digests) (host : Host H) (env : Env)

theorem pieces_installed (t : Torrent) (s : TorrentSession) :
    (installed env t s).verifying = s.verifying ∧
      (installed env t s).pieces = PieceTracker.new t.pieceCount t.pieceLength := by
  unfold installed recomputePriorities refreshCompletion
  dsimp only
  split_ifs <;> exact ⟨rfl, rfl⟩

theorem errand_install (t : Torrent) {w : World H} (absent : w.sess.torrent = none ∨ w.sess.metadata ≠ none) :
    Errand w (w.map (installed env t)) := by
  obtain ⟨verifying, pieces⟩ := pieces_installed env t w.sess
  refine ⟨Chore.install env t absent, fun i none => ?_, fun i _ => ?_, fun arrived settled => ?_⟩
  · change (installed env t w.sess).verifying.get? i = Option.none
    rw [verifying]
    exact none
  · change (installed env t w.sess).pieces.requested.get? i = Option.none
    rw [pieces]
    rfl
  · rcases absent with absent | fetching
    · rw [absent] at arrived
      cases arrived
    · exact absurd settled fetching

theorem errands_installTorrent (t : Torrent) {w : World H} (absent : w.sess.torrent = none ∨ w.sess.metadata ≠ none) :
    Errands w (installTorrent host env t w) := by
  unfold installTorrent
  refine ReflTransGen.head (errand_install env t absent) ?_
  have opened := idle_openFiles host (w.map (installed env t))
  split
  · rename_i u done
    rw [done] at opened
    exact (opened.trans (idle_emit _ rfl)).errands
  · rename_i u failed
    rw [failed] at opened
    exact (opened.errands.tail (errand_fail u)).trans (idle_emit _ rfl).errands

theorem errands_metadataMismatch {w : World H} (fetching : w.sess.metadata ≠ none) : Errands w (metadataMismatch w) := by
  unfold metadataMismatch
  dsimp only
  split_ifs
  · exact (errand_of_same (Chore.abandon _ fetching) rfl (fun _ none => none)).errands.trans (idle_emit _ rfl).errands
  · exact (errand_of_same (Chore.refetch _ fetching) rfl (fun _ none => none)).errands

theorem errands_tryFinalizeMetadata (w : World H) : Errands w (tryFinalizeMetadata digests host env w) := by
  unfold tryFinalizeMetadata
  split
  · exact ReflTransGen.refl
  · rename_i m found
    have fetching : w.sess.metadata ≠ none := by simp [found]
    split
    · exact ReflTransGen.refl
    · split
      · exact errands_metadataMismatch fetching
      · dsimp only
        split
        · refine ReflTransGen.trans (b := w.map (fun s => { s with metadataHashFails := 0 })) ?_ ?_
          · exact (idle_map rfl).errands
          · exact errands_installTorrent host env _ (Or.inr fetching)
        · exact (errand_of_same (Chore.abandon 0 fetching) rfl (fun _ none => none)).errands

theorem errands_onMetadataMsg (conn : ConnId) (msg : MetadataMsg) (w : World H) :
    Errands w (onMetadataMsg digests host env conn msg w).2 := by
  cases msg with
  | request piece =>
    rw [onMetadataMsg]
    split
    · exact ReflTransGen.refl
    · exact (idle_serveMetadata env _ conn piece w).errands
  | data piece totalSize data =>
    rw [onMetadataMsg]
    split
    · exact ReflTransGen.refl
    · split
      · exact ReflTransGen.refl
      · rename_i m fetching
        have stored : ∀ m' : MetadataFetch, Idle w (w.map (fun s => { s with metadata := some m' })) := fun m' =>
          idle_map (ledger_of_fetching rfl rfl (by rw [fetching]; rfl))
        dsimp only
        split
        · exact ReflTransGen.refl
        · split
          · exact (stored _).errands
          · exact (stored _).errands.trans (errands_tryFinalizeMetadata digests host env _)
  | reject piece =>
    rw [onMetadataMsg]
    refine Idle.errands ?_
    dsimp only
    exact idle_map (ledger_of_fetching rfl rfl (Option.isSome_map ..))

theorem errands_onExtended (conn : ConnId) (id : UInt8) (payload : Bytes) (w : World H) :
    Errands w (onExtended digests host env conn id payload w).2 := by
  unfold onExtended
  split
  · split
    · exact ReflTransGen.refl
    · rename_i ext parsed
      generalize saw : w.map _ = v
      have observed : Idle w v := by
        rw [← saw]
        apply idle_map
        split
        · exact ledger_observeExternalPort env _ _ _
        · rfl
      refine observed.errands.trans ?_
      have applied : Idle v (v.mapPeer conn (applyExtHandshake ext)) := by
        refine idle_mapPeer v conn (fun p => ?_)
        unfold applyExtHandshake
        dsimp only
        split <;> rfl
      refine applied.errands.trans ?_
      dsimp only
      generalize v.mapPeer conn (applyExtHandshake ext) = u
      split
      · exact (idle_map (ledger_askMetadata env conn u.sess)).errands
      · exact ReflTransGen.refl
  · split
    · split
      · exact ReflTransGen.refl
      · exact errands_onMetadataMsg digests host env conn _ w
    · split
      · split
        · exact ReflTransGen.refl
        · exact (idle_map (ledger_onPex env conn _ _)).errands
      · exact ReflTransGen.refl

end Metadata
end TypeBit.Session
