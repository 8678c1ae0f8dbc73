import TypeBit.Session.Ledger

/-! A calm step at most releases requests: the books keep everything but who is asked for which block.
Peers that leave, cancels, timeouts and answered requests are calm. -/

namespace TypeBit.Session
open Metainfo Leech Wire PieceTracker

section Calm
variable {H : Type}

structure Calm (w v : World H) : Prop where
  ledger : v.sess.ledger = { w.sess.ledger with
    pieces := v.sess.pieces, burdens := burdensOf v.sess.peers
    requestedBy := v.sess.requestedBy, requestedAt := v.sess.requestedAt }
  released : Released w.sess.pieces v.sess.pieces
  trace : ∃ more, v.trace = w.trace ++ more ∧ ∀ e ∈ more, e.routine = true

theorem Calm.refl (w : World H) : Calm w w := ⟨rfl, Released.refl _, [], by simp, by simp⟩

theorem Calm.trans {w v u : World H} (first : Calm w v) (second : Calm v u) : Calm w u := by
  refine ⟨?_, first.released.trans second.released, ?_⟩
  · rw [second.ledger, first.ledger]
  obtain ⟨early, traced, routine⟩ := first.trace
  obtain ⟨late, traced', routine'⟩ := second.trace
  refine ⟨early ++ late, by rw [traced', traced, List.append_assoc], ?_⟩
  intro e member
  rcases List.mem_append.mp member with before | after
  · exact routine e before
  · exact routine' e after

theorem Calm.foldl {α : Type} {f : World H → α → World H} (each : ∀ w a, Calm w (f w a)) (l : List α)
    (w : World H) : Calm w (l.foldl f w) := by
  induction l generalizing w with
  | nil => exact Calm.refl w
  | cons a tail ih => exact (each w a).trans (ih (f w a))

theorem Calm.foldl_fst {α β : Type} {f : World H × β → α → World H × β} (each : ∀ acc a, Calm acc.1 (f acc a).1)
    (l : List α) (acc : World H × β) : Calm acc.1 (l.foldl f acc).1 := by
  induction l generalizing acc with
  | nil => exact Calm.refl acc.1
  | cons a tail ih => exact (each acc a).trans (ih (f acc a))

theorem calm_map {w : World H} {f : TorrentSession → TorrentSession}
    (ledger : (f w.sess).ledger = { w.sess.ledger with
      burdens := burdensOf (f w.sess).peers
      requestedBy := (f w.sess).requestedBy, requestedAt := (f w.sess).requestedAt }) : Calm w (w.map f) := by
  have pieces : (f w.sess).pieces = w.sess.pieces := congrArg Ledger.pieces ledger
  refine ⟨?_, ?_, [], by simp [World.map], by simp⟩
  · rw [show (w.map f).sess = f w.sess from rfl, ledger, pieces]
    rfl
  · rw [show (w.map f).sess = f w.sess from rfl, pieces]
    exact Released.refl _

theorem calm_mapPeer (w : World H) (conn : ConnId) (f : Peer → Peer) : Calm w (w.mapPeer conn f) := calm_map rfl

theorem calm_mapCache (w : World H) (f : DiskCache.Cache → DiskCache.Cache) : Calm w (w.mapCache f) :=
  ⟨rfl, Released.refl _, [], by simp [World.mapCache], by simp⟩

theorem calm_inflightDec (w : World H) : Calm w w.inflightDec := calm_mapCache w _

theorem Idle.calm {w v : World H} (same : Idle w v) : Calm w v := by
  have pieces : v.sess.pieces = w.sess.pieces := congrArg Ledger.pieces same.ledger
  refine ⟨?_, pieces ▸ Released.refl _, same.trace⟩
  have burdens : burdensOf v.sess.peers = burdensOf w.sess.peers := congrArg Ledger.burdens same.ledger
  have requestedBy : v.sess.requestedBy = w.sess.requestedBy := congrArg Ledger.requestedBy same.ledger
  have requestedAt : v.sess.requestedAt = w.sess.requestedAt := congrArg Ledger.requestedAt same.ledger
  rw [same.ledger, pieces, burdens, requestedBy, requestedAt]
  rfl

theorem calm_releaseBlock (w : World H) (k : BlockKey) : Calm w (w.map (fun s => s.releaseBlock k)) :=
  ⟨rfl, released_clearBlockRequested w.sess.pieces (ofLex k).1 (ofLex k).2
    (w.sess.blockCount (ofLex k).1), [], by simp [World.map], by simp⟩

theorem calm_releaseRequests (conn : ConnId) (w : World H) : Calm w (releaseRequests conn w) := by
  refine Calm.trans ?_ (Calm.foldl (fun w k => calm_releaseBlock w k) _ _)
  exact (Calm.foldl (fun w _ => calm_inflightDec w) _ w).trans (calm_map rfl)

end Calm

/-! ### Requests -/

section Requests
variable {H : Type} (env : Env)

theorem calm_cancelSkipped (w : World H) (k : BlockKey) : Calm w (cancelSkipped w k) := by
  unfold cancelSkipped
  split
  · exact Calm.refl w
  · refine Calm.trans ?_ (calm_releaseBlock _ k)
    have cancelled : ∀ (v : World H) (c : ConnId), Calm v (cancelRequester (ofLex k).1 (ofLex k).2 v c) :=
      fun v c => (calm_mapPeer v c _).trans (calm_inflightDec _)
    exact (calm_map rfl).trans (Calm.foldl cancelled _ _)

theorem calm_timeoutBlock (maxTimeouts : Nat) (acc : World H × List ConnId) (k : BlockKey) :
    Calm acc.1 (timeoutBlock maxTimeouts acc k).1 := by
  unfold timeoutBlock
  split
  · exact Calm.refl _
  · refine Calm.trans ?_ (calm_releaseBlock _ k)
    have timedOut : ∀ (acc : World H × List ConnId) (c : ConnId),
        Calm acc.1 (timeoutRequester (ofLex k).1 (ofLex k).2 maxTimeouts acc c).1 :=
      fun acc c => (calm_mapPeer acc.1 c _).trans (calm_inflightDec _)
    exact (Calm.foldl_fst timedOut _ acc).trans (calm_map rfl)

theorem calm_cancelPeerRequest (conn : ConnId) (index start : Nat) (w : World H) :
    Calm w (cancelPeerRequest conn index start w).2 := by
  unfold cancelPeerRequest
  dsimp only
  split
  · split
    · exact Calm.refl w
    · split
      · exact calm_mapPeer w conn _
      · exact calm_mapPeer w conn _
  · refine Calm.trans (Calm.trans (calm_inflightDec w) ?_) (calm_mapPeer _ conn _)
    split
    · exact (calm_map rfl).trans (calm_releaseBlock _ _)
    · exact calm_map rfl

theorem calm_resolveRequest (conn : ConnId) (index start len : Nat) (w : World H) (c : ConnId) :
    Calm w (resolveRequest conn index start len w c) := by
  unfold resolveRequest
  dsimp only
  split_ifs
  · exact (calm_mapPeer w c _).trans (calm_inflightDec _)
  · exact calm_inflightDec w

theorem calm_resolveBlock (conn : ConnId) (index start len totalBlocks : Nat) (w : World H) (b : Nat) :
    Calm w (resolveBlock conn index start len totalBlocks w b) := by
  unfold resolveBlock
  dsimp only
  have resolved := Calm.foldl (calm_resolveRequest conn index start len)
    ((w.sess.requestedBy.get? (blockKey index (b % 2 ^ 16))).getD []) w
  generalize ((w.sess.requestedBy.get? (blockKey index (b % 2 ^ 16))).getD []).foldl _ w = v at resolved ⊢
  refine resolved.trans ?_
  exact ⟨rfl, released_clearBlockRequested v.sess.pieces index (b % 2 ^ 16) totalBlocks, [],
    by simp [World.map], by simp⟩

theorem acceptPiece_eq (conn : ConnId) (index start : Nat) (data : Bytes) (pieceLen : Nat) (w : World H) :
    ∃ u, Calm w u ∧
      acceptPiece env conn index start data pieceLen w =
        storeBytes conn index start data pieceLen (u.emit (.supplied index start data)) :=
  ⟨_, (Calm.foldl (calm_resolveBlock _ _ _ _ _) _ w).trans (calm_mapPeer _ conn _), rfl⟩

end Requests
end TypeBit.Session
