import TypeBit.Session.Moves

/-! Web-seed steps. A fetch works on one piece of the torrent at a time, so what it hands to the
verifier is a piece with blocks. -/

namespace TypeBit.Session
open Metainfo

section Fetches
variable {H : Type} (host : Host H) (env : Env) {sane : Prop}

theorem raised_handOver (piece totalBlocks : Nat) (s : TorrentSession) {u : TorrentSession}
    (same : u.pieces = s.pieces.setInFlight piece true ∧ u.verifying = s.verifying.insert piece totalBlocks) : Raised s u := by
  obtain ⟨pieces, verifying⟩ := same
  have flights : ∀ i, u.pieces.isInFlight i =
      (s.pieces.inFlight.get i || (decide (piece = i) && decide (piece < s.pieces.inFlight.len))) := by
    intro i
    rw [pieces]
    exact Bitfield.get_set s.pieces.inFlight piece i
  refine ⟨?_, fun i aloft => ?_, fun i tb found => ?_⟩
  · rw [pieces]
    exact Bitfield.len_set ..
  · have before : s.pieces.inFlight.get i = true := aloft
    rw [flights, before, Bool.true_or]
  · rw [verifying, OrdMap.get?_insert] at found
    split_ifs at found with own
    · refine .inr fun below => ?_
      rw [flights, decide_eq_true own, decide_eq_true (own ▸ below)]
      exact Bool.or_true _
    · exact .inl found

theorem Fetched.trans {s u r : TorrentSession} (first : Fetched sane s u) (second : Fetched sane u r) :
    Fetched sane s r := by
  refine ⟨?_, ?_, first.raised.trans second.raised, second.sound, ?_⟩
  · rw [second.ledger, first.ledger]
  · obtain ⟨early, pieces⟩ := first.pieces
    obtain ⟨late, pieces'⟩ := second.pieces
    exact ⟨late, by rw [pieces', pieces]⟩
  · intro sound i tb found
    have same : r.torrent = u.torrent := congrArg Ledger.torrent second.ledger
    rcases second.verifying sound i tb found with old | new
    · rcases first.verifying sound i tb old with older | ⟨t, info, torrent, known, blocks⟩
      · exact Or.inl older
      · exact Or.inr ⟨t, info, same.trans torrent, known, blocks⟩
    · exact Or.inr new

variable {w : World H}

theorem chores_of_fetched {f : TorrentSession → TorrentSession}
    (fetched : Fetched (WebSound w.sess) w.sess (f w.sess)) : Chores w (w.map f) :=
  Relation.ReflTransGen.single (.fetch fetched rfl rfl)

theorem fetched_of_same {s u : TorrentSession} (sound : sane → WebSound s)
    (ledger : u.ledger = { s.ledger with webseed := u.webseed }) (piece : u.webseed.piece = s.webseed.piece)
    (total : u.webseed.totalBlocks = s.webseed.totalBlocks) (fewer : u.webseed.inFlight ⊆ s.webseed.inFlight) :
    Fetched sane s u := by
  have pieces : u.pieces = s.pieces := congrArg Ledger.pieces ledger
  have verifying : u.verifying = s.verifying := congrArg Ledger.verifying ledger
  have pending : u.pendingVerify = s.pendingVerify := congrArg Ledger.pendingVerify ledger
  refine ⟨?_, ⟨s.pieces.inFlight, pieces⟩, raised_of_same (congrArg PieceTracker.inFlight pieces) verifying, fun sane => ⟨?_, ?_, ?_⟩, fun _ i tb found => Or.inl (verifying ▸ found)⟩
  · rw [ledger, pieces, verifying, pending]
    rfl
  · intro none
    have empty := (sound sane).idle (piece ▸ none)
    rw [empty] at fewer
    exact List.subset_nil.mp fewer
  · intro p holding
    obtain ⟨t, info, torrent, known, counted⟩ := (sound sane).piece p (piece ▸ holding)
    have same : u.torrent = s.torrent := congrArg Ledger.torrent ledger
    exact ⟨t, info, same.trans torrent, known, total.trans counted⟩
  · intro busy
    rw [total]
    apply (sound sane).blocks
    intro empty
    rw [empty] at fewer
    exact busy (List.subset_nil.mp fewer)

theorem fetched_abortWebseedPiece (s : TorrentSession) : Fetched sane s (abortWebseedPiece s) := by
  refine ⟨rfl, ⟨s.pieces.inFlight, rfl⟩, raised_of_same rfl rfl, fun _ => ⟨fun _ => rfl, ?_, ?_⟩, fun _ _ _ found => Or.inl found⟩
  · intro p holding
    cases holding
  · intro busy
    exact absurd rfl busy

variable {s : TorrentSession}

theorem fetched_finishWebseed {piece : Nat} (sound : sane → WebSound s)
    (holding : s.webseed.piece = some piece) (positive : sane → 0 < s.webseed.totalBlocks) :
    Fetched sane s (finishWebseed piece s) := by
  unfold finishWebseed
  split
  · rename_i landed
    have empty : s.webseed.inFlight = [] := List.isEmpty_iff.mp landed.1
    refine ⟨rfl, ⟨s.pieces.inFlight.set piece, rfl⟩, raised_handOver piece s.webseed.totalBlocks s ⟨rfl, rfl⟩, fun _ => ⟨fun _ => empty, ?_, fun busy => absurd empty busy⟩, ?_⟩
    · intro p other
      cases other
    · intro sane i tb found
      obtain ⟨t, info, torrent, known, counted⟩ := (sound sane).piece piece holding
      simp only [OrdMap.get?_insert] at found
      split_ifs at found with same
      · subst same
        exact Or.inr ⟨t, info, torrent, known, counted ▸ positive sane⟩
      · exact Or.inl found
  · exact fetched_of_same sound rfl rfl rfl (List.Subset.refl _)

theorem fetched_copyBlock (sound : sane → WebSound s) (block blen : Nat) (got : Result Unit) (body : Bytes) :
    Fetched sane s (copyBlock block blen got body s).2 ∧ (copyBlock block blen got body s).2.webseed.piece = s.webseed.piece ∧
      (copyBlock block blen got body s).2.webseed.totalBlocks = s.webseed.totalBlocks := by
  unfold copyBlock
  dsimp only
  split
  · exact ⟨fetched_of_same sound rfl rfl rfl (List.Subset.refl _), rfl, rfl⟩
  · exact ⟨fetched_of_same sound rfl rfl rfl (List.Subset.refl _), rfl, rfl⟩

theorem fetched_webseedApplyBlock (sound : sane → WebSound s)
    (positive : sane → 0 < s.webseed.totalBlocks) (seed block blen : Nat) (got : Result Unit) (body : Bytes)
    (now : Nat) : Fetched sane s (webseedApplyBlock seed block blen got body now s) := by
  unfold webseedApplyBlock
  split
  · exact fetched_of_same sound rfl rfl rfl (List.Subset.refl _)
  · rename_i piece holding
    obtain ⟨copied, samePiece, sameTotal⟩ := fetched_copyBlock sound block blen got body
    generalize copyBlock block blen got body s = r at copied samePiece sameTotal ⊢
    obtain ⟨ok, u⟩ := r
    dsimp only at copied samePiece sameTotal ⊢
    refine copied.trans ?_
    generalize u.webseed.seedFails.modify seed _ = fails
    have marked : Fetched sane u { u with webseed := { u.webseed with seedFails := fails } } :=
      fetched_of_same copied.sound rfl rfl rfl (List.Subset.refl _)
    split
    · have delayed : Fetched sane u { u with webseed := { u.webseed with
          seedFails := fails, retryAt := satAdd now u.cfg.webseed.backoffMs } } :=
        fetched_of_same copied.sound rfl rfl rfl (List.Subset.refl _)
      exact delayed.trans (fetched_abortWebseedPiece _)
    · exact marked.trans (fetched_finishWebseed marked.sound (samePiece.trans holding) (sameTotal ▸ positive))

theorem fetched_onRangeJobDone (sound : sane → WebSound s) (id : Nat) (result : Result Bytes)
    (now : Nat) : Fetched sane s (onRangeJobDone id result now s) := by
  unfold onRangeJobDone
  split
  · exact fetched_of_same sound rfl rfl rfl (List.Subset.refl _)
  · rename_i job found
    have busy : s.webseed.inFlight ≠ [] := by
      intro empty
      rw [empty] at found
      cases found
    dsimp only
    have landed : Fetched sane s { s with webseed := { s.webseed with inFlight := s.webseed.inFlight.erase job } } :=
      fetched_of_same sound rfl rfl rfl List.erase_subset
    exact landed.trans
      (fetched_webseedApplyBlock landed.sound (fun sane => (sound sane).blocks busy) _ _ _ _ _ _)

theorem pickWebseedPiece_known {t : Torrent} {p len : Nat}
    (picked : pickWebseedPiece s t = some (p, len)) : ∃ info, t.pieceInfo p = .ok info ∧ info.len = len := by
  unfold pickWebseedPiece at picked
  dsimp only at picked
  split_ifs at picked
  obtain ⟨q, _, chosen⟩ := List.exists_of_findSome?_eq_some picked
  split at chosen
  · cases chosen
  · split at chosen
    · rename_i abs info located known
      split at chosen
      · cases chosen
        exact ⟨info, known, rfl⟩
      · cases chosen
    · cases chosen

theorem fetched_beginWebseed (sound : sane → WebSound s) {t : Torrent}
    (torrent : s.torrent = some t) : Fetched sane s (beginWebseed env t s) := by
  unfold beginWebseed
  split
  · exact fetched_of_same sound rfl rfl rfl (List.Subset.refl _)
  · rename_i idle
    split
    · exact fetched_of_same sound rfl rfl rfl (List.Subset.refl _)
    · rename_i p len picked
      obtain ⟨info, known, rfl⟩ := pickWebseedPiece_known picked
      have none : s.webseed.piece = none := by
        cases held : s.webseed.piece with
        | none => rfl
        | some q => exact absurd (Or.inl (by rw [held]; rfl)) idle
      refine ⟨rfl, ⟨s.pieces.inFlight, rfl⟩, raised_of_same rfl rfl, fun sane => ⟨?_, ?_, ?_⟩, fun _ _ _ found => Or.inl found⟩
      · intro impossible
        cases impossible
      · intro q held
        cases held
        exact ⟨t, info, torrent, known, rfl⟩
      · exact fun busy => absurd ((sound sane).idle none) busy

theorem fetched_startJob (sound : sane → WebSound s) {piece : Nat}
    (holding : s.webseed.piece = some piece) (positive : 0 < s.webseed.totalBlocks) (job : WebSeedJob) :
    Fetched sane s { s with webseed := { s.webseed with
      inFlight := s.webseed.inFlight ++ [job], nextBlock := s.webseed.nextBlock + 1 } } := by
  refine ⟨rfl, ⟨s.pieces.inFlight, rfl⟩, raised_of_same rfl rfl, fun sane => ⟨?_, (sound sane).piece, fun _ => positive⟩,
    fun _ _ _ found => Or.inl found⟩
  intro none
  rw [holding] at none
  cases none

theorem fetched_fetchLoop (t : Torrent) (piece rounds : Nat) (sound : sane → WebSound w.sess)
    (holding : w.sess.webseed.piece = some piece) : Fetched sane w.sess (fetchLoop host env t piece rounds w).sess ∧
      (fetchLoop host env t piece rounds w).io.cache = w.io.cache ∧ (fetchLoop host env t piece rounds w).trace = w.trace := by
  induction rounds generalizing w with
  | zero => exact ⟨fetched_of_same sound rfl rfl rfl (List.Subset.refl _), rfl, rfl⟩
  | succ rounds ih =>
    rw [fetchLoop]
    dsimp only
    split
    · exact ⟨fetched_of_same sound rfl rfl rfl (List.Subset.refl _), rfl, rfl⟩
    · rename_i room
      have positive : 0 < w.sess.webseed.totalBlocks := by omega
      generalize pickSeed _ _ _ _ _ = picked
      obtain ⟨seed, cursor⟩ := picked
      dsimp only
      -- moving the cursor changes nothing the rest of the round depends on
      have moved : Fetched sane w.sess { w.sess with webseed := { w.sess.webseed with seedIdx := cursor } } :=
        fetched_of_same sound rfl rfl rfl (List.Subset.refl _)
      have holding' : (w.map (fun s => { s with webseed := { s.webseed with seedIdx := cursor } })).sess.webseed.piece =
        some piece := holding
      have positive' : 0 < (w.map (fun s => { s with webseed := { s.webseed with
        seedIdx := cursor } })).sess.webseed.totalBlocks := positive
      change Fetched sane w.sess (w.map (fun s => { s with webseed := { s.webseed with seedIdx := cursor } })).sess at moved
      have same : (w.map (fun s => { s with webseed := { s.webseed with seedIdx := cursor } })).io.cache = w.io.cache ∧
        (w.map (fun s => { s with webseed := { s.webseed with seedIdx := cursor } })).trace = w.trace := ⟨rfl, rfl⟩
      generalize w.map (fun s => { s with webseed := { s.webseed with seedIdx := cursor } }) = v
        at moved holding' positive' same ⊢
      cases seed with
      | none =>
        have delayed : Fetched sane v.sess { v.sess with webseed := { v.sess.webseed with
            retryAt := satAdd env.now v.sess.cfg.webseed.backoffMs } } :=
          fetched_of_same moved.sound rfl rfl rfl (List.Subset.refl _)
        exact ⟨(moved.trans delayed).trans (fetched_abortWebseedPiece _), same⟩
      | some seed =>
        dsimp only
        split
        · exact ⟨moved.trans (fetched_abortWebseedPiece v.sess), same⟩
        · rename_i url first last len chosen
          generalize (if v.sess.cfg.proxied then (0, v.io.host)
            else host.httpGetRangeAsync v.io.host url first last v.sess.cfg.webseed.timeoutMs) = started
          obtain ⟨job, h⟩ := started
          dsimp only
          split
          · have launched : Fetched sane v.sess { v.sess with webseed := { v.sess.webseed with
                inFlight := v.sess.webseed.inFlight ++ [⟨job, piece, w.sess.webseed.nextBlock, len, seed⟩]
                nextBlock := v.sess.webseed.nextBlock + 1 } } :=
              fetched_startJob moved.sound holding' positive' ⟨job, piece, w.sess.webseed.nextBlock, len, seed⟩
            have rest := ih (w := (v.setHost h).map (fun s => { s with webseed := { s.webseed with
                inFlight := s.webseed.inFlight ++ [⟨job, piece, w.sess.webseed.nextBlock, len, seed⟩]
                nextBlock := s.webseed.nextBlock + 1 } })) launched.sound holding'
            exact ⟨(moved.trans launched).trans rest.1, rest.2.1.trans same.1, rest.2.2.trans same.2⟩
          · refine ⟨moved.trans ?_, same⟩
            exact fetched_webseedApplyBlock moved.sound (fun _ => positive') seed w.sess.webseed.nextBlock len _ _ env.now

theorem fetched_driveWebseed (sound : sane → WebSound w.sess) :
    Fetched sane w.sess (driveWebseed host env w).sess ∧ (driveWebseed host env w).io.cache = w.io.cache ∧
      (driveWebseed host env w).trace = w.trace := by
  have idle : Fetched sane w.sess w.sess := fetched_of_same sound rfl rfl rfl (List.Subset.refl _)
  unfold driveWebseed
  split
  · exact ⟨idle, rfl, rfl⟩
  · rename_i t torrent
    split
    · exact ⟨idle, rfl, rfl⟩
    · dsimp only
      have begun : Fetched sane w.sess (w.map (beginWebseed env t)).sess := fetched_beginWebseed env sound torrent
      split
      · exact ⟨begun, rfl, rfl⟩
      · rename_i piece holding
        have looped := fetched_fetchLoop host env t piece (MAX_INFLIGHT + 1) begun.sound holding
        exact ⟨begun.trans looped.1, looped.2⟩

theorem chores_driveWebseed (w : World H) : Chores w (driveWebseed host env w) := by
  have sound : WebSound w.sess → WebSound w.sess := id
  obtain ⟨fetched, cache, traced⟩ := fetched_driveWebseed host env sound
  exact (Chore.fetch fetched (by rw [cache]) traced).chores

end Fetches
end TypeBit.Session
