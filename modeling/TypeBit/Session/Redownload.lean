import TypeBit.Session.Sound

/-! What a verification outcome leaves of a piece. Unless the write to disk fails, the piece is held
or free to be requested again; after a failed write it stays as it was before the verdict. -/

namespace TypeBit.Session
open Metainfo Leech Wire

/-- A peer that has the piece can be asked for it: it is a candidate for every such peer, the one
picked when it is the only candidate, and it has a free block. -/
structure Pickable (s : TorrentSession) (piece : Nat) : Prop where
  candidate : ∀ (peerHave : Bitfield) (peerHasAll : Bool) (priorities : List Int) (opts : Picker.PickOptions),
    (peerHasAll = true ∨ peerHave.get piece = true) → 0 < priorities.getD piece 1 →
    Picker.eligible s.pieces peerHave peerHasAll priorities opts piece = true
  picked : ∀ (utilities : List Int) (availability : List Nat) (peerHave : Bitfield) (priorities : List Int)
    (opts : Picker.PickOptions), (∀ j, peerHave.get j = true ↔ j = piece) → 0 < priorities.getD piece 1 →
    Picker.pickPiece s.pieces utilities availability peerHave false priorities opts = some piece
  block : ∃ t info b, s.torrent = some t ∧ t.pieceInfo piece = .ok info ∧
    Picker.pickBlock s.pieces piece (blockCountFor info.len) true = some b

/-- A piece that can be downloaded again. -/
structure Redownloadable (s : TorrentSession) (piece : Nat) : Prop where
  grounded : s.pieces.isInFlight piece = false
  uncounted : (s.tracker piece).total = 0
  pickable : Pickable s piece

/-- A piece is held or can be downloaded again. -/
def Settled (s : TorrentSession) (piece : Nat) : Prop := s.pieces.isHave piece = true ∨ Redownloadable s piece

section Pieces
variable {s : TorrentSession} {piece : Nat}

theorem Pickable.below (pickable : Pickable s piece) : piece < s.pieces.pieceCount := by
  have only : ∀ j, ((Bitfield.new (piece + 1)).set piece).get j = true ↔ j = piece := by
    intro j
    rw [Bitfield.get_set, Bitfield.get_new, Bool.false_or, Bool.and_eq_true, decide_eq_true_eq, decide_eq_true_eq]
    exact ⟨fun both => both.1.symm, fun same => ⟨same.symm, Nat.lt_succ_self piece⟩⟩
  have taken := pickable.picked [] [] _ [] ⟨false, false⟩ only (by simp)
  exact (Picker.pickPiece_eq_some taken).1

theorem redownloadable_of_fresh (known : Known s piece) (below : piece < s.pieces.pieceCount)
    (lacking : s.pieces.isHave piece = false) (fresh : s.pieces.Fresh piece)
    (uncounted : s.pieceBytes.get? piece = none) : Redownloadable s piece := by
  have candidate : ∀ (peerHave : Bitfield) (peerHasAll : Bool) (priorities : List Int) (opts : Picker.PickOptions),
      (peerHasAll = true ∨ peerHave.get piece = true) → 0 < priorities.getD piece 1 →
      Picker.eligible s.pieces peerHave peerHasAll priorities opts piece = true := by
    intro peerHave peerHasAll priorities opts has wanted
    have owned : (peerHasAll || peerHave.get piece) = true := by simpa using has
    simp only [Picker.eligible, lacking, fresh.grounded, owned, decide_eq_true wanted, Bool.not_false, Bool.or_true,
      Bool.and_true]
  refine ⟨fresh.grounded, ?_, candidate, ?_, ?_⟩
  · rw [TorrentSession.tracker, uncounted]
    rfl
  · intro utilities availability peerHave priorities opts only wanted
    refine Picker.pickPiece_unique below (candidate _ _ _ _ (Or.inr ((only piece).mpr rfl)) wanted) ?_
    intro p eligible
    simp only [Picker.eligible, Bool.false_or, Bool.and_eq_true] at eligible
    exact (only p).mp eligible.1.2
  · obtain ⟨t, info, torrent, placed, blocks⟩ := known
    obtain ⟨b, free⟩ := Picker.pickBlock_fresh lacking fresh blocks true
    exact ⟨t, info, b, torrent, placed, free⟩

theorem settled_congr {u : TorrentSession} (pieces : u.pieces = s.pieces) (pieceBytes : u.pieceBytes = s.pieceBytes)
    (torrent : u.torrent = s.torrent) : Settled u piece ↔ Settled s piece := by
  have same : ∀ {r r' : TorrentSession}, r'.pieces = r.pieces → r'.pieceBytes = r.pieceBytes →
      r'.torrent = r.torrent → Settled r piece → Settled r' piece := by
    rintro r r' pieces pieceBytes torrent (held | again)
    · exact Or.inl (pieces ▸ held)
    · refine Or.inr ⟨pieces ▸ again.grounded, ?_, ?_, ?_, ?_⟩
      · rw [TorrentSession.tracker, pieceBytes]
        exact again.uncounted
      · rw [pieces]
        exact again.pickable.candidate
      · rw [pieces]
        exact again.pickable.picked
      · rw [pieces, torrent]
        exact again.pickable.block
  exact ⟨same pieces.symm pieceBytes.symm torrent.symm, same pieces pieceBytes torrent⟩

end Pieces

section Verdict
variable {H : Type} (host : Host H) (env : Env) {w : World H} {piece : Nat}

/-- The write of a verified piece goes through. -/
def Written (host : Host H) (piece : Nat) (data : Bytes) (w : World H) : Prop :=
  ∃ t abs, w.sess.torrent = some t ∧ t.pieceAbsOffset piece = .ok abs ∧ (writeAbs host abs data w).1 = .ok ()

theorem sess_writeAbs (abs : Nat) (data : Bytes) (w : World H) : (writeAbs host abs data w).2.sess = w.sess := by
  unfold writeAbs
  split
  · rfl
  · split
    · rfl
    · split <;> rfl

theorem written_congr {u : World H} (torrent : u.sess.torrent = w.sess.torrent) (files : u.sess.files = w.sess.files)
    (io : u.io = w.io) (data : Bytes) : Written host piece data u ↔ Written host piece data w := by
  have same : ∀ abs, (writeAbs host abs data u).1 = (writeAbs host abs data w).1 := by
    intro abs
    unfold writeAbs
    rw [torrent, files, io]
    split
    · rfl
    · split
      · rfl
      · split <;> rfl
  simp only [Written, torrent, same]

theorem completePieceVerified_cases {t : Torrent} (torrent : w.sess.torrent = some t) (piece : Nat) (data : Bytes) :
    (Written host piece data w ∧ ∃ v, v.sess = settlePiece piece w.sess ∧
        (completePieceVerified host env piece data t w).2 = announceCompletion env v) ∨
      (¬ Written host piece data w ∧ (completePieceVerified host env piece data t w).2.sess = w.sess) := by
  unfold completePieceVerified
  split
  · rename_i e failed
    refine Or.inr ⟨?_, rfl⟩
    rintro ⟨t', abs, torrent', located, _⟩
    rw [torrent] at torrent'
    cases torrent'
    rw [failed] at located
    cases located
  · rename_i abs located
    have unchanged := sess_writeAbs host abs data w
    split
    · rename_i e v failed
      rw [failed] at unchanged
      refine Or.inr ⟨?_, unchanged⟩
      rintro ⟨t', abs', torrent', located', done⟩
      rw [torrent] at torrent'
      cases torrent'
      rw [located] at located'
      cases located'
      rw [failed] at done
      cases done
    · rename_i v done
      rw [done] at unchanged
      refine Or.inl ⟨⟨t, abs, torrent, located, by rw [done]⟩, _, ?_, rfl⟩
      exact congrArg (settlePiece piece) unchanged

theorem completePieceFailed_fresh (piece totalBlocks : Nat) (w : World H) :
    let v := completePieceFailed env piece totalBlocks w
    v.sess.torrent = w.sess.torrent ∧ v.sess.pieces.pieceCount = w.sess.pieces.pieceCount ∧
      v.sess.pieces.haveBits = w.sess.pieces.haveBits ∧ v.sess.pieces.Fresh piece ∧
      v.sess.pieceBytes.get? piece = none := by
  have punished := (Partings.calm (partings_punishCorruptSuppliers env piece totalBlocks
    ((w.map (forgetPiece piece)).emit (.cleared piece)))).trans (idle_emit _ (e := .hashFailure piece) rfl).calm
  refine ⟨congrArg Core.torrent punished.frame.core, congrArg Core.pieceCount punished.frame.core,
    congrArg Core.haveBits punished.frame.core, PieceTracker.fresh_after_reset w.sess.pieces piece punished.released, ?_⟩
  have bytes := congrArg Core.pieceBytes punished.frame.core
  exact (congrArg (fun m => OrdMap.get? m piece) bytes).trans (OrdMap.get?_erase_self _ _)

theorem settled_failed_iff (known : Known w.sess piece) (totalBlocks : Nat) :
    Settled (completePieceFailed env piece totalBlocks w).sess piece ↔
      w.sess.pieces.isHave piece = true ∨ piece < w.sess.pieces.pieceCount := by
  obtain ⟨torrent, count, haves, fresh, bytes⟩ := completePieceFailed_fresh env piece totalBlocks w
  have held : (completePieceFailed env piece totalBlocks w).sess.pieces.isHave piece = w.sess.pieces.isHave piece :=
    congrArg (fun b => Bitfield.get b piece) haves
  constructor
  · rintro (held' | again)
    · exact Or.inl (held ▸ held')
    · exact Or.inr (count ▸ again.pickable.below)
  · intro cases
    by_cases present : w.sess.pieces.isHave piece = true
    · exact Or.inl (held.trans present)
    · have below := cases.resolve_left present
      refine Or.inr (redownloadable_of_fresh ?_ (count ▸ below) (held.trans (by simpa using present)) fresh bytes)
      unfold Known at known ⊢
      rw [torrent]
      exact known

theorem settled_written_iff (sound : Sound w.sess) {v : World H} (settled : v.sess = settlePiece piece w.sess) :
    Settled (announceCompletion env v).sess piece ↔
      w.sess.pieces.isHave piece = true ∨ piece < w.sess.pieces.pieceCount := by
  have frame := frame_announceCompletion env v
  have haves : (announceCompletion env v).sess.pieces.haveBits = w.sess.pieces.haveBits.set piece :=
    (congrArg Core.haveBits frame.core).trans (by rw [settled]; rfl)
  have count : (announceCompletion env v).sess.pieces.pieceCount = w.sess.pieces.pieceCount :=
    (congrArg Core.pieceCount frame.core).trans (by rw [settled]; rfl)
  have held : (announceCompletion env v).sess.pieces.isHave piece = true ↔
      w.sess.pieces.isHave piece = true ∨ piece < w.sess.pieces.pieceCount := by
    rw [PieceTracker.isHave, haves, Bitfield.get_set, Bool.or_eq_true, Bool.and_eq_true, decide_eq_true_eq,
      decide_eq_true_eq, sound.shape, PieceTracker.isHave]
    simp
  constructor
  · rintro (held' | again)
    · exact held.mp held'
    · exact Or.inr (count ▸ again.pickable.below)
  · exact fun cases => Or.inl (held.mpr cases)

theorem onVerified_of_verifying {totalBlocks : Nat} (verifying : w.sess.verifying.get? piece = some totalBlocks)
    {t : Torrent} (torrent : w.sess.torrent = some t) (ok : Bool) (data : Bytes) :
    ∃ u : World H, u = w.map (fun s => { s with verifying := s.verifying.erase piece }) ∧
      (onVerified host env piece ok data w).2 =
        if ok then (completePieceVerified host env piece data t u).2 else completePieceFailed env piece totalBlocks u := by
  refine ⟨_, rfl, ?_⟩
  have same : (w.map (fun s => { s with verifying := s.verifying.erase piece })).sess.torrent = some t := torrent
  simp only [onVerified, verifying, same]
  split_ifs <;> rfl

variable {digests : Digests} {host}

/-- Exactly when a verification outcome leaves a piece under verification held or free again. -/
theorem settled_after_verdict_iff (reachable : Reachable digests host w) {totalBlocks : Nat}
    (verifying : w.sess.verifying.get? piece = some totalBlocks) (ok : Bool) (data : Bytes) :
    Settled (onVerified host env piece ok data w).2.sess piece ↔
      w.sess.pieces.isHave piece = true ∨
        (piece < w.sess.pieces.pieceCount ∧ (ok = false ∨ Written host piece data w)) ∨
        Redownloadable w.sess piece := by
  have sound := reachable.sound
  have known := sound.verifying piece totalBlocks verifying
  have again : Redownloadable w.sess piece → piece < w.sess.pieces.pieceCount := fun free => free.pickable.below
  obtain ⟨t, info, torrent, placed, blocks⟩ := known
  obtain ⟨u, taken, verdict⟩ := onVerified_of_verifying host env verifying torrent ok data
  have sound' : Sound u.sess := taken ▸ sound_atom (.frame (frame_eraseVerifying piece w)) sound
  have torrent' : u.sess.torrent = some t := taken ▸ torrent
  have pieces : u.sess.pieces = w.sess.pieces := taken ▸ rfl
  have writes : Written host piece data u ↔ Written host piece data w :=
    written_congr host (taken ▸ rfl) (taken ▸ rfl) (taken ▸ rfl) data
  have either : u.sess.pieces.isHave piece = true ∨ piece < u.sess.pieces.pieceCount ↔
      w.sess.pieces.isHave piece = true ∨ piece < w.sess.pieces.pieceCount ∨ Redownloadable w.sess piece := by
    rw [pieces]
    constructor
    · rintro (held | below)
      · exact Or.inl held
      · exact Or.inr (Or.inl below)
    · rintro (held | below | free)
      · exact Or.inl held
      · exact Or.inr below
      · exact Or.inr (again free)
  rw [verdict]
  cases ok with
  | false =>
    refine (settled_failed_iff env ⟨t, info, torrent', placed, blocks⟩ totalBlocks).trans (either.trans ?_)
    simp
  | true =>
    rcases completePieceVerified_cases host env torrent' piece data with
      ⟨written, v, settled, result⟩ | ⟨lost, result⟩
    · rw [if_pos rfl, result]
      refine (settled_written_iff env sound' settled).trans (either.trans ?_)
      simp [writes.mp written]
    · rw [if_pos rfl, result]
      refine (settled_congr pieces (taken ▸ rfl) (taken ▸ rfl)).trans ?_
      simp [Settled, mt writes.mpr lost]

def Sample.verifying : World Unit :=
  run Sample.digests Sample.host ((Sample.env, .start) :: Sample.arrival) Sample.fresh

def Sample.stopped : World Unit :=
  run Sample.digests Sample.host (((Sample.env, .start) :: Sample.arrival) ++ [(Sample.env, .stop)]) Sample.fresh

theorem settled_after_verdict_written :
    Settled (onVerified Sample.host Sample.env 0 true [1, 2, 6] Sample.verifying).2.sess 0 := by
  have verifying : Sample.verifying.sess.verifying.get? 0 = some 1 := by decide
  refine (settled_after_verdict_iff Sample.env (Sample.reachable_fresh _) verifying true _).mpr ?_
  exact Or.inr (Or.inl ⟨by decide, Or.inr
    ⟨Sample.torrent, 0, by decide, by decide, by decide⟩⟩)

/-- A verdict that arrives after the session was stopped wedges the piece: the write fails, the piece
is not held and stays in flight with all its bytes counted. -/
theorem verdict_after_stop_wedges :
    Reachable Sample.digests Sample.host Sample.stopped ∧ Sample.stopped.sess.verifying.get? 0 = some 1 ∧
      (onVerified Sample.host Sample.env 0 true [1, 2, 6] Sample.stopped).1 = .error .notFound ∧
      ¬ Settled (onVerified Sample.host Sample.env 0 true [1, 2, 6] Sample.stopped).2.sess 0 := by
  refine ⟨Sample.reachable_fresh _, by decide, by decide, ?_⟩
  rintro (held | again)
  · exact absurd held (by decide)
  · exact absurd again.grounded (by decide)

end Verdict
end TypeBit.Session
