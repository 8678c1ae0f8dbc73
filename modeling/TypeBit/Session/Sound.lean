import TypeBit.Session.Frame

/-! The invariant of a session, kept by every move: metadata is gone once the torrent is there, and
only pieces of the torrent are fetched or verified. Verified pieces stay verified. -/

namespace TypeBit.Session
open Metainfo Leech Wire PieceTracker

/-! ### Storing a window -/

section Store
variable {H : Type} (conn : ConnId) (index start : Nat) (data : Bytes) (len : Nat) (w : World H)

def TorrentSession.tracker (s : TorrentSession) (piece : Nat) : PieceBytes :=
  (s.pieceBytes.get? piece).getD PieceBytes.new

def TorrentSession.buffered (s : TorrentSession) (index start : Nat) (data : Bytes) (len : Nat) : Bytes :=
  fillBuffer start data ((s.tracker index).newRanges start (start + data.length))
    ((s.assembling.get? index).getD (List.replicate len 0))

theorem fields_markCovered (totalBlocks : Nat) (pb : PieceBytes) (t : PieceTracker) (b : Nat) :
    (markCovered index len totalBlocks pb t b).haveBits = t.haveBits ∧
      (markCovered index len totalBlocks pb t b).pieceCount = t.pieceCount := by
  unfold markCovered
  split_ifs
  · exact ⟨haveBits_markBlockReceived _ _ _ _, pieceCount_markBlockReceived _ _ _ _⟩
  · exact ⟨rfl, rfl⟩

theorem fields_markAllCovered (totalBlocks : Nat) (pb : PieceBytes) (blocks : List Nat) (t : PieceTracker) :
    (blocks.foldl (markCovered index len totalBlocks pb) t).haveBits = t.haveBits ∧
      (blocks.foldl (markCovered index len totalBlocks pb) t).pieceCount = t.pieceCount := by
  induction blocks generalizing t with
  | nil => exact ⟨rfl, rfl⟩
  | cons b tail ih =>
    obtain ⟨haves, count⟩ := fields_markCovered index len totalBlocks pb t b
    obtain ⟨haves', count'⟩ := ih (markCovered index len totalBlocks pb t b)
    exact ⟨haves'.trans haves, count'.trans count⟩

structure Stored (index start : Nat) (data : Bytes) (w v : World H) : Prop where
  torrent : v.sess.torrent = w.sess.torrent
  metadata : v.sess.metadata = w.sess.metadata
  webseed : v.sess.webseed = w.sess.webseed
  haves : v.sess.pieces.haveBits = w.sess.pieces.haveBits
  count : v.sess.pieces.pieceCount = w.sess.pieces.pieceCount
  pieceBytes : v.sess.pieceBytes =
    w.sess.pieceBytes.insert index ((w.sess.tracker index).add start (start + data.length)).1

structure Discarded (w v : World H) : Prop where
  assembling : v.sess.assembling = w.sess.assembling
  verifying : v.sess.verifying = w.sess.verifying
  pending : v.sess.pendingVerify = w.sess.pendingVerify
  trace : v.trace = w.trace

structure Buffered (index : Nat) (buf : Bytes) (w v : World H) : Prop where
  assembling : v.sess.assembling = w.sess.assembling.insert index buf
  verifying : v.sess.verifying = w.sess.verifying
  pending : v.sess.pendingVerify = w.sess.pendingVerify
  trace : v.trace = w.trace

structure HandedOver (index totalBlocks : Nat) (buf : Bytes) (w v : World H) : Prop where
  assembling : v.sess.assembling = (w.sess.assembling.insert index buf).erase index
  verifying : v.sess.verifying = w.sess.verifying.insert index totalBlocks
  pending : v.sess.pendingVerify = w.sess.pendingVerify.insert index buf
  trace : v.trace = w.trace ++ [.assembled index buf]

theorem stored_storeBytes : Stored index start data w (storeBytes conn index start data len w) := by
  have marked := fields_markAllCovered index len (blockCountFor len)
    ((w.sess.tracker index).add start (start + data.length)).1 (overlapped start data.length) w.sess.pieces
  unfold storeBytes
  dsimp only
  split_ifs
  · exact ⟨rfl, rfl, rfl, rfl, rfl, rfl⟩
  · unfold handOver
    split
    · exact ⟨rfl, rfl, rfl, marked.1, marked.2, rfl⟩
    · exact ⟨rfl, rfl, rfl, marked.1, marked.2, rfl⟩
  · exact ⟨rfl, rfl, rfl, marked.1, marked.2, rfl⟩

theorem storeBytes_cases :
    (((w.sess.tracker index).add start (start + data.length)).2 = 0 ∧
        Discarded w (storeBytes conn index start data len w)) ∨
      (((w.sess.tracker index).add start (start + data.length)).2 ≠ 0 ∧
        ((w.sess.tracker index).add start (start + data.length)).1.total < len ∧
        Buffered index (w.sess.buffered index start data len) w (storeBytes conn index start data len w)) ∨
      (((w.sess.tracker index).add start (start + data.length)).2 ≠ 0 ∧
        len ≤ ((w.sess.tracker index).add start (start + data.length)).1.total ∧
        HandedOver index (blockCountFor len) (w.sess.buffered index start data len) w
          (storeBytes conn index start data len w)) := by
  unfold storeBytes
  dsimp only
  split_ifs with duplicate complete
  · exact Or.inl ⟨duplicate, ⟨rfl, rfl, rfl, rfl⟩⟩
  · refine Or.inr (Or.inr ⟨duplicate, complete, ?_⟩)
    unfold handOver
    simp only [World.map, OrdMap.get?_insert_self]
    exact ⟨rfl, rfl, rfl, rfl⟩
  · exact Or.inr (Or.inl ⟨duplicate, Nat.lt_of_not_le complete, ⟨rfl, rfl, rfl, rfl⟩⟩)

end Store

/-! ### The invariant -/

structure Sound (s : TorrentSession) : Prop where
  metadata : s.torrent.isSome → s.metadata = none
  shape : s.pieces.haveBits.len = s.pieces.pieceCount
  web : WebSound s
  verifying : ∀ i tb, s.verifying.get? i = some tb → Known s i

theorem Sound.congr {s u : TorrentSession} (sound : Sound s) (torrent : u.torrent = s.torrent)
    (metadata : s.metadata = none → u.metadata = none) (shape : u.pieces.haveBits.len = u.pieces.pieceCount)
    (webseed : u.webseed = s.webseed)
    (verifying : ∀ i tb, u.verifying.get? i = some tb → s.verifying.get? i = some tb ∨ Known s i) : Sound u := by
  refine ⟨fun arrived => metadata (sound.metadata (torrent ▸ arrived)), shape, ?_, ?_⟩
  · refine ⟨?_, ?_, ?_⟩
    · rw [webseed]
      exact sound.web.idle
    · rw [webseed, torrent]
      exact sound.web.piece
    · rw [webseed]
      exact sound.web.blocks
  · intro i tb found
    have known : Known s i := (verifying i tb found).elim (sound.verifying i tb) id
    unfold Known
    rw [torrent]
    exact known

theorem Sound.absent {s : TorrentSession} (sound : Sound s) (absent : s.torrent = none ∨ s.metadata ≠ none) :
    s.torrent = none := by
  rcases absent with absent | fetching
  · exact absent
  · cases arrived : s.torrent with
    | none => rfl
    | some t => exact absurd (sound.metadata (by rw [arrived]; rfl)) fetching

theorem sound_atom {H : Type} {w v : World H} (atom : Atom w v) (sound : Sound w.sess) : Sound v.sess := by
  cases atom with
  | frame kept =>
    have torrent := congrArg Core.torrent kept.core
    have webseed := congrArg Core.webseed kept.core
    have haves : v.sess.pieces.haveBits = w.sess.pieces.haveBits := congrArg Core.haveBits kept.core
    have count : v.sess.pieces.pieceCount = w.sess.pieces.pieceCount := congrArg Core.pieceCount kept.core
    refine sound.congr torrent kept.metadata ?_ webseed (fun i tb found => Or.inl (kept.verifying i tb found))
    rw [haves, count, sound.shape]
  | @store conn index start data t info torrent known filled inside blocks =>
    have stored := stored_storeBytes conn index start data info.len (w.emit (.supplied index start data))
    refine sound.congr stored.torrent (fun none => stored.metadata.trans none) ?_ stored.webseed ?_
    · rw [stored.haves, stored.count]
      exact sound.shape
    · intro i tb found
      rcases storeBytes_cases conn index start data info.len (w.emit (.supplied index start data)) with
        ⟨_, same⟩ | ⟨_, _, same⟩ | ⟨_, _, handed⟩
      · exact Or.inl (same.verifying ▸ found)
      · exact Or.inl (same.verifying ▸ found)
      · rw [handed.verifying, OrdMap.get?_insert] at found
        split_ifs at found with own
        · subst own
          exact Or.inr ⟨t, info, torrent, known, blocks⟩
        · exact Or.inl found
  | settle index =>
    refine sound.congr rfl id ?_ rfl (fun _ _ found => Or.inl found)
    exact (Bitfield.len_set _ _).trans sound.shape
  | forget index => exact sound.congr rfl id sound.shape rfl (fun _ _ found => Or.inl found)
  | fetch fetched traced =>
    have torrent : v.sess.torrent = w.sess.torrent := congrArg Ledger.torrent fetched.ledger
    have fetching : v.sess.metadata.isSome = w.sess.metadata.isSome := congrArg Ledger.fetching fetched.ledger
    obtain ⟨flights, pieces⟩ := fetched.pieces
    refine ⟨fun arrived => ?_, ?_, fetched.sound sound.web, ?_⟩
    · rw [sound.metadata (torrent ▸ arrived)] at fetching
      exact Option.isNone_iff_eq_none.mp (by simpa using fetching)
    · rw [pieces]
      exact sound.shape
    · intro i tb found
      rcases fetched.verifying sound.web i tb found with old | new
      · have known := sound.verifying i tb old
        unfold Known at known ⊢
        rw [torrent]
        exact known
      · exact new
  | install t absent installed traced =>
    have none := sound.absent absent
    have idle : w.sess.webseed.piece = Option.none := by
      cases holding : w.sess.webseed.piece with
      | none => rfl
      | some p =>
        obtain ⟨t', info, torrent, _⟩ := sound.web.piece p holding
        rw [none] at torrent
        cases torrent
    have empty := sound.web.idle idle
    refine ⟨fun _ => installed.metadata, by rw [installed.pieces]; rfl, ⟨?_, ?_, ?_⟩, ?_⟩
    · intro _
      rw [installed.webseed, empty]
    · intro p holding
      rw [installed.webseed, idle] at holding
      cases holding
    · intro busy
      rw [installed.webseed, empty] at busy
      exact absurd rfl busy
    · intro i tb found
      rw [installed.verifying] at found
      obtain ⟨t', info, torrent, _⟩ := sound.verifying i tb found
      rw [none] at torrent
      cases torrent

theorem kept_applySavedState (haveBytes priorities : Bytes) (up down : Nat) (reputation : Option ReputationStore)
    (now : Nat) (s : TorrentSession) :
    ∃ bits : Bitfield, (bits = s.pieces.haveBits ∨ Bitfield.fromBytes haveBytes s.pieces.pieceCount = .ok bits) ∧
      (applySavedState haveBytes priorities up down reputation now s).2.kept =
        { s.kept with pieces := { s.pieces with haveBits := bits } } := by
  unfold applySavedState
  split
  · exact ⟨s.pieces.haveBits, Or.inl rfl, rfl⟩
  · rename_i pieces loaded
    obtain ⟨bits, parsed, updated⟩ := bind_eq_ok.mp loaded
    cases updated
    refine ⟨bits, Or.inr parsed, ?_⟩
    dsimp only
    split
    · rfl
    · rename_i u selected
      have chosen : u.kept = { s.kept with pieces := { s.pieces with haveBits := bits } } := by
        split_ifs at selected
        · cases selected
          rfl
        · split at selected
          · cases selected
          · cases selected
            exact kept_recomputePriorities _
      refine (kept_refreshCompletion _).trans (Eq.trans ?_ chosen)
      cases reputation with
      | none => rfl
      | some r => rfl

theorem sound_applySavedState {s : TorrentSession} (sound : Sound s) (haveBytes priorities : Bytes) (up down : Nat)
    (reputation : Option ReputationStore) (now : Nat) :
    Sound (applySavedState haveBytes priorities up down reputation now s).2 := by
  obtain ⟨bits, bounded, kept⟩ := kept_applySavedState haveBytes priorities up down reputation now s
  generalize (applySavedState haveBytes priorities up down reputation now s).2 = u at kept ⊢
  have same : u.pieces = { s.pieces with haveBits := bits } := congrArg Kept.pieces kept
  have metadata : u.metadata = s.metadata := congrArg Kept.metadata kept
  have verifying : u.verifying = s.verifying := congrArg Kept.verifying kept
  refine sound.congr (congrArg Kept.torrent kept) metadata.trans ?_ (congrArg Kept.webseed kept) ?_
  · rw [same]
    rcases bounded with rfl | loaded
    · exact sound.shape
    · exact Bitfield.len_fromBytes loaded
  · exact fun i tb found => Or.inl (verifying ▸ found)

theorem sound_initial {s : TorrentSession} (initial : Initial s) : Sound s := by
  induction initial with
  | torrent t cfg now =>
    refine ⟨fun _ => rfl, rfl, ⟨fun _ => rfl, ?_, fun busy => absurd rfl busy⟩, ?_⟩
    · intro p holding
      cases holding
    · intro i tb found
      cases found
  | magnet ih webSeeds cfg now =>
    refine ⟨?_, rfl, ⟨fun _ => rfl, ?_, fun busy => absurd rfl busy⟩, ?_⟩
    · intro arrived
      cases arrived
    · intro p holding
      cases holding
    · intro i tb found
      cases found
  | restored fresh haveBytes priorities up down reputation now sound =>
    exact sound_applySavedState sound haveBytes priorities up down reputation now

section Reachable
variable {H : Type} {digests : Digests} {host : Host H} {w : World H}

theorem Reachable.sound (reachable : Reachable digests host w) : Sound w.sess := by
  obtain ⟨s, io, events, initial, rfl⟩ := reachable
  exact run_of_atoms (P := fun w => Sound w.sess) sound_atom digests host events (sound_initial initial)

/-! ### Verified pieces stay verified -/

structure KeepsHaves (s u : TorrentSession) : Prop where
  bits : ∀ i, s.pieces.isHave i = true → u.pieces.isHave i = true
  count : s.pieces.haveCount ≤ u.pieces.haveCount

theorem KeepsHaves.of_eq {s u : TorrentSession} (same : u.pieces.haveBits = s.pieces.haveBits) : KeepsHaves s u := by
  refine ⟨fun i held => ?_, ?_⟩
  · rw [isHave, same]
    exact held
  · rw [haveCount, haveCount, same]

theorem KeepsHaves.trans {s u r : TorrentSession} (first : KeepsHaves s u) (second : KeepsHaves u r) : KeepsHaves s r :=
  ⟨fun i held => second.bits i (first.bits i held), first.count.trans second.count⟩

theorem keepsHaves_atom {v : World H} (atom : Atom w v) (sound : Sound w.sess) (arrived : w.sess.torrent.isSome) :
    KeepsHaves w.sess v.sess ∧ v.sess.torrent.isSome := by
  cases atom with
  | frame kept =>
    have torrent : v.sess.torrent = w.sess.torrent := congrArg Core.torrent kept.core
    exact ⟨.of_eq (congrArg Core.haveBits kept.core), torrent ▸ arrived⟩
  | @store conn index start data t info torrent known filled inside blocks =>
    have stored := stored_storeBytes conn index start data info.len (w.emit (.supplied index start data))
    exact ⟨.of_eq stored.haves, stored.torrent ▸ arrived⟩
  | settle index =>
    refine ⟨⟨fun i held => ?_, Bitfield.count_le_set _ _⟩, arrived⟩
    show (w.sess.pieces.haveBits.set index).get i = true
    rw [Bitfield.get_set, show w.sess.pieces.haveBits.get i = true from held, Bool.true_or]
  | forget index => exact ⟨.of_eq rfl, arrived⟩
  | fetch fetched traced =>
    have torrent : v.sess.torrent = w.sess.torrent := congrArg Ledger.torrent fetched.ledger
    obtain ⟨flights, pieces⟩ := fetched.pieces
    exact ⟨.of_eq (by rw [pieces]), torrent ▸ arrived⟩
  | install t absent installed traced =>
    rw [sound.absent absent] at arrived
    cases arrived

/-- In a run of a session that has its metadata no bit of `have` is ever cleared. -/
theorem verified_stay_verified (reachable : Reachable digests host w) (arrived : w.sess.torrent.isSome)
    (events : List (Env × Event H)) :
    (∀ i, w.sess.pieces.isHave i = true → (run digests host events w).sess.pieces.isHave i = true) ∧
      w.sess.pieces.haveCount ≤ (run digests host events w).sess.pieces.haveCount := by
  have kept : KeepsHaves w.sess (run digests host events w).sess := by
    have each : ∀ {u v : World H}, Atom u v → Sound u.sess ∧ u.sess.torrent.isSome ∧ KeepsHaves w.sess u.sess →
        Sound v.sess ∧ v.sess.torrent.isSome ∧ KeepsHaves w.sess v.sess := by
      rintro u v atom ⟨sound, some, so_far⟩
      obtain ⟨step, still⟩ := keepsHaves_atom atom sound some
      exact ⟨sound_atom atom sound, still, so_far.trans step⟩
    exact (run_of_atoms each digests host events ⟨reachable.sound, arrived, .of_eq rfl⟩).2.2
  exact ⟨kept.bits, kept.count⟩

/-- A verified piece is sent again and fails its second verification. -/
theorem verified_stay_verified_resent :
    Sample.restored.sess.pieces.isHave 0 = true ∧
      (run Sample.digests Sample.host (Sample.arrival ++ [(Sample.env, .verified 0 false [1, 2, 6])])
        Sample.restored).trace.contains (.hashFailure 0) = true ∧
      (run Sample.digests Sample.host (Sample.arrival ++ [(Sample.env, .verified 0 false [1, 2, 6])])
        Sample.restored).sess.pieces.isHave 0 = true :=
  ⟨by decide, by decide,
    (verified_stay_verified Sample.reachable_restored (by decide) _).1 0 (by decide)⟩

end Reachable
end TypeBit.Session
