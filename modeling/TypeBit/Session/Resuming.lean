import TypeBit.Piece.Snapshot
import TypeBit.Session.Booking

/-! What a saved session restores: every state of a run has its verified pieces and received blocks in order, so what
comes back from a snapshot only depends on the partial pieces. -/

namespace TypeBit.Session
open Metainfo Leech Wire PieceTracker

def Shelved (s : TorrentSession) : Prop := s.pieces.Orderly (blocksOf s.torrent)

theorem blocksOf_lt (torrent : Option Torrent) (piece : Nat) : blocksOf torrent piece < 2 ^ 16 := by
  have cut : ∀ len, blockCountFor len < 2 ^ 16 := fun len => Nat.mod_lt _ (by decide)
  unfold blocksOf
  split
  · decide
  · split
    · exact cut _
    · decide

theorem pieceCount_lt (t : Torrent) : t.pieceCount < 2 ^ 32 := by
  have cut : ∀ n, n % 2 ^ 32 < 2 ^ 32 := fun n => Nat.mod_lt n (by decide)
  unfold Torrent.pieceCount
  split
  · exact cut _
  · split
    · exact cut _
    · decide

section Shelved
variable {H : Type} {w v : World H}

theorem Shelved.congr {s u : TorrentSession} (shelved : Shelved s) (torrent : u.torrent = s.torrent)
    (count : u.pieces.pieceCount = s.pieces.pieceCount) (haves : u.pieces.haveBits = s.pieces.haveBits)
    (received : u.pieces.partialBlocks = s.pieces.partialBlocks) : Shelved u := by
  unfold Shelved
  rw [torrent]
  exact Orderly.congr shelved count haves received

theorem Shelved.same {s u : TorrentSession} (shelved : Shelved s) (torrent : u.torrent = s.torrent)
    (pieces : u.pieces = s.pieces) : Shelved u :=
  shelved.congr torrent (congrArg PieceTracker.pieceCount pieces) (congrArg PieceTracker.haveBits pieces)
    (congrArg PieceTracker.partialBlocks pieces)

theorem Shelved.calm (shelved : Shelved w.sess) (calm : Calm w v) : Shelved v.sess :=
  shelved.congr (congrArg Ledger.torrent calm.ledger) calm.released.count calm.released.haves calm.released.received

theorem Shelved.kept {s u : TorrentSession} (shelved : Shelved s) (kept : u.kept = s.kept) : Shelved u :=
  shelved.same (congrArg Kept.torrent kept) (congrArg Kept.pieces kept)

theorem shelved_chore (chore : Chore w v) (shelved : Shelved w.sess) : Shelved v.sess := by
  cases chore with
  | part parting => exact shelved.calm parting.calm
  | commit conn piece inside => exact shelved.calm (calm_mapPeer w conn _)
  | release conn w => exact shelved.calm (calm_mapPeer w conn _)
  | issue env conn piece block len =>
    exact shelved.congr rfl (pieceCount_markBlockRequested ..) (haveBits_markBlockRequested ..)
      (partialBlocks_markBlockRequested ..)
  | cancel w k => exact shelved.calm (calm_cancelSkipped w k)
  | timeout maxTimeouts w toBan k => exact shelved.calm (calm_timeoutBlock maxTimeouts (w, toBan) k)
  | withdraw conn index start => exact shelved.calm (calm_cancelPeerRequest conn index start w)
  | judge w index => exact shelved
  | take w => exact shelved
  | fetch fetched window traced =>
    obtain ⟨flights, pieces⟩ := fetched.pieces
    have torrent : v.sess.torrent = w.sess.torrent := congrArg Ledger.torrent fetched.ledger
    refine shelved.congr torrent ?_ ?_ ?_
    all_goals rw [pieces]
  | install env t absent =>
    change (installed env t w.sess).pieces.Orderly _
    rw [(installed_spec env t w.sess).pieces]
    exact orderly_new (pieceCount_lt t) t.pieceLength
  | refetch fails fetching => exact shelved
  | abandon fails fetching => exact shelved
  | fail w => exact shelved

section Store
variable {index len : Nat} {size : Nat → Nat} {t : PieceTracker}

theorem orderly_markAllCovered (sized : blockCountFor len = size index) (pb : PieceBytes) (blocks : List Nat)
    (orderly : t.Orderly size) : (blocks.foldl (markCovered index len (blockCountFor len) pb) t).Orderly size := by
  induction blocks generalizing t with
  | nil => exact orderly
  | cons b tail ih =>
    apply ih
    unfold markCovered
    split_ifs
    · rw [sized]
      exact orderly.receive index _
    · exact orderly

theorem orderly_storeBytes (conn : ConnId) (start : Nat) (data : Bytes) (sized : blockCountFor len = size index)
    (orderly : w.sess.pieces.Orderly size) : (storeBytes conn index start data len w).sess.pieces.Orderly size := by
  have marked := orderly_markAllCovered sized ((w.sess.tracker index).add start (start + data.length)).1
    (overlapped start data.length) orderly
  unfold storeBytes
  dsimp only
  split_ifs
  · exact orderly
  · unfold handOver
    split
    · exact marked
    · exact marked.congr rfl rfl rfl
  · exact marked

end Store

theorem shelved_move (move : Move w v) (shelved : Shelved w.sess) : Shelved v.sess := by
  cases move with
  | chore chore => exact shelved_chore chore shelved
  | attach w conn peer unused => exact shelved
  | accept env conn index start data torrent known filled inside blocks =>
    rename_i t info
    obtain ⟨u, calm, stored⟩ := acceptPiece_eq env conn index start data info.len w
    have before := shelved.calm calm
    have arrived : u.sess.torrent = some t := (congrArg Ledger.torrent calm.ledger).trans torrent
    have sized : blockCountFor info.len = blocksOf u.sess.torrent index := by simp [blocksOf, arrived, known]
    have kept := stored_storeBytes conn index start data info.len (u.emit (.supplied index start data))
    unfold Shelved
    rw [stored, kept.torrent]
    exact orderly_storeBytes conn start data sized before
  | forget w index => exact Orderly.reset shelved index

theorem shelved_deed {host : Host H} {env : Env} {e : Event H} (deed : Deed host env e w v) (shelved : Shelved w.sess) :
    Shelved v.sess := by
  cases deed with
  | start halted => exact shelved.kept (kept_refreshCompletion _)
  | pause running => exact shelved
  | resume paused => exact shelved.kept (kept_resume env w)
  | stop running =>
    have closed := (idle_emit w (e := .announced .stopped) rfl).trans
      (Idle.foldl (fun (v : World H) c => idle_emit v (e := .closed c) rfl) w.sess.peers.keys _)
    unfold stop
    rw [if_neg running]
    exact (shelved.calm closed.calm).same rfl rfl
  | setFilePriority file prio w => exact shelved.kept (kept_setFilePriority file prio _)
  | setFilePriorities priorities w => exact shelved.kept (kept_setFilePriorities priorities _)
  | setHoldData hold w => exact shelved.kept (kept_recomputePriorities _)
  | @verify piece totalBlocks abs data t w u verifying torrent located written =>
    have stored := sess_writeAbs host abs data (w.map (fun s => { s with verifying := s.verifying.erase piece }))
    rw [written] at stored
    have before : Shelved u.sess := by
      rw [stored]
      exact shelved
    have settled : Shelved (settlePiece piece u.sess) := Orderly.have before piece
    unfold announceCompletion
    split_ifs
    · exact settled
    · exact settled
  | share state w => exact shelved

theorem shelved_initial {s : TorrentSession} (initial : Initial s) : Shelved s := by
  induction initial with
  | torrent t cfg now => exact orderly_new (pieceCount_lt t) t.pieceLength
  | magnet ih webSeeds cfg now => exact orderly_new (by decide) 0
  | @restored s fresh haveBytes priorities up down reputation now shelved =>
    obtain ⟨bits, loaded, kept⟩ := kept_applySavedState haveBytes priorities up down reputation now s
    have pieces : (applySavedState haveBytes priorities up down reputation now s).2.pieces =
        { s.pieces with haveBits := bits } := congrArg Kept.pieces kept
    have torrent : (applySavedState haveBytes priorities up down reputation now s).2.torrent = s.torrent :=
      congrArg Kept.torrent kept
    unfold Shelved
    rw [pieces, torrent]
    rcases loaded with rfl | loaded
    · exact shelved
    · exact ⟨shelved.few, Bitfield.tight_fromBytes loaded, Bitfield.counted_fromBytes loaded, shelved.parts⟩

theorem Reachable.shelved {digests : Digests} {host : Host H} (reachable : Reachable digests host w) :
    Shelved w.sess := by
  obtain ⟨s, io, events, initial, rfl⟩ := reachable
  exact run_invariant (P := fun w => Shelved w.sess) shelved_move shelved_deed events (shelved_initial initial)

/-- In every state of a session: the verified pieces and received blocks come back from its snapshot exactly when every
partial piece has as many blocks as a full one; the bytes received come back only when no piece is partial. A restore
that fails leaves the tracker as it was exactly when the verified pieces are refused, or nothing new comes before the
entry that fails. -/
theorem snapshot_restores_when_whole {digests : Digests} {host : Host H} (reachable : Reachable digests host w) :
    (w.sess.pieces.Reproduces ↔ ∀ i flags, w.sess.pieces.partialBlocks.get? i = some flags →
        blocksOf w.sess.torrent i = w.sess.pieces.blockCount i) ∧
      (w.sess.pieces.RoundTrips ↔ w.sess.pieces.partialBlocks = ∅) ∧
      ∀ (t : PieceTracker) haveBytes entries e, (t.restore haveBytes entries).1 = .error e →
        ((t.restore haveBytes entries).2 = t ↔
          (∃ e, Bitfield.fromBytes haveBytes t.pieceCount = .error e) ∨
            (Bitfield.fromBytes haveBytes t.pieceCount = .ok t.haveBits ∧ t.Holds (entries.takeWhile t.loads))) := by
  have shelved := reachable.shelved
  have shape := reachable.sound.shape
  refine ⟨reproduces_iff shelved shape, roundTrips_iff shelved shape (blocksOf_lt _), ?_⟩
  intro t haveBytes entries e failed
  exact restore_unchanged_iff failed

end Shelved

namespace Sample

def delivered : World Unit := run digests host arrival fresh

def shortened : World Unit :=
  run digests host arrival ⟨fromTorrent { torrent with pieceLength := 32768 } .default 0, io, []⟩

theorem delivered_partial : delivered.sess.pieces.partialBlocks.entries = [(0, (Bitfield.new 1).set 0)] := by decide

end Sample

/-- A received block comes back, its bytes do not; refused bytes change nothing. -/
theorem snapshot_restores_when_whole_delivered :
    Sample.delivered.sess.pieces.Reproduces ∧ ¬ Sample.delivered.sess.pieces.RoundTrips ∧
      ((new 1 32768).restore [] []).2 = new 1 32768 := by
  obtain ⟨reproduces, roundTrips, unchanged⟩ := snapshot_restores_when_whole (Sample.reachable_fresh Sample.arrival)
  refine ⟨reproduces.mpr ?_, fun back => ?_, (unchanged _ [] [] .protocol rfl).mpr (.inl ⟨.protocol, rfl⟩)⟩
  · intro i flags found
    have listed := (OrdMap.mem_entries_iff Sample.delivered.sess.pieces.partialBlocks i flags).mpr found
    rw [Sample.delivered_partial] at listed
    cases List.mem_singleton.mp listed
    decide
  · have none := congrArg OrdMap.entries (roundTrips.mp back)
    rw [show (run Sample.digests Sample.host Sample.arrival Sample.fresh).sess.pieces.partialBlocks.entries = _ from
      Sample.delivered_partial] at none
    cases none

/-- The received block of a short piece comes back with a bit for a block the piece does not have. An entry that fails
leaves the tracker with the verified pieces of the snapshot. -/
theorem short_piece_restored_longer :
    (¬ ∀ w : World Unit, Reachable Sample.digests Sample.host w → w.sess.pieces.RoundTrips) ∧
      ¬ ∀ (t : PieceTracker) haveBytes entries e, (t.restore haveBytes entries).1 = .error e →
        (t.restore haveBytes entries).2 = t := by
  constructor
  · intro roundTrips
    have reachable : Reachable Sample.digests Sample.host Sample.shortened := ⟨_, _, Sample.arrival, .torrent _ _ _, rfl⟩
    obtain ⟨u, restored, -, parts, -⟩ := roundTrips _ reachable
    have given := congrArg (fun r => r.2.partialBlocks.entries.map (fun e => e.2.len)) restored
    dsimp only at given
    rw [parts] at given
    revert given
    decide
  · intro unchanged
    have failed : ((new 1 32768).restore [0x80] [(0, [0xff])]).1 = .error .protocol := by decide
    have same := congrArg (fun t => t.haveBits.count) (unchanged _ _ _ _ failed)
    revert same
    decide

end TypeBit.Session
