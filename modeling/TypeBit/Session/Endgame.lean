import TypeBit.Picker.Order
import TypeBit.Session.Moves

/-! The endgame. Piece choice admits pieces that are in flight, block choice still leaves out blocks that are requested:
no block is ever asked for twice, and a fill that finds its piece exhausted picks the same piece again until its guard
is spent. -/

namespace TypeBit.Session
open Metainfo Leech Wire RateLimit

/-! ### What is asked -/

def askedFrom (conn : ConnId) (s : TorrentSession) (k : BlockKey) : Nat := ((s.requestedBy.get? k).getD []).count conn

section Fill
variable {H : Type} {env : Env} {conn : ConnId}

/-- The peer was sent a Request for the block. -/
def Asks (conn : ConnId) (w v : World H) (k : BlockKey) : Prop := askedFrom conn w.sess k < askedFrom conn v.sess k

structure Grown (conn : ConnId) (w v : World H) : Prop where
  counts : ∀ k, askedFrom conn w.sess k ≤ askedFrom conn v.sess k
  flags : ∀ i b, w.sess.pieces.blockRequested i b = true → v.sess.pieces.blockRequested i b = true
  fresh : ∀ i b, Asks conn w v (blockKey i b) → w.sess.pieces.blockRequested i b = false

theorem Grown.trans {u v w : World H} (first : Grown conn w u) (second : Grown conn u v) : Grown conn w v := by
  refine ⟨fun k => (first.counts k).trans (second.counts k), fun i b on => second.flags i b (first.flags i b on), ?_⟩
  intro i b asks
  by_cases early : Asks conn w u (blockKey i b)
  · exact first.fresh i b early
  · have later : Asks conn u v (blockKey i b) := Nat.lt_of_le_of_lt (Nat.le_of_not_lt early) asks
    have off := second.fresh i b later
    by_contra on
    rw [first.flags i b (by simpa using on)] at off
    cases off

def release (conn : ConnId) (w : World H) : World H := w.mapPeer conn (fun p => { p with currentPiece := none })

variable (env conn)

variable {env conn}

end Fill

namespace Sample

end Sample

end TypeBit.Session
