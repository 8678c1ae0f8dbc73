import TypeBit.Trackers.Announce
import TypeBit.Session.Counting
import TypeBit.Metainfo.Tiles

/-! What a session announces as left. It goes by the bytes received in this run of the program, so it is exact when
they come to the bytes of the verified pieces: not after a saved state is restored, while a piece is on its way, or
once a block came twice or for nothing. -/

namespace TypeBit.Trackers
open Metainfo Leech Wire Session

def bytesOf (t : Torrent) (pieces : List Nat) : Nat := (pieces.map t.lenAt).sum

def verifiedBytes (t : Torrent) (s : TorrentSession) : Nat :=
  bytesOf t ((List.range t.pieceCount).filter s.pieces.isHave)

def missingBytes (t : Torrent) (s : TorrentSession) : Nat :=
  bytesOf t ((List.range t.pieceCount).filter (fun i => !s.pieces.isHave i))

def allBytes (t : Torrent) : Nat := bytesOf t (List.range t.pieceCount)

theorem bytes_split (t : Torrent) (has : Nat → Bool) (pieces : List Nat) :
    bytesOf t (pieces.filter has) + bytesOf t (pieces.filter (fun i => !has i)) = bytesOf t pieces := by
  unfold bytesOf
  induction pieces with
  | nil => rfl
  | cons i tail ih =>
    cases there : has i with
    | true =>
      rw [List.filter_cons_of_pos there, List.filter_cons_of_neg (by simp [there])]
      simp only [List.map_cons, List.sum_cons]
      omega
    | false =>
      rw [List.filter_cons_of_neg (by simp [there]), List.filter_cons_of_pos (by simp [there])]
      simp only [List.map_cons, List.sum_cons]
      omega

theorem verified_missing (t : Torrent) (s : TorrentSession) : verifiedBytes t s + missingBytes t s = allBytes t :=
  bytes_split t s.pieces.isHave (List.range t.pieceCount)

/-- Every announce says what is missing. -/
def Announcer.LeftExact (a : Announcer) : Prop :=
  ∀ t, a.sess.torrent = some t → ∀ env port event, (a.params env port event).left = missingBytes t a.sess

theorem left_of_torrent {a : Announcer} {t : Torrent} (known : a.sess.torrent = some t) (env : Env) (port : Nat)
    (event : TrackerEvent) : (a.params env port event).left = t.totalSize - a.sess.downloadedBytes := by
  change a.left = _
  unfold Announcer.left
  rw [known]

theorem leftExact_iff_balance (a : Announcer) : a.LeftExact ↔ ∀ t, a.sess.torrent = some t →
    t.totalSize + verifiedBytes t a.sess = min t.totalSize a.sess.downloadedBytes + allBytes t := by
  refine forall₂_congr fun t known => ?_
  have split := verified_missing t a.sess
  have announced := left_of_torrent known
  constructor
  · intro exact
    have left := (announced ⟨0, ⟨List.replicate 20 0, rfl⟩, 0⟩ 0 .none).symm.trans (exact _ _ _)
    omega
  · intro balance env port event
    rw [announced]
    omega

section Left
variable {H : Type} (digests : Digests) (host : Host H)

/-- After any run, what is announced as left is exact just when the bytes received in it, up to the size of the torrent,
come to those of the verified pieces; where the pieces do not add up to the size, the difference counts too. -/
theorem left_exact_iff {s : TorrentSession} (initial : Initial s) (io : DiskCache.State H) (events : List (Env × Session.Event H))
    (trackers : List TrackerState) (cursor : Nat) :
    (Announcer.mk (run digests host events ⟨s, io, []⟩).sess trackers cursor).LeftExact ↔
      ∀ t, (run digests host events ⟨s, io, []⟩).sess.torrent = some t →
        t.totalSize + verifiedBytes t (run digests host events ⟨s, io, []⟩).sess =
          min t.totalSize (received digests host events ⟨s, io, []⟩ % 2 ^ 64) + allBytes t := by
  rw [leftExact_iff_balance]
  dsimp only
  rw [downloaded_run digests host initial io events]

end Left

/-! ### A piece that comes and one that was there -/

namespace Sample
open Session.Sample

def delivery : List (Env × Session.Event Unit) :=
  [(env, .start), (env, .attach 1 NetAddr.unspecified false .manual),
    (env, .data 1 (handshake.encode ++ (Message.piece 0 0 [1, 2, 6]).encode)), (env, .verified 0 true [1, 2, 6])]

theorem delivery_bytes : received digests host delivery fresh = 3 ∧
    (run digests host delivery fresh).sess.torrent.map (fun t =>
      (t.totalSize, verifiedBytes t (run digests host delivery fresh).sess, allBytes t)) = some (3, 3, 3) := by
  decide

end Sample

theorem left_exact_delivery :
    (Announcer.mk (run Session.Sample.digests Session.Sample.host Sample.delivery Session.Sample.fresh).sess [] 0).LeftExact := by
  obtain ⟨came, there⟩ := Sample.delivery_bytes
  refine (left_exact_iff Session.Sample.digests Session.Sample.host (.torrent Session.Sample.torrent .default 0)
    Session.Sample.io Sample.delivery [] 0).mpr fun t known => ?_
  have start : (⟨fromTorrent Session.Sample.torrent .default 0, Session.Sample.io, []⟩ : World Unit) = Session.Sample.fresh :=
    rfl
  rw [start] at known ⊢
  rw [known, Option.map_some, Option.some.injEq, Prod.mk.injEq, Prod.mk.injEq] at there
  obtain ⟨total, verified, all⟩ := there
  rw [came, total, verified, all]
  rfl

/-- A restored session that has everything announces that everything is left. -/
theorem restored_left_inexact : ∃ w, Reachable Session.Sample.digests Session.Sample.host w ∧
    ¬ (Announcer.mk w.sess [] 0).LeftExact := by
  refine ⟨Session.Sample.restored, Session.Sample.reachable_restored, fun exact => ?_⟩
  have shown : Session.Sample.restored.sess.torrent.map (fun t =>
      (t.totalSize - Session.Sample.restored.sess.downloadedBytes, missingBytes t Session.Sample.restored.sess)) =
        some (3, 0) := by decide
  obtain ⟨t, known, counts⟩ := Option.map_eq_some_iff.mp shown
  rw [Prod.mk.injEq] at counts
  obtain ⟨left, missing⟩ := counts
  have announced := left_of_torrent (a := ⟨Session.Sample.restored.sess, [], 0⟩) known Session.Sample.env 0 .none
  have same := announced.symm.trans (exact t known Session.Sample.env 0 .none)
  dsimp only at same
  rw [left, missing] at same
  cases same

end TypeBit.Trackers
