import TypeBit.Session.Ledger
import TypeBit.Session.Run

/-! The messages by which a peer takes something back. A Cancel is looked up among our own requests,
so it either releases one of them or is counted as spurious; a Reject is ignored. -/

namespace TypeBit.Session
open Metainfo Leech Wire OrdMap

/-- A block is requested from a connection. -/
def Outstanding (s : TorrentSession) (conn : ConnId) (k : BlockKey) : Prop := conn ∈ (s.requestedBy.get? k).getD []

instance (s : TorrentSession) (conn : ConnId) (k : BlockKey) : Decidable (Outstanding s conn k) :=
  inferInstanceAs (Decidable (conn ∈ _))

section Cancel
variable {H : Type}

/-- Our own outstanding requests are as they were. -/
structure Untouched (w v : World H) : Prop where
  requestedBy : v.sess.requestedBy = w.sess.requestedBy
  requestedAt : v.sess.requestedAt = w.sess.requestedAt
  requested : ∀ piece block, v.sess.pieces.blockRequested piece block = w.sess.pieces.blockRequested piece block
  loads : loadsOf v.sess.peers = loadsOf w.sess.peers
  inflight : v.io.cache.inflightBlocks = w.io.cache.inflightBlocks

/-- A peer pays for its message: a spurious cancel is counted, or the message is refused, for which the
session drops the peer. -/
def Charged (conn : ConnId) (w : World H) (outcome : Result Unit × World H) : Prop :=
  (outcome.2.sess.peers.get? conn).map Peer.spuriousCancels ≠ (w.sess.peers.get? conn).map Peer.spuriousCancels ∨
    outcome.1 ≠ .ok ()

/-- A message by which an attached peer validly asked for the block at `start`, and the world it met. -/
def AsksFor (conn : ConnId) (index start : Nat) (moment : World H × Message) : Prop :=
  ∃ t length, moment.2 = .request index start length ∧ moment.1.sess.torrent = some t ∧
    moment.1.sess.peers.contains conn = true ∧ structurallyBad t index start length = false

variable {w : World H} {conn : ConnId} {index start : Nat}

theorem requestedBy_cancelPeerRequest {reqs : List ConnId}
    (found : w.sess.requestedBy.get? (blockKey index (start / BLOCK_LEN % 2 ^ 16)) = some reqs) (member : conn ∈ reqs) :
    (cancelPeerRequest conn index start w).2.sess.requestedBy =
      if (reqs.erase conn).isEmpty then w.sess.requestedBy.erase (blockKey index (start / BLOCK_LEN % 2 ^ 16))
      else w.sess.requestedBy.insert (blockKey index (start / BLOCK_LEN % 2 ^ 16)) (reqs.erase conn) := by
  have listed : (w.sess.requestedBy.get? (blockKey index (start / BLOCK_LEN % 2 ^ 16))).filter
      (fun reqs => reqs.contains conn) = some reqs := by
    rw [found, Option.filter_some, if_pos (List.contains_iff_mem.mpr member)]
  unfold cancelPeerRequest
  simp only [listed]
  split <;> rfl

theorem cancelPeerRequest_outstanding
    (outstanding : Outstanding w.sess conn (blockKey index (start / BLOCK_LEN % 2 ^ 16))) :
    ¬ Untouched w (cancelPeerRequest conn index start w).2 := by
  intro untouched
  unfold Outstanding at outstanding
  cases found : w.sess.requestedBy.get? (blockKey index (start / BLOCK_LEN % 2 ^ 16)) with
  | none =>
    rw [found] at outstanding
    cases outstanding
  | some reqs =>
    have member : conn ∈ reqs := by
      rw [found] at outstanding
      exact outstanding
    have same := untouched.requestedBy
    rw [requestedBy_cancelPeerRequest found member] at same
    have left := congrArg (fun m => get? m (blockKey index (start / BLOCK_LEN % 2 ^ 16))) same
    rw [found] at left
    split_ifs at left
    · rw [get?_erase_self] at left
      cases left
    · rw [get?_insert_self] at left
      have shorter := List.length_erase_of_mem member
      have nonempty := List.length_pos_of_mem member
      rw [Option.some.inj left] at shorter
      omega

theorem cancelPeerRequest_other (attached : w.sess.peers.contains conn = true)
    (other : ¬ Outstanding w.sess conn (blockKey index (start / BLOCK_LEN % 2 ^ 16))) :
    Untouched w (cancelPeerRequest conn index start w).2 ∧ Charged conn w (cancelPeerRequest conn index start w) := by
  obtain ⟨p, found⟩ := (contains_iff _ _).mp attached
  have missing : (w.sess.requestedBy.get? (blockKey index (start / BLOCK_LEN % 2 ^ 16))).filter
      (fun reqs => reqs.contains conn) = none := by
    unfold Outstanding at other
    cases listed : w.sess.requestedBy.get? (blockKey index (start / BLOCK_LEN % 2 ^ 16)) with
    | none => rfl
    | some reqs =>
      rw [listed] at other
      simpa [Option.filter_some] using other
  have outcome : (cancelPeerRequest conn index start w).2 =
      w.mapPeer conn (fun p => { p with spuriousCancels := p.spuriousCancels + 1 }) := by
    unfold cancelPeerRequest
    simp only [missing, found]
    split <;> rfl
  constructor
  · rw [outcome]
    refine ⟨rfl, rfl, fun _ _ => rfl, funext (fun c => ?_), rfl⟩
    have counted := idle_mapPeer w conn (f := fun p => { p with spuriousCancels := p.spuriousCancels + 1 }) (fun _ => rfl)
    rw [loadsOf_eq, loadsOf_eq]
    exact congrArg (Option.map Prod.fst) (congrFun (congrArg Ledger.burdens counted.ledger) c)
  · left
    rw [outcome]
    simp [World.mapPeer, World.map, get?_modify, found]

variable (digests : Digests) (host : Host H) (env : Env)

/-- Exactly when a Cancel leaves our own requests alone and costs a peer nothing for a block it had
asked us for: when we did not ask the peer for that block, and the peer had not asked us for it. -/
theorem cancel_harmless_iff (attached : w.sess.peers.contains conn = true) (length : Nat)
    (past : List (World H × Message)) :
    (Untouched w (dispatch digests host env conn (.cancel index start length) w).2 ∧
        ((∃ moment ∈ past, AsksFor conn index start moment) →
          ¬ Charged conn w (dispatch digests host env conn (.cancel index start length) w))) ↔
      ¬ Outstanding w.sess conn (blockKey index (start / BLOCK_LEN % 2 ^ 16)) ∧
        ¬ ∃ moment ∈ past, AsksFor conn index start moment := by
  constructor
  · rintro ⟨untouched, free⟩
    have other : ¬ Outstanding w.sess conn (blockKey index (start / BLOCK_LEN % 2 ^ 16)) :=
      fun outstanding => cancelPeerRequest_outstanding outstanding untouched
    exact ⟨other, fun asked => free asked (cancelPeerRequest_other attached other).2⟩
  · rintro ⟨other, unasked⟩
    exact ⟨(cancelPeerRequest_other attached other).1, fun asked => absurd asked unasked⟩

end Cancel

/-- A peer cancels a block nobody asked for. -/
theorem cancel_harmless_unasked :
    Untouched Sample.courted (dispatch Sample.digests Sample.host Sample.env 1 (.cancel 0 0 3) Sample.courted).2 :=
  have attached : Sample.courted.sess.peers.contains 1 = true := by decide
  have unrequested : ¬ Outstanding Sample.courted.sess 1 (blockKey 0 (0 / BLOCK_LEN % 2 ^ 16)) := by decide
  ((cancel_harmless_iff Sample.digests Sample.host Sample.env attached 3 []).mpr ⟨unrequested, by simp⟩).1

/-- The peer we requested the block from cancels it, and our request is gone. -/
theorem cancel_takes_our_request :
    Reachable Sample.digests Sample.host Sample.asking ∧ Outstanding Sample.asking.sess 1 (blockKey 0 0) ∧
      ¬ Untouched Sample.asking (dispatch Sample.digests Sample.host Sample.env 1 (.cancel 0 0 3) Sample.asking).2 :=
  ⟨Sample.reachable_asking, by decide, cancelPeerRequest_outstanding (by decide)⟩

/-! ### Rejected requests -/

section Reject
variable {H : Type}

/-- A request that went to a connection is released: the block is no longer recorded as requested from
it and can be picked again unless somebody else was asked for it, both slots are returned, and no sweep
counts it as a timeout. -/
structure GivenBack (conn : ConnId) (k : BlockKey) (w v : World H) : Prop where
  unrecorded : ¬ Outstanding v.sess conn k
  pickable : (∀ c, Outstanding w.sess c k → c = conn) →
    v.sess.pieces.blockRequested (ofLex k).1 (ofLex k).2 = false
  slot : loadsOf v.sess.peers conn = (loadsOf w.sess.peers conn).map (· - 1)
  window : v.io.cache.inflightBlocks = w.io.cache.inflightBlocks - 1
  forgiven : ∀ maxTimeouts toBan,
    ((timeoutBlock maxTimeouts (v, toBan) k).1.sess.peers.get? conn).map Peer.requestsTimedOut =
      (v.sess.peers.get? conn).map Peer.requestsTimedOut

variable (digests : Digests) (host : Host H) (env : Env)

/-- A Reject releases no request, whatever the session is doing. -/
theorem reject_gives_nothing_back {w : World H} {conn : ConnId} {index block : Nat}
    (outstanding : Outstanding w.sess conn (blockKey index block)) (length : Nat) :
    ¬ GivenBack conn (blockKey index block) w
      (dispatch digests host env conn (.reject index (block * BLOCK_LEN) length) w).2 := by
  intro released
  exact released.unrecorded outstanding

end Reject

/-- The peer rejects our only request. -/
theorem reject_gives_nothing_back_asking :
    ¬ GivenBack 1 (blockKey 0 0) Sample.asking
      (dispatch Sample.digests Sample.host Sample.env 1 (.reject 0 (0 * BLOCK_LEN) 3) Sample.asking).2 :=
  reject_gives_nothing_back Sample.digests Sample.host Sample.env (by decide) 3

/-- The rejected request is still recorded, and the sweep that comes later counts it. -/
theorem rejected_request_times_out :
    let rejected := (dispatch Sample.digests Sample.host Sample.env 1 (.reject 0 0 3) Sample.asking).2
    Reachable Sample.digests Sample.host Sample.asking ∧ Outstanding Sample.asking.sess 1 (blockKey 0 0) ∧
      Outstanding rejected.sess 1 (blockKey 0 0) ∧
      ((step Sample.digests Sample.host { Sample.env with now := 10 ^ 6 } .sweepTimeouts rejected).sess.peers.get? 1).map
        Peer.requestsTimedOut = some 1 :=
  ⟨Sample.reachable_asking, by decide, by decide, by decide⟩

end TypeBit.Session
