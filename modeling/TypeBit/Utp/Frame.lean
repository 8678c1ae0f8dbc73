import TypeBit.Utp.Manager
import TypeBit.Wire.Stream

/-! What the steps of a uTP socket leave alone: its identity on the wire, its receiving half, its sending
half, and the packets it keeps for retransmission. -/

namespace TypeBit.Utp

/-! ### The header on the wire -/

namespace Header
open Wire

theorem length_encode (h : Header) : h.encode.length = HDR_LEN := rfl

def sized (h : Header) : Header where
  ptype := h.ptype % 2 ^ 4
  extension := h.extension % 2 ^ 8
  connId := h.connId % 2 ^ 16
  timestamp := h.timestamp % 2 ^ 32
  timestampDiff := h.timestampDiff % 2 ^ 32
  wndSize := h.wndSize % 2 ^ 32
  seqNr := h.seqNr % 2 ^ 16
  ackNr := h.ackNr % 2 ^ 16

theorem typeByte (n : Nat) : ((n <<< 4 ||| UTP_VERSION).toUInt8).toNat &&& 0x0F = UTP_VERSION ∧
    ((n <<< 4 ||| UTP_VERSION).toUInt8).toNat >>> 4 = n % 2 ^ 4 := by
  have small : ∀ k < 16, ((k <<< 4 ||| UTP_VERSION).toUInt8).toNat &&& 0x0F = UTP_VERSION ∧
      ((k <<< 4 ||| UTP_VERSION).toUInt8).toNat >>> 4 = k := by decide
  have whole : ∀ k, k <<< 4 ||| UTP_VERSION = k * 16 + 1 := by
    intro k
    have split := Nat.two_pow_add_eq_or_of_lt (i := 4) (b := 1) (by decide) k
    rw [Nat.shiftLeft_eq, Nat.mul_comm]
    exact split.symm.trans (by omega)
  have same : (n <<< 4 ||| UTP_VERSION).toUInt8.toNat = (((n % 2 ^ 4) <<< 4) ||| UTP_VERSION).toUInt8.toNat := by
    rw [toNat_toUInt8, toNat_toUInt8, whole, whole]
    omega
  rw [same]
  exact small (n % 2 ^ 4) (Nat.mod_lt n (by decide))

theorem decode_encode_sized (h : Header) (rest : Bytes) : decode (h.encode ++ rest) = some h.sized := by
  have long : ¬ (h.encode ++ rest).length < HDR_LEN := by
    rw [List.length_append, length_encode]
    omega
  obtain ⟨version, type⟩ := typeByte h.ptype
  have current : ¬ ((h.encode ++ rest).getD 0 0).toNat &&& 0x0F ≠ UTP_VERSION := not_not.mpr version
  have connId : be16 ((h.encode ++ rest).drop 2) = h.connId % 2 ^ 16 := be16_sized h.connId _
  have timestamp : be32 ((h.encode ++ rest).drop 4) = h.timestamp % 2 ^ 32 := be32_sized h.timestamp _
  have timestampDiff : be32 ((h.encode ++ rest).drop 8) = h.timestampDiff % 2 ^ 32 := be32_sized h.timestampDiff _
  have wndSize : be32 ((h.encode ++ rest).drop 12) = h.wndSize % 2 ^ 32 := be32_sized h.wndSize _
  have seqNr : be16 ((h.encode ++ rest).drop 16) = h.seqNr % 2 ^ 16 := be16_sized h.seqNr _
  have ackNr : be16 ((h.encode ++ rest).drop 18) = h.ackNr % 2 ^ 16 := be16_sized h.ackNr _
  unfold decode
  rw [if_neg long, if_neg current, connId, timestamp, timestampDiff, wndSize, seqNr, ackNr]
  exact congrArg (fun ptype => some { h.sized with ptype }) type

theorem decode_encode (h : Header) (rest : Bytes) (narrow : h.ptype < 16) :
    ∃ g, decode (h.encode ++ rest) = some g ∧ g.ptype = h.ptype ∧ g.connId = h.connId % 2 ^ 16 ∧
      g.seqNr = h.seqNr % 2 ^ 16 :=
  ⟨h.sized, h.decode_encode_sized rest, Nat.mod_eq_of_lt narrow, rfl, rfl⟩

end Header

namespace UtpSocket

def wire (s : UtpSocket) : ConnId × NetAddr × Nat × Nat × Nat := (s.handle, s.addr, s.sendId, s.recvId, s.synSeq)

def inbox (s : UtpSocket) : Nat × Bytes × OrdMap Nat Bytes := (s.ackNr, s.recvBuf, s.oob)

def outbox (s : UtpSocket) : Bytes × Nat × Bool × Nat := (s.sendBuf, s.nextSeq, s.finSent, s.synAttempts)

def FliesIn (s t : UtpSocket) : Prop :=
  ∀ seq u, t.unacked.get? seq = some u → ∃ v, s.unacked.get? seq = some v ∧ v.packet = u.packet

theorem FliesIn.refl (s : UtpSocket) : s.FliesIn s := fun _ u found => ⟨u, found, rfl⟩

theorem FliesIn.of_eq {s t : UtpSocket} (same : t.unacked = s.unacked) : s.FliesIn t := fun _ u found =>
  ⟨u, same ▸ found, rfl⟩

theorem FliesIn.trans {s t u : UtpSocket} (first : s.FliesIn t) (second : t.FliesIn u) : s.FliesIn u := by
  intro seq last found
  obtain ⟨v, middle, same⟩ := second seq last found
  obtain ⟨o, early, again⟩ := first seq v middle
  exact ⟨o, early, again.trans same⟩

/-- A step that touches neither half: only timing, windows, the state and packets taken out of flight. -/
structure Quiet (s t : UtpSocket) : Prop where
  wire : t.wire = s.wire
  inbox : t.inbox = s.inbox
  outbox : t.outbox = s.outbox
  flies : s.FliesIn t
  /-- No step goes back to the state before the handshake. -/
  opened : t.state = .synSent → s.state = .synSent
  active : t.lastActivity = s.lastActivity

theorem Quiet.refl (s : UtpSocket) : s.Quiet s := ⟨rfl, rfl, rfl, .refl s, id, rfl⟩

theorem Quiet.trans {s t u : UtpSocket} (first : s.Quiet t) (second : t.Quiet u) : s.Quiet u where
  wire := second.wire.trans first.wire
  inbox := second.inbox.trans first.inbox
  outbox := second.outbox.trans first.outbox
  flies := first.flies.trans second.flies
  opened := first.opened ∘ second.opened
  active := second.active.trans first.active

theorem quiet_measure (s : UtpSocket) (h : Header) (now : Nat) : s.Quiet (s.measure h now) := by
  unfold measure
  split
  · exact ⟨rfl, rfl, rfl, .of_eq rfl, id, rfl⟩
  · exact .refl s

theorem quiet_maybeUpdateWindow (s : UtpSocket) (now : Nat) : s.Quiet (s.maybeUpdateWindow now) := by
  unfold maybeUpdateWindow
  split
  · exact .refl s
  · exact ⟨rfl, rfl, rfl, .of_eq rfl, id, rfl⟩

theorem quiet_release (s : UtpSocket) (seq : Nat) : s.Quiet (s.release seq) := by
  unfold release
  split
  · refine ⟨rfl, rfl, rfl, ?_, id, rfl⟩
    intro other u found
    exact ⟨u, OrdMap.get?_of_erase found, rfl⟩
  · exact .refl s

theorem quiet_releases (acked : List Nat) (s : UtpSocket) : s.Quiet (acked.foldl release s) := by
  induction acked generalizing s with
  | nil => exact .refl s
  | cons seq rest ih => exact (quiet_release s seq).trans (ih (s.release seq))

theorem quiet_freeAcked (s : UtpSocket) (h : Header) (now : Nat) : s.Quiet (s.freeAcked h now) := by
  unfold freeAcked
  split
  · exact .refl s
  split
  · dsimp only
    have freed := quiet_releases (s.unacked.keys.filter (fun seq => seqLe seq h.ackNr)) s
    generalize (s.unacked.keys.filter (fun seq => seqLe seq h.ackNr)).foldl release s = t at freed
    have windowed : t.Quiet { t with peerWnd := h.wndSize } := ⟨rfl, rfl, rfl, .of_eq rfl, id, rfl⟩
    have updated := (freed.trans windowed).trans (quiet_maybeUpdateWindow _ now)
    generalize maybeUpdateWindow _ now = u at updated
    split
    · exact updated.trans ⟨rfl, rfl, rfl, .of_eq rfl, (fun closed => by cases closed), rfl⟩
    · exact updated
  · exact .refl s

theorem quiet_onAck (s : UtpSocket) (h : Header) (now : Nat) : s.Quiet (s.onAck h now) := by
  unfold onAck
  refine ((quiet_measure s h now).trans ?_).trans (quiet_freeAcked _ h now)
  generalize s.measure h now = t
  split
  · exact ⟨rfl, rfl, rfl, .of_eq rfl, (fun joined => by cases joined), rfl⟩
  · exact .refl t

/-! ### Steps of the receiving half -/

/-- A step that may move the receiving half but neither the identity nor the sending half. -/
structure Receives (s t : UtpSocket) : Prop where
  wire : t.wire = s.wire
  outbox : t.outbox = s.outbox
  flies : s.FliesIn t
  opened : t.state = .synSent → s.state = .synSent

theorem Receives.refl (s : UtpSocket) : s.Receives s := ⟨rfl, rfl, .refl s, id⟩

theorem Receives.trans {s t u : UtpSocket} (first : s.Receives t) (second : t.Receives u) : s.Receives u where
  wire := second.wire.trans first.wire
  outbox := second.outbox.trans first.outbox
  flies := first.flies.trans second.flies
  opened := first.opened ∘ second.opened

theorem Quiet.receives {s t : UtpSocket} (quiet : s.Quiet t) : s.Receives t :=
  ⟨quiet.wire, quiet.outbox, quiet.flies, quiet.opened⟩

theorem receives_drain (fuel : Nat) (s : UtpSocket) :
    s.Receives (drain fuel s) ∧ (drain fuel s).lastActivity = s.lastActivity := by
  induction fuel generalizing s with
  | zero => exact ⟨.refl s, rfl⟩
  | succ fuel ih =>
    unfold drain
    dsimp only
    split
    next p found =>
      obtain ⟨rest, active⟩ := ih { s with
        oob := s.oob.erase (wadd16 s.ackNr 1), ackNr := wadd16 s.ackNr 1, recvBuf := s.recvBuf ++ p }
      have moved : s.Receives { s with
        oob := s.oob.erase (wadd16 s.ackNr 1), ackNr := wadd16 s.ackNr 1, recvBuf := s.recvBuf ++ p } :=
        ⟨rfl, rfl, .of_eq rfl, id⟩
      exact ⟨moved.trans rest, active⟩
    next missing => exact ⟨.refl s, rfl⟩

theorem receives_onData (s : UtpSocket) (h : Header) (payload : Bytes) :
    s.Receives (s.onData h payload) ∧ (s.onData h payload).lastActivity = s.lastActivity := by
  unfold onData
  split
  · exact ⟨.refl s, rfl⟩
  split
  · exact ⟨.refl s, rfl⟩
  split
  · exact ⟨.refl s, rfl⟩
  split
  · obtain ⟨drained, active⟩ := receives_drain s.oob.size { s with ackNr := h.seqNr, recvBuf := s.recvBuf ++ payload }
    have appended : s.Receives { s with ackNr := h.seqNr, recvBuf := s.recvBuf ++ payload } := ⟨rfl, rfl, .of_eq rfl, id⟩
    have marked := appended.trans drained
    exact ⟨⟨marked.wire, marked.outbox, marked.flies, marked.opened⟩, active⟩
  · dsimp only
    split
    · exact ⟨⟨rfl, rfl, .of_eq rfl, id⟩, rfl⟩
    · exact ⟨⟨rfl, rfl, .of_eq rfl, id⟩, rfl⟩

theorem receives_absorb (s : UtpSocket) (h : Header) (payload : Bytes) (now : Nat) :
    s.Receives (s.absorb h payload now) ∧ (s.absorb h payload now).lastActivity = now := by
  have stamped : s.Receives { s with lastActivity := now } := ⟨rfl, rfl, .of_eq rfl, id⟩
  unfold absorb
  dsimp only
  split
  · split
    · exact ⟨⟨rfl, rfl, .of_eq rfl, fun joined => by cases joined⟩, rfl⟩
    · exact ⟨stamped, rfl⟩
  split
  · have acked := quiet_onAck { s with lastActivity := now } h now
    exact ⟨stamped.trans acked.receives, acked.active⟩
  split
  · have acked := quiet_onAck { s with lastActivity := now, lastRecvAt := now, lastDataTs := h.timestamp } h now
    have noted : s.Receives { s with lastActivity := now, lastRecvAt := now, lastDataTs := h.timestamp } :=
      ⟨rfl, rfl, .of_eq rfl, id⟩
    obtain ⟨stored, active⟩ := receives_onData
      (onAck { s with lastActivity := now, lastRecvAt := now, lastDataTs := h.timestamp } h now) h payload
    exact ⟨(noted.trans acked.receives).trans stored, active.trans acked.active⟩
  split
  · have acked := quiet_onAck { s with lastActivity := now, lastRecvAt := now } h now
    have noted : s.Receives { s with lastActivity := now, lastRecvAt := now } := ⟨rfl, rfl, .of_eq rfl, id⟩
    have whole := noted.trans acked.receives
    exact ⟨⟨whole.wire, whole.outbox, whole.flies, whole.opened⟩, acked.active⟩
  split
  · exact ⟨⟨rfl, rfl, .of_eq rfl, fun closed => by cases closed⟩, rfl⟩
  · exact ⟨stamped, rfl⟩

section Host
variable {H : Type} (host : UdpHost H)

theorem receives_sendAck (s : UtpSocket) (now : Nat) (w : H) : s.Receives (s.sendAck host now w).1 := by
  unfold sendAck
  split
  · exact ⟨rfl, rfl, .of_eq rfl, id⟩
  · exact .refl s

theorem active_sendAck (s : UtpSocket) (now : Nat) (w : H) (active : s.lastActivity = now) :
    (s.sendAck host now w).1.lastActivity = now := by
  unfold sendAck
  split
  · rfl
  · exact active

theorem receives_onPacket (s : UtpSocket) (h : Header) (payload : Bytes) (now : Nat) (w : H) :
    s.Receives (s.onPacket host h payload now w).1 ∧ (s.onPacket host h payload now w).1.lastActivity = now := by
  obtain ⟨taken, active⟩ := receives_absorb s h payload now
  unfold onPacket
  dsimp only
  split
  · exact ⟨taken.trans (receives_sendAck host _ now w), active_sendAck host _ now w active⟩
  · exact ⟨taken, active⟩

/-! ### Steps of the sending half -/

structure Sends (s t : UtpSocket) : Prop where
  wire : t.wire = s.wire
  inbox : t.inbox = s.inbox

theorem Sends.refl (s : UtpSocket) : s.Sends s := ⟨rfl, rfl⟩

theorem Sends.trans {s t u : UtpSocket} (first : s.Sends t) (second : t.Sends u) : s.Sends u :=
  ⟨second.wire.trans first.wire, second.inbox.trans first.inbox⟩

theorem sends_sendAck (s : UtpSocket) (now : Nat) (w : H) : s.Sends (s.sendAck host now w).1 := by
  unfold sendAck
  split
  · exact ⟨rfl, rfl⟩
  · exact .refl s

theorem sends_transmitLoop (fuel : Nat) (s : UtpSocket) (now : Nat) (w : H) :
    s.Sends (transmitLoop host fuel s now w).1 := by
  induction fuel generalizing s w with
  | zero => exact .refl s
  | succ fuel ih =>
    unfold transmitLoop
    split
    · exact .refl s
    split
    · exact .refl s
    split
    · have launched : s.Sends (s.cut.launch s.nextSeq (s.dataPacket now) s.payload.length now) := ⟨rfl, rfl⟩
      exact launched.trans (ih _ _)
    · exact ⟨rfl, rfl⟩

theorem sends_transmit (s : UtpSocket) (now : Nat) (w : H) : s.Sends (s.transmit host now w).1 := by
  unfold transmit
  split
  · exact .refl s
  · exact sends_transmitLoop host _ s now w

theorem sends_sendSyn (s : UtpSocket) (now : Nat) (w : H) : s.Sends (s.sendSyn host now w).1 := by
  unfold sendSyn
  split
  · dsimp only
    split
    · exact ⟨rfl, rfl⟩
    · exact ⟨rfl, rfl⟩
  · exact .refl s

theorem sends_sendFin (s : UtpSocket) (now : Nat) (w : H) : s.Sends (s.sendFin host now w).1 := by
  unfold sendFin
  split
  · exact .refl s
  · exact ⟨rfl, rfl⟩

theorem sends_resend (expired : List Nat) (s : UtpSocket) (now : Nat) (w : H) :
    s.Sends (resend host expired s now w).1 := by
  induction expired generalizing s w with
  | nil => exact .refl s
  | cons seq rest ih =>
    unfold resend
    split
    · exact ih s w
    next u found =>
      dsimp only
      split
      · exact ⟨rfl, rfl⟩
      · have counted : s.Sends (s.retry seq u now) := ⟨rfl, rfl⟩
        exact counted.trans (ih _ _)

theorem sends_retransmit (s : UtpSocket) (now : Nat) (w : H) : s.Sends (s.retransmit host now w).1 := by
  unfold retransmit
  cases s.state with
  | synSent =>
    dsimp only
    split
    · split
      · exact ⟨rfl, rfl⟩
      · exact sends_sendSyn host s now w
    · exact .refl s
  | connected => exact sends_resend host _ s now w
  | finSent => exact sends_resend host _ s now w
  | closed => exact .refl s

theorem sends_tickRetransmit (s : UtpSocket) (now : Nat) (w : H) : s.Sends (s.tickRetransmit host now w).1 := by
  have resent := sends_retransmit host s now w
  unfold tickRetransmit
  dsimp only
  split
  · exact resent.trans (sends_sendAck host _ now _)
  · exact resent

end Host
end UtpSocket

namespace UtpManager
variable {H : Type} (host : UdpHost H)

def emit (s : UtpSocket) (now : Nat) (w : H) : UtpSocket × H :=
  match s.state with
  | .synSent => if s.synAttempts = 0 then s.sendSyn host now w else (s, w)
  | .connected => s.transmit host now w
  | .finSent =>
      let (s, w) := s.transmit host now w
      if s.finSentAt = 0 then s.sendFin host now w else (s, w)
  | .closed => (s, w)

def expire (s : UtpSocket) (now : Nat) : UtpSocket :=
  if s.state ≠ .closed ∧ IDLE_TIMEOUT_US < now - s.lastActivity then { s with state := .closed } else s

theorem driveSocket_eq (s : UtpSocket) (now : Nat) (w : H) :
    driveSocket host s now w =
      (expire ((emit host s now w).1.tickRetransmit host now (emit host s now w).2).1 now,
        ((emit host s now w).1.tickRetransmit host now (emit host s now w).2).2) := by
  have split : driveSocket host s now w =
      let (s, w) := (emit host s now w).1.tickRetransmit host now (emit host s now w).2
      if s.state ≠ .closed ∧ IDLE_TIMEOUT_US < now - s.lastActivity then ({ s with state := .closed }, w) else (s, w) :=
    rfl
  rw [split]
  unfold expire
  dsimp only
  split
  · rfl
  · rfl

theorem sends_emit (s : UtpSocket) (now : Nat) (w : H) : s.Sends (emit host s now w).1 := by
  unfold emit
  cases s.state with
  | synSent =>
    dsimp only
    split
    · exact UtpSocket.sends_sendSyn host s now w
    · exact .refl s
  | connected => exact UtpSocket.sends_transmit host s now w
  | finSent =>
    dsimp only
    split
    · exact (UtpSocket.sends_transmit host s now w).trans (UtpSocket.sends_sendFin host _ now _)
    · exact UtpSocket.sends_transmit host s now w
  | closed => exact .refl s

theorem sends_expire (s : UtpSocket) (now : Nat) : s.Sends (expire s now) := by
  unfold expire
  split
  · exact ⟨rfl, rfl⟩
  · exact .refl s

theorem sends_driveSocket (s : UtpSocket) (now : Nat) (w : H) : s.Sends (driveSocket host s now w).1 := by
  rw [driveSocket_eq]
  exact ((sends_emit host s now w).trans (UtpSocket.sends_tickRetransmit host _ now _)).trans (sends_expire _ now)

end UtpManager
end TypeBit.Utp
