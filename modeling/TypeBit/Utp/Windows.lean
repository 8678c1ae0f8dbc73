import TypeBit.Utp.Acking
import TypeBit.Utp.Contiguity

/-! What bounds a uTP socket: the congestion window and the timeout stay between their limits, the flight counts at
least the bytes that wait for an acknowledgement and never more than the largest window, and the packets stored out of
order are limited in number. -/

namespace TypeBit.Utp
open OrdMap UtpManager
namespace UtpSocket

structure Bounded (s : UtpSocket) : Prop where
  window : MIN_WINDOW ≤ s.cwnd ∧ s.cwnd ≤ MAX_WINDOW
  timeout : RTO_MIN_US ≤ s.rto ∧ s.rto ≤ RTO_MAX_US
  counted : s.flightBytes ≤ s.inFlight
  flight : s.inFlight ≤ MAX_WINDOW
  stored : s.oob.size ≤ 1024

def gauge (s : UtpSocket) : Nat × Nat × Nat × Nat × Nat := (s.cwnd, s.rto, s.flightBytes, s.inFlight, s.oob.size)

section Steps
variable {s t : UtpSocket}

theorem Bounded.same (bounded : s.Bounded) (same : t.gauge = s.gauge) : t.Bounded := by
  simp only [gauge, Prod.mk.injEq] at same
  obtain ⟨cwnd, rto, bytes, inFlight, stored⟩ := same
  constructor
  · simpa [cwnd] using bounded.window
  · simpa [rto] using bounded.timeout
  · simpa [bytes, inFlight] using bounded.counted
  · simpa [inFlight] using bounded.flight
  · simpa [stored] using bounded.stored

theorem bounded_fresh (fresh : s.gauge = (INIT_WINDOW, RTO_MIN_US, 0, 0, 0)) : s.Bounded := by
  simp only [gauge, Prod.mk.injEq] at fresh
  obtain ⟨cwnd, rto, bytes, inFlight, stored⟩ := fresh
  constructor
  · simp [cwnd, INIT_WINDOW, MIN_WINDOW, MAX_WINDOW, MAX_PAYLOAD]
  · simp [rto, RTO_MIN_US, RTO_MAX_US]
  · simp [bytes, inFlight]
  · simp [inFlight]
  · simp [stored]

/-! ### Receiving -/

theorem Bounded.measure (bounded : s.Bounded) (h : Header) (now : Nat) : (s.measure h now).Bounded := by
  unfold UtpSocket.measure
  split
  · refine ⟨bounded.window, ?_, bounded.counted, bounded.flight, bounded.stored⟩
    simp only [RTO_MIN_US, RTO_MAX_US]
    omega
  · exact bounded

theorem Bounded.maybeUpdateWindow (bounded : s.Bounded) (now : Nat) : (s.maybeUpdateWindow now).Bounded := by
  unfold UtpSocket.maybeUpdateWindow
  split
  · exact bounded
  · refine ⟨?_, bounded.timeout, bounded.counted, bounded.flight, bounded.stored⟩
    simp only [MIN_WINDOW, MAX_WINDOW, MAX_PAYLOAD]
    omega

theorem Bounded.release (bounded : s.Bounded) (seq : Nat) : (s.release seq).Bounded := by
  unfold UtpSocket.release
  split
  next u found =>
    have parts : s.flightBytes = u.payloadLen + (s.unacked.erase seq).total (fun _ u => u.payloadLen) :=
      total_erase found
    have counted := bounded.counted
    refine ⟨bounded.window, bounded.timeout, ?_, (Nat.sub_le _ _).trans bounded.flight, bounded.stored⟩
    change (s.unacked.erase seq).total (fun _ u => u.payloadLen) ≤ s.inFlight - u.payloadLen
    omega
  next => exact bounded

theorem Bounded.releases (bounded : s.Bounded) (acked : List Nat) : (acked.foldl UtpSocket.release s).Bounded := by
  induction acked generalizing s with
  | nil => exact bounded
  | cons seq rest ih => exact ih (bounded.release seq)

theorem Bounded.onAck (bounded : s.Bounded) (h : Header) (now : Nat) : (s.onAck h now).Bounded := by
  have timed := bounded.measure h now
  unfold UtpSocket.onAck
  dsimp only
  generalize joins : (if (s.measure h now).state = .synSent ∧ seqLe (s.measure h now).synSeq h.ackNr then
    { s.measure h now with state := .connected } else s.measure h now) = joined
  have connected : joined.Bounded := by
    rw [← joins]
    split
    · exact timed.same rfl
    · exact timed
  unfold UtpSocket.freeAcked
  split
  · exact connected
  split
  · have freed : ({ (joined.unacked.keys.filter fun seq => seqLe seq h.ackNr).foldl UtpSocket.release joined with
        peerWnd := h.wndSize } : UtpSocket).Bounded := (connected.releases _).same rfl
    have updated := freed.maybeUpdateWindow now
    dsimp only
    split
    · exact updated.same rfl
    · exact updated
  · exact connected

theorem Bounded.drain (fuel : Nat) (bounded : s.Bounded) : (UtpSocket.drain fuel s).Bounded := by
  induction fuel generalizing s with
  | zero => exact bounded
  | succ fuel ih =>
    unfold UtpSocket.drain
    dsimp only
    split
    next p found =>
      have fewer : (s.oob.erase (wadd16 s.ackNr 1)).size ≤ s.oob.size := by
        rw [size_eq_total, size_eq_total]
        exact total_erase_le _ _ _
      exact ih ⟨bounded.window, bounded.timeout, bounded.counted, bounded.flight, fewer.trans bounded.stored⟩
    next => exact bounded

theorem Bounded.onData (bounded : s.Bounded) (h : Header) (payload : Bytes) : (s.onData h payload).Bounded := by
  unfold UtpSocket.onData
  split
  · exact bounded
  split
  · exact bounded
  split
  · exact bounded
  split
  · have appended : ({ s with ackNr := h.seqNr, recvBuf := s.recvBuf ++ payload } : UtpSocket).Bounded := bounded.same rfl
    exact (appended.drain _).same rfl
  · dsimp only
    split
    next room =>
      have more : (s.oob.insert h.seqNr payload).size ≤ 1 + s.oob.size := by
        rw [size_eq_total, size_eq_total]
        exact total_insert_le _ _ _ _
      refine ⟨bounded.window, bounded.timeout, bounded.counted, bounded.flight, ?_⟩
      change (s.oob.insert h.seqNr payload).size ≤ 1024
      omega
    next => exact bounded.same rfl

theorem Bounded.absorb (bounded : s.Bounded) (h : Header) (payload : Bytes) (now : Nat) :
    (s.absorb h payload now).Bounded := by
  have active : ({ s with lastActivity := now } : UtpSocket).Bounded := bounded.same rfl
  unfold UtpSocket.absorb
  dsimp only
  split
  · split
    · exact bounded.same rfl
    · exact active
  split
  · exact active.onAck h now
  split
  · have heard : ({ s with lastActivity := now, lastRecvAt := now, lastDataTs := h.timestamp } : UtpSocket).Bounded :=
      bounded.same rfl
    exact (heard.onAck h now).onData h payload
  split
  · have heard : ({ s with lastActivity := now, lastRecvAt := now } : UtpSocket).Bounded := bounded.same rfl
    exact (heard.onAck h now).same rfl
  split
  · exact bounded.same rfl
  · exact active

/-! ### Sending -/

variable {H : Type} (host : UdpHost H)

theorem Bounded.sendAck (bounded : s.Bounded) (now : Nat) (w : H) : (s.sendAck host now w).1.Bounded := by
  unfold UtpSocket.sendAck
  split
  · exact bounded.same rfl
  · exact bounded

theorem Bounded.onPacket (bounded : s.Bounded) (h : Header) (payload : Bytes) (now : Nat) (w : H) :
    (s.onPacket host h payload now w).1.Bounded := by
  unfold UtpSocket.onPacket
  dsimp only
  split
  · exact (bounded.absorb h payload now).sendAck host now w
  · exact bounded.absorb h payload now

/-- A packet leaves only into a window that it fits, and no window is larger than the largest. -/
theorem Bounded.transmitLoop (fuel : Nat) (bounded : s.Bounded) (now : Nat) (w : H) :
    (UtpSocket.transmitLoop host fuel s now w).1.Bounded := by
  induction fuel generalizing s w with
  | zero => exact bounded
  | succ fuel ih =>
    unfold UtpSocket.transmitLoop
    split
    · exact bounded
    next open_window =>
      split
      · exact bounded
      split
      · apply ih
        have most : s.payload.length ≤ MAX_PAYLOAD := by
          unfold UtpSocket.payload
          rw [List.length_take]
          omega
        have upper := bounded.window.2
        have counted := bounded.counted
        have room : s.inFlight + MAX_PAYLOAD ≤ min s.cwnd s.peerWnd := Nat.not_lt.mp open_window
        have small : MAX_WINDOW < 2 ^ 64 := by decide
        have added : satAdd s.inFlight s.payload.length = s.inFlight + s.payload.length := by
          unfold satAdd
          omega
        have bytes := total_insert_le (fun _ (u : Unacked) => u.payloadLen) s.unacked s.nextSeq
          { packet := s.dataPacket now, payloadLen := s.payload.length, sentAt := now, attempts := 0 }
        refine ⟨bounded.window, bounded.timeout, ?_, ?_, bounded.stored⟩
        · change (s.unacked.insert s.nextSeq _).total _ ≤ satAdd s.inFlight s.payload.length
          rw [added]
          apply bytes.trans
          change s.payload.length + s.flightBytes ≤ s.inFlight + s.payload.length
          omega
        · change satAdd s.inFlight s.payload.length ≤ MAX_WINDOW
          omega
      · exact bounded.same rfl

theorem Bounded.transmit (bounded : s.Bounded) (now : Nat) (w : H) : (s.transmit host now w).1.Bounded := by
  unfold UtpSocket.transmit
  split
  · exact bounded
  · exact bounded.transmitLoop host _ now w

theorem Bounded.sendSyn (bounded : s.Bounded) (now : Nat) (w : H) : (s.sendSyn host now w).1.Bounded := by
  unfold UtpSocket.sendSyn
  split
  · dsimp only
    split
    · exact bounded.same rfl
    · exact bounded.same rfl
  · exact bounded

theorem Bounded.sendFin (bounded : s.Bounded) (now : Nat) (w : H) : (s.sendFin host now w).1.Bounded := by
  unfold UtpSocket.sendFin
  split
  · exact bounded
  · exact bounded.same rfl

theorem Bounded.retry (bounded : s.Bounded) {seq : Nat} {u : Unacked} (found : s.unacked.get? seq = some u) (now : Nat) :
    (s.retry seq u now).Bounded := by
  have exchanged := total_overwrite (fun _ (u : Unacked) => u.payloadLen) found
    { u with attempts := u.attempts + 1, sentAt := now }
  have bytes : (s.retry seq u now).flightBytes = s.flightBytes := Nat.add_right_cancel exchanged
  exact bounded.same (by simp only [gauge, bytes]; rfl)

theorem Bounded.resend (expired : List Nat) (bounded : s.Bounded) (now : Nat) (w : H) :
    (UtpSocket.resend host expired s now w).1.Bounded := by
  induction expired generalizing s w with
  | nil => exact bounded
  | cons seq rest ih =>
    unfold UtpSocket.resend
    split
    · exact ih bounded w
    next u found =>
      split
      · exact (bounded.retry found now).same rfl
      · exact ih (bounded.retry found now) _

theorem Bounded.tickRetransmit (bounded : s.Bounded) (now : Nat) (w : H) : (s.tickRetransmit host now w).1.Bounded := by
  have resent : (s.retransmit host now w).1.Bounded := by
    unfold UtpSocket.retransmit
    split
    · split
      · split
        · exact bounded.same rfl
        · exact bounded.sendSyn host now w
      · exact bounded
    · exact bounded.resend host _ now w
    · exact bounded.resend host _ now w
    · exact bounded
  unfold UtpSocket.tickRetransmit
  dsimp only
  split
  · exact resent.sendAck host now _
  · exact resent

theorem Bounded.driveSocket (bounded : s.Bounded) (now : Nat) (w : H) :
    (driveSocket host s now w).1.Bounded := by
  have emitted : (emit host s now w).1.Bounded := by
    unfold emit
    cases s.state with
    | synSent =>
      dsimp only
      split
      · exact bounded.sendSyn host now w
      · exact bounded
    | connected => exact bounded.transmit host now w
    | finSent =>
      dsimp only
      split
      · exact (bounded.transmit host now w).sendFin host now _
      · exact bounded.transmit host now w
    | closed => exact bounded
  rw [driveSocket_eq]
  have ticked := emitted.tickRetransmit host now (emit host s now w).2
  dsimp only
  unfold expire
  split
  · exact ticked.same rfl
  · exact ticked

end Steps
end UtpSocket

section Reachable
variable {H : Type} {host : UdpHost H}

theorem bounded_life {Ok : UtpSocket → Nat → H → Prop} {l : Feed} (life : Life host Ok l) : l.sock.Bounded := by
  induction life with
  | dialed handle addr sendId now => exact UtpSocket.bounded_fresh rfl
  | accepted handle addr h now w =>
    have inbound : (inbound handle addr h now).Bounded := UtpSocket.bounded_fresh rfl
    exact inbound.sendAck host now w
  | send before data ih => exact ih.same rfl
  | recv before n ih => exact ih.same rfl
  | close before ih => exact ih.same rfl
  | packet before h payload now w ih => exact ih.onPacket host h payload now w
  | drive before now w ok ih => exact ih.driveSocket host now w

/-- Whatever the peers send and whatever the host does with the packets, every socket of a manager is bounded. -/
theorem sockets_bounded {m : UtpManager} (reached : Reachable host m) {id : ConnId} {s : UtpSocket}
    (held : m.conns.get? id = some s) : s.Bounded := by
  obtain ⟨l, life, rfl⟩ := lives_reachable reached id s held
  exact bounded_life life

theorem sockets_bounded_accepting : ∃ s, accepting.conns.get? 0x80000001 = some s ∧ s.Bounded := by
  have reached : Reachable taking accepting :=
    .datagram .new peer (bare ST_SYN) 0 ()
  have present : (accepting.conns.get? 0x80000001).isSome = true := by decide
  obtain ⟨s, held⟩ := Option.isSome_iff_exists.mp present
  exact ⟨s, held, sockets_bounded reached held⟩

end Reachable

end TypeBit.Utp
