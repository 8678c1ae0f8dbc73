import TypeBit.Utp.Delivery
import TypeBit.Utp.Sender

/-! What becomes of queued bytes when a uTP socket is closed. `close` only changes the state, and in that state the
queue is not packetised any more: the next tick sends the FIN, whatever is still queued. -/

namespace TypeBit.Utp
open Chunks OrdMap UtpManager

namespace UtpSocket

/-! ### What the rest of a tick leaves alone -/

section Follows
variable {H : Type} {host : UdpHost H}

/-- A step that keeps the queue and the marks of both FINs, and changes the state only to closed. -/
structure Follows (before after : UtpSocket × Recorded H) : Prop where
  queue : after.1.sendBuf = before.1.sendBuf
  fin : after.1.finSent = before.1.finSent
  peer : after.1.peerFin = before.1.peerFin
  state : after.1.state = before.1.state ∨ after.1.state = .closed
  calls : before.2.calls <+: after.2.calls

theorem Follows.refl (x : UtpSocket × Recorded H) : Follows x x := ⟨rfl, rfl, rfl, Or.inl rfl, List.prefix_refl _⟩

theorem Follows.trans {x y z : UtpSocket × Recorded H} (first : Follows x y) (second : Follows y z) : Follows x z := by
  refine ⟨second.queue.trans first.queue, second.fin.trans first.fin, second.peer.trans first.peer, ?_,
    first.calls.trans second.calls⟩
  rcases second.state with same | closed
  · rw [same]
    exact first.state
  · exact Or.inr closed

theorem follows_sendAck (s : UtpSocket) (now : Nat) (w : Recorded H) :
    Follows (s, w) (s.sendAck (recording host) now w) := by
  obtain ⟨answer, inner, sent⟩ := Sender.recorded host w s.addr (s.buildPacket ST_STATE s.nextSeq s.ackNr [] now)
  unfold sendAck
  rw [sent]
  cases answer with
  | ok done => exact ⟨rfl, rfl, rfl, Or.inl rfl, List.prefix_append _ _⟩
  | error e => exact ⟨rfl, rfl, rfl, Or.inl rfl, List.prefix_append _ _⟩

theorem follows_sendSyn (s : UtpSocket) (now : Nat) (w : Recorded H) :
    Follows (s, w) (s.sendSyn (recording host) now w) := by
  obtain ⟨answer, inner, sent⟩ := Sender.recorded host w s.addr (s.hdr ST_SYN s.synSeq 0 now).encode
  unfold sendSyn
  rw [sent]
  cases answer with
  | ok done =>
    dsimp only
    split
    · exact ⟨rfl, rfl, rfl, Or.inl rfl, List.prefix_append _ _⟩
    · exact ⟨rfl, rfl, rfl, Or.inl rfl, List.prefix_append _ _⟩
  | error e => exact ⟨rfl, rfl, rfl, Or.inl rfl, List.prefix_append _ _⟩

theorem state_sendSyn (host : UdpHost H) (s : UtpSocket) (now : Nat) (w : H) :
    (s.sendSyn host now w).1.state = s.state := by
  unfold sendSyn
  split
  · dsimp only
    split
    · rfl
    · rfl
  · rfl

theorem follows_resend (expired : List Nat) (s : UtpSocket) (now : Nat) (w : Recorded H) :
    Follows (s, w) (resend (recording host) expired s now w) := by
  induction expired generalizing s w with
  | nil => exact .refl _
  | cons seq rest ih =>
    unfold resend
    split
    · exact ih s w
    next u found =>
      split
      · exact ⟨rfl, rfl, rfl, Or.inr rfl, List.prefix_refl _⟩
      · obtain ⟨answer, inner, sent⟩ := Sender.recorded host w s.addr u.packet
        rw [sent]
        have counted : Follows (s, w) (s.retry seq u now, ⟨inner, w.calls ++ [⟨s.addr, u.packet, answer.toBool⟩]⟩) :=
          ⟨rfl, rfl, rfl, Or.inl rfl, List.prefix_append _ _⟩
        exact counted.trans (ih _ _)

theorem follows_retransmit (s : UtpSocket) (now : Nat) (w : Recorded H) :
    Follows (s, w) (s.retransmit (recording host) now w) := by
  unfold retransmit
  cases s.state with
  | synSent =>
    dsimp only
    split
    · split
      · exact ⟨rfl, rfl, rfl, Or.inr rfl, List.prefix_refl _⟩
      · exact follows_sendSyn s now w
    · exact .refl _
  | connected => exact follows_resend _ s now w
  | finSent => exact follows_resend _ s now w
  | closed => exact .refl _

theorem follows_tickRetransmit (s : UtpSocket) (now : Nat) (w : Recorded H) :
    Follows (s, w) (s.tickRetransmit (recording host) now w) := by
  have resent : Follows (s, w) (s.retransmit (recording host) now w) := follows_retransmit s now w
  unfold tickRetransmit
  dsimp only
  split
  · exact resent.trans (follows_sendAck _ now _)
  · exact resent

theorem follows_driveSocket (s : UtpSocket) (now : Nat) (w : Recorded H) :
    Follows (emit (recording host) s now w) (driveSocket (recording host) s now w) := by
  rw [driveSocket_eq]
  generalize emit (recording host) s now w = sent
  have ticked : Follows sent (sent.1.tickRetransmit (recording host) now sent.2) := follows_tickRetransmit sent.1 now sent.2
  refine ticked.trans ?_
  unfold expire
  split
  · exact ⟨rfl, rfl, rfl, Or.inr rfl, List.prefix_refl _⟩
  · exact .refl _

theorem stays_transmitLoop (host : UdpHost H) (fuel : Nat) (s : UtpSocket) (now : Nat) (w : H) :
    (transmitLoop host fuel s now w).1.state = s.state ∧ (transmitLoop host fuel s now w).1.finSent = s.finSent ∧
      (transmitLoop host fuel s now w).1.peerFin = s.peerFin := by
  induction fuel generalizing s w with
  | zero => exact ⟨rfl, rfl, rfl⟩
  | succ fuel ih =>
    unfold transmitLoop
    split
    · exact ⟨rfl, rfl, rfl⟩
    split
    · exact ⟨rfl, rfl, rfl⟩
    split
    · exact ih _ _
    · exact ⟨rfl, rfl, rfl⟩

theorem stays_transmit (host : UdpHost H) (s : UtpSocket) (now : Nat) (w : H) :
    (s.transmit host now w).1.state = s.state ∧ (s.transmit host now w).1.finSent = s.finSent ∧
      (s.transmit host now w).1.peerFin = s.peerFin := by
  unfold transmit
  split
  · exact ⟨rfl, rfl, rfl⟩
  · exact stays_transmitLoop host _ s now w

variable (host) in
theorem emit_cases (s : UtpSocket) (now : Nat) (w : Recorded H) :
    (s.state = .finSent ∧ s.finSent = false ∧ ∃ taken inner, emit (recording host) s now w =
      ({ s.finish with state := .finSent, finSentAt := now, lastActivity := now },
        ⟨inner, w.calls ++ [⟨s.addr, s.finPacket now, taken⟩]⟩)) ∨
    ((emit (recording host) s now w).1.state = s.state ∧
      (emit (recording host) s now w).1.finSent = s.finSent ∧
      (s.state = .finSent → emit (recording host) s now w = (s, w))) := by
  unfold emit
  cases state : s.state with
  | synSent =>
    right
    dsimp only
    have follows : Follows (s, w) (s.sendSyn (recording host) now w) := follows_sendSyn s now w
    split
    · refine ⟨?_, follows.fin, fun wrong => by cases wrong⟩
      exact (state_sendSyn _ s now w).trans state
    · exact ⟨state, rfl, fun wrong => by cases wrong⟩
  | connected =>
    right
    dsimp only
    exact ⟨(stays_transmit _ s now w).1.trans state, (stays_transmit _ s now w).2.1, fun wrong => by cases wrong⟩
  | finSent =>
    have still : s.transmit (recording host) now w = (s, w) := by
      unfold transmit
      rw [if_pos (Or.inl (by rw [state]; decide))]
    dsimp only
    rw [still]
    dsimp only
    split
    · unfold sendFin
      split
      · exact Or.inr ⟨state, rfl, fun _ => rfl⟩
      next streaming =>
        left
        obtain ⟨answer, inner, sent⟩ := Sender.recorded host w s.addr (s.finPacket now)
        rw [sent]
        exact ⟨rfl, by simpa using streaming, answer.toBool, inner, rfl⟩
    · exact Or.inr ⟨state, rfl, fun _ => rfl⟩
  | closed => exact Or.inr ⟨state, rfl, fun wrong => by cases wrong⟩

end Follows

/-! ### What a packet does to the state -/

theorem state_releases (acked : List Nat) (s : UtpSocket) : (acked.foldl release s).state = s.state := by
  induction acked generalizing s with
  | nil => rfl
  | cons seq rest ih =>
    rw [List.foldl_cons, ih]
    unfold release
    split
    · rfl
    · rfl

theorem state_freeAcked (s : UtpSocket) (h : Header) (now : Nat) :
    (s.freeAcked h now).state = s.state ∨ (s.freeAcked h now).state = .closed := by
  unfold freeAcked
  split
  · exact Or.inl rfl
  split
  · dsimp only
    have freed := state_releases (s.unacked.keys.filter (fun seq => seqLe seq h.ackNr)) s
    generalize (s.unacked.keys.filter (fun seq => seqLe seq h.ackNr)).foldl release s = t at freed
    have updated : (maybeUpdateWindow { t with peerWnd := h.wndSize } now).state = t.state := by
      unfold maybeUpdateWindow
      split
      · rfl
      · rfl
    split
    · exact Or.inr rfl
    · exact Or.inl (updated.trans freed)
  · exact Or.inl rfl

variable {s : UtpSocket} {h : Header} {now : Nat}

theorem closing_onAck (closing : (s.onAck h now).state = .finSent) : s.state = .finSent := by
  have timed : (s.measure h now).state = s.state := by
    unfold measure
    split
    · rfl
    · rfl
  unfold onAck at closing
  rcases state_freeAcked _ h now with same | closed
  · rw [same] at closing
    split at closing
    · cases closing
    · exact timed.symm.trans closing
  · rw [closed] at closing
    cases closing

theorem state_drain (fuel : Nat) (s : UtpSocket) : (drain fuel s).state = s.state := by
  induction fuel generalizing s with
  | zero => rfl
  | succ fuel ih =>
    unfold drain
    dsimp only
    split
    · exact ih _
    · rfl

theorem state_onData (s : UtpSocket) (h : Header) (payload : Bytes) : (s.onData h payload).state = s.state := by
  unfold onData
  split
  · rfl
  split
  · rfl
  split
  · rfl
  split
  · exact state_drain _ _
  · dsimp only
    split
    · rfl
    · rfl

theorem closing_absorb {payload : Bytes} (closing : (s.absorb h payload now).state = .finSent) : s.state = .finSent := by
  unfold absorb at closing
  dsimp only at closing
  split at closing
  · split at closing
    · cases closing
    · exact closing
  split at closing
  · exact closing_onAck (s := { s with lastActivity := now }) closing
  split at closing
  · rw [state_onData] at closing
    exact closing_onAck (s := { s with lastActivity := now, lastRecvAt := now, lastDataTs := h.timestamp }) closing
  split at closing
  · exact closing_onAck (s := { s with lastActivity := now, lastRecvAt := now }) closing
  split at closing
  · cases closing
  · exact closing

variable {H : Type}

theorem closing_onPacket {host : UdpHost H} {payload : Bytes}
    {w : H} (closing : (s.onPacket host h payload now w).1.state = .finSent) : s.state = .finSent := by
  unfold onPacket at closing
  dsimp only at closing
  split at closing
  next joined =>
    have kept : ((s.absorb h payload now).sendAck host now w).1.state = (s.absorb h payload now).state := by
      unfold sendAck
      split
      · rfl
      · rfl
    rw [kept, joined.1] at closing
    cases closing
  next => exact closing_absorb closing

variable {dialed : Bool} {chunks : Chunks UInt8} {given : Bytes}

theorem Sender.onPacket {host : UdpHost H} {w : Recorded H} (sender : Sender dialed chunks s given w.calls) (h : Header)
    (payload : Bytes) (now : Nat) : ∃ origin, Sender origin chunks (s.onPacket (recording host) h payload now w).1 given
      (s.onPacket (recording host) h payload now w).2.calls := by
  have received := (receives_absorb s h payload now).1
  have taken : ∃ origin, Sender origin chunks (s.absorb h payload now) given w.calls := by
    by_cases begun : dialed = true → chunks = [] →
        (s.absorb h payload now).state = .synSent ∨ (s.absorb h payload now).state = .closed
    · exact ⟨dialed, sender.keep received begun⟩
    · simp only [Classical.not_imp, not_or] at begun
      obtain ⟨-, rfl, joining, -⟩ := begun
      refine ⟨false, ?_⟩
      have undialed : Sender false [] { s with state := .connected } given w.calls :=
        { sender with
          flight := fun seq u found => by
            obtain ⟨g, read, id, data, syn⟩ := sender.flight seq u found
            exact ⟨g, read, id, data, fun isSyn => absurd (syn isSyn).2.2 (by simp)⟩
          honest := fun c listed took => by
            obtain ⟨g, read, id, data, syn⟩ := sender.honest c listed took
            exact ⟨g, read, id, data, fun isSyn => absurd (syn isSyn).2.2 (by simp)⟩
          opening := fun wrong => by cases wrong
          unopened := fun wrong => by cases wrong
          opened := fun wrong => by cases wrong }
      have again : Receives { s with state := .connected } (s.absorb h payload now) :=
        ⟨received.wire, received.outbox, received.flies, fun early => absurd early joining⟩
      exact undialed.keep again (fun wrong => by cases wrong)
  obtain ⟨origin, after⟩ := taken
  refine ⟨origin, ?_⟩
  unfold UtpSocket.onPacket
  dsimp only
  split
  · exact after.sendAck now
  · exact after

end UtpSocket

/-! ### The line of one socket -/

/-- What a manager does with one socket; in between, the host serves others. -/
inductive Turn (H : Type) where
  | send (data : Bytes)
  | recv (n : Nat)
  | close
  | packet (h : Header) (payload : Bytes) (now : Nat)
  | tick (now : Nat)
  | others (inner : H)

/-- A socket, its host with the socket's datagrams on record, and the bytes that `send` accepted for it. -/
structure Line (H : Type) where
  sock : UtpSocket
  host : Recorded H
  given : Bytes := []

def UtpSocket.accepts (s : UtpSocket) : Bool :=
  decide (s.state = .connected ∨ s.state = .finSent) && !s.finSent

section Line
variable {H : Type} (host : UdpHost H)

def Line.turn (l : Line H) : Turn H → Line H
  | .send data =>
      if l.sock.accepts then { l with sock := l.sock.enqueue data, given := l.given ++ data } else l
  | .recv n => { l with sock := l.sock.consume n }
  | .close => { l with sock := { l.sock with state := if l.sock.isConnected then .finSent else .closed } }
  | .packet h payload now =>
      match l.sock.onPacket (recording host) h payload now l.host with
      | (s, w) => { l with sock := s, host := w }
  | .tick now =>
      match driveSocket (recording host) l.sock now l.host with
      | (s, w) => { l with sock := s, host := w }
  | .others inner => { l with host := { l.host with inner := inner } }

/-- A socket right after `connect`, or after the SYN that opened it was acknowledged. -/
inductive Born : Line H → Prop where
  | dialed (handle : ConnId) (addr : NetAddr) (sendId now : Nat) (narrow : sendId < 2 ^ 16) (w : H) :
      Born ⟨{ UtpSocket.new handle addr sendId (wadd16 sendId 1) now with ackNr := wsub16 0 1 }, ⟨w, []⟩, []⟩
  | accepted (handle : ConnId) (addr : NetAddr) (h : Header) (now : Nat) (w : H) :
      Born ⟨((inbound handle addr h now).sendAck (recording host) now ⟨w, []⟩).1,
        ((inbound handle addr h now).sendAck (recording host) now ⟨w, []⟩).2, []⟩

def lineMoments : List (Turn H) → Line H → List (Turn H × Line H)
  | [], _ => []
  | turn :: rest, l => (turn, l) :: lineMoments rest (l.turn host turn)

def SendsFin (before after : Line H) : Prop := before.sock.finSent = false ∧ after.sock.finSent = true

/-- Nothing is queued, and the accepted bytes are the payloads, in order, of DATA packets that the host took; the
FIN has the number after them. -/
def Flushed (before after : Line H) : Prop :=
  before.sock.sendBuf = [] ∧ ∃ chunks : Chunks UInt8, joined chunks = before.given ∧
    (∀ i p, chunks[i]? = some (some p) → p ≠ [] → UtpSocket.Shipped before.host.calls i p) ∧
    ∃ c ∈ after.host.calls, ∃ h, Header.decode c.packet = some h ∧ h.ptype = ST_FIN ∧
      h.seqNr = chunks.length % 2 ^ 16

/-- Nothing is queued when a connected socket is closed, and nothing is sent while it is closing. -/
def Orderly (turn : Turn H) (l : Line H) : Prop :=
  match turn with
  | .close => l.sock.state = .connected → l.sock.sendBuf = []
  | .send _ => l.sock.state ≠ .finSent
  | _ => True

def Booked (l : Line H) : Prop := ∃ dialed chunks, UtpSocket.Sender dialed chunks l.sock l.given l.host.calls

def Emptied (l : Line H) : Prop := l.sock.state = .finSent → l.sock.finSent = false → l.sock.sendBuf = []

variable {host} {l : Line H}

theorem booked_born (born : Born host l) : Booked l := by
  cases born with
  | dialed handle addr sendId now narrow w =>
    exact ⟨true, [], UtpSocket.sender_dialed handle addr narrow (wadd16 sendId 1) now⟩
  | accepted handle addr h now w =>
    have made := UtpSocket.sender_inbound handle addr h now
    exact ⟨false, [], UtpSocket.Sender.sendAck (w := ⟨w, []⟩) made now⟩

theorem emptied_born (born : Born host l) : Emptied l := by
  cases born with
  | dialed handle addr sendId now narrow w => exact fun wrong => by cases wrong
  | accepted handle addr h now w =>
    intro closing
    have same : ((inbound handle addr h now).sendAck (recording host) now ⟨w, []⟩).1.state = .connected := by
      unfold UtpSocket.sendAck
      split
      · rfl
      · rfl
    cases same.symm.trans closing

theorem turn_send (l : Line H) (data : Bytes) : l.turn host (.send data) =
    if l.sock.accepts then { l with sock := l.sock.enqueue data, given := l.given ++ data } else l := rfl

theorem booked_turn (booked : Booked l) (turn : Turn H) : Booked (l.turn host turn) := by
  obtain ⟨dialed, chunks, sender⟩ := booked
  cases turn with
  | send data =>
    rw [turn_send]
    split
    · refine ⟨dialed, chunks, { sender with conserved := ?_ }⟩
      show l.given ++ data = joined chunks ++ (l.sock.sendBuf ++ data)
      rw [sender.conserved, List.append_assoc]
    · exact ⟨dialed, chunks, sender⟩
  | recv n => exact ⟨dialed, chunks, sender.keep ⟨rfl, rfl, .of_eq rfl, id⟩ sender.unopened⟩
  | close => exact ⟨dialed, chunks, sender.close⟩
  | packet h payload now =>
    obtain ⟨origin, after⟩ : ∃ origin, UtpSocket.Sender origin chunks
        (l.sock.onPacket (recording host) h payload now l.host).1 l.given
        (l.sock.onPacket (recording host) h payload now l.host).2.calls := sender.onPacket h payload now
    exact ⟨origin, chunks, after⟩
  | tick now =>
    obtain ⟨more, after⟩ : UtpSocket.Sender.Grown dialed chunks l.given
      (driveSocket (recording host) l.sock now l.host) := sender.driveSocket now
    exact ⟨dialed, chunks ++ more, after⟩
  | others inner => exact ⟨dialed, chunks, sender⟩

variable {turn : Turn H}

theorem sendsFin_cases (sends : SendsFin l (l.turn host turn)) :
    l.sock.state = .finSent ∧ ∃ now taken, ⟨l.sock.addr, l.sock.finPacket now, taken⟩ ∈ (l.turn host turn).host.calls := by
  obtain ⟨unsent, sent⟩ := sends
  cases turn with
  | send data =>
    rw [turn_send] at sent
    split at sent
    · cases unsent.symm.trans sent
    · cases unsent.symm.trans sent
  | recv n => cases unsent.symm.trans sent
  | close => cases unsent.symm.trans sent
  | packet h payload now =>
    have outbox := (UtpSocket.receives_onPacket (recording host) l.sock h payload now l.host).1.outbox
    have same : (l.turn host (.packet h payload now)).sock.finSent = l.sock.finSent := congrArg (fun half => half.2.2.1) outbox
    rw [same, unsent] at sent
    cases sent
  | tick now =>
    have follows : UtpSocket.Follows (emit (recording host) l.sock now l.host)
      (driveSocket (recording host) l.sock now l.host) := UtpSocket.follows_driveSocket l.sock now l.host
    have emitted : (emit (recording host) l.sock now l.host).1.finSent = true := by
      rw [← follows.fin]
      exact sent
    rcases UtpSocket.emit_cases host l.sock now l.host with ⟨closing, -, taken, inner, made⟩ | ⟨-, same, -⟩
    · refine ⟨closing, now, taken, follows.calls.subset ?_⟩
      rw [made]
      exact List.mem_append_right _ (List.mem_singleton.mpr rfl)
    · rw [same, unsent] at emitted
      cases emitted
  | others inner => cases unsent.symm.trans sent

theorem emptied_turn (emptied : Emptied l) (orderly : Orderly turn l) : Emptied (l.turn host turn) := by
  cases turn with
  | send data =>
    rw [turn_send]
    split
    · exact fun closing => absurd closing orderly
    · exact emptied
  | recv n => exact emptied
  | close =>
    intro closing _
    have open_ : l.sock.isConnected = true := by
      by_contra other
      have closed : (if l.sock.isConnected then UtpState.finSent else .closed) = .finSent := closing
      rw [if_neg other] at closed
      cases closed
    exact orderly (of_decide_eq_true open_)
  | packet h payload now =>
    intro closing unsent
    have outbox := (UtpSocket.receives_onPacket (recording host) l.sock h payload now l.host).1.outbox
    have queue : (l.turn host (.packet h payload now)).sock.sendBuf = l.sock.sendBuf := congrArg Prod.fst outbox
    have mark : (l.turn host (.packet h payload now)).sock.finSent = l.sock.finSent := congrArg (fun half => half.2.2.1) outbox
    rw [queue]
    exact emptied (UtpSocket.closing_onPacket closing) (mark.symm.trans unsent)
  | tick now =>
    intro closing unsent
    have follows : UtpSocket.Follows (emit (recording host) l.sock now l.host)
      (driveSocket (recording host) l.sock now l.host) := UtpSocket.follows_driveSocket l.sock now l.host
    have queue : (l.turn host (.tick now)).sock.sendBuf = (emit (recording host) l.sock now l.host).1.sendBuf :=
      follows.queue
    have mark : (emit (recording host) l.sock now l.host).1.finSent = false := follows.fin.symm.trans unsent
    have state : (emit (recording host) l.sock now l.host).1.state = .finSent := by
      rcases follows.state with same | closed
      · exact same.symm.trans closing
      · cases closed.symm.trans closing
    rcases UtpSocket.emit_cases host l.sock now l.host with ⟨-, -, taken, inner, made⟩ | ⟨same, marked, idle⟩
    · rw [made] at mark
      cases mark
    · have before := same.symm.trans state
      rw [queue, idle before]
      exact emptied before (marked.symm.trans mark)
  | others inner => exact emptied


/-! ### The line as part of a manager -/

variable {G : Type}

theorem get?_tickOne_other (host : UdpHost G) (now : Nat) (acc : UtpManager × G) {id j : ConnId} (other : j ≠ id) :
    (tickOne host now acc j).1.conns.get? id = acc.1.conns.get? id := by
  unfold tickOne
  split
  · rfl
  · dsimp only
    split
    · exact get?_erase_ne _ other
    · exact get?_insert_ne _ _ other

variable {id : ConnId}

theorem get?_ticks_other (host : UdpHost G) (now : Nat) (ids : List ConnId) (acc : UtpManager × G)
    (absent : id ∉ ids) : (ids.foldl (tickOne host now) acc).1.conns.get? id = acc.1.conns.get? id := by
  induction ids generalizing acc with
  | nil => rfl
  | cons j rest ih =>
    rw [List.mem_cons, not_or] at absent
    rw [List.foldl_cons, ih _ absent.2]
    exact get?_tickOne_other host now acc (Ne.symm absent.1)

variable {s : UtpSocket}

theorem get?_ticks (host : UdpHost G) (now : Nat) (ids : List ConnId) (acc : UtpManager × G) (listed : id ∈ ids)
    (once : ids.Nodup) (held : acc.1.conns.get? id = some s) :
    (ids.foldl (tickOne host now) acc).1.conns.get? id = none ∨
      ∃ w, (ids.foldl (tickOne host now) acc).1.conns.get? id = some (driveSocket host s now w).1 := by
  induction ids generalizing acc with
  | nil => cases listed
  | cons j rest ih =>
    obtain ⟨fresh, onceRest⟩ := List.nodup_cons.mp once
    rw [List.foldl_cons]
    by_cases here : j = id
    · subst here
      rw [get?_ticks_other host now rest _ fresh]
      unfold tickOne
      rw [held]
      dsimp only
      split
      · exact Or.inl (get?_erase_self _ _)
      · exact Or.inr ⟨acc.2, get?_insert_self _ _ _⟩
    · have later := (List.mem_cons.mp listed).resolve_left (Ne.symm here)
      apply ih _ later onceRest
      rw [get?_tickOne_other host now acc here]
      exact held

theorem send_turn (host : UdpHost H) {m : UtpManager} (held : m.conns.get? id = some s) (data : Bytes) (w : Recorded H) :
    (m.send id data).2.conns.get? id = some ((⟨s, w, []⟩ : Line H).turn host (.send data)).sock := by
  have queued : (m.conns.insert id (s.enqueue data)).get? id = some (s.enqueue data) := get?_insert_self _ _ _
  rw [turn_send]
  unfold send UtpSocket.accepts
  rw [held]
  cases state : s.state with
  | synSent => simp [state, held]
  | closed => simp [state, held]
  | connected => cases ended : s.finSent <;> simp [state, ended, held, queued]
  | finSent => cases ended : s.finSent <;> simp [state, ended, held, queued]

theorem datagram_turn (host : UdpHost H) {m : UtpManager} (keyed : Keyed m.conns)
    (held : m.conns.get? id = some s) (source : NetAddr) (packet : Bytes) (now : Nat) (w : Recorded H) :
    (m.handleDatagram (recording host) source packet now w).2.1.conns.get? id = some s ∨ ∃ h,
      (m.handleDatagram (recording host) source packet now w).2.1.conns.get? id =
        some ((⟨s, w, []⟩ : Line H).turn host (.packet h (packet.drop HDR_LEN) now)).sock := by
  cases read : Header.decode packet with
  | none => exact Or.inl (handleDatagram_unexpected _ (by simp [read]) source now w held)
  | some h =>
    cases found : m.expecting h.connId with
    | none =>
      left
      apply handleDatagram_unexpected _ _ source now w held
      intro g same
      cases read.symm.trans same
      exact found
    | some entry =>
      obtain ⟨first, t⟩ := entry
      rw [handleDatagram_expected _ keyed read found]
      by_cases here : first = id
      · subst here
        have same := (expecting_spec found).1
        rw [held] at same
        cases same
        exact Or.inr ⟨h, get?_insert_self _ _ _⟩
      · exact Or.inl ((get?_insert_ne _ _ here).trans held)

theorem socket_takes_turn (host : UdpHost H) {e : Endpoint H} (keyed : Keyed e.manager.conns)
    (held : e.manager.conns.get? id = some s) (source : NetAddr) (sent : List Call) (action : Action) :
    (e.act host source sent action).manager.conns.get? id = none ∨ ∃ w turn,
      (e.act host source sent action).manager.conns.get? id = some ((⟨s, w, []⟩ : Line H).turn host turn).sock := by
  have idle : ∀ {f : Endpoint H}, f.manager.conns.get? id = some s → f.manager.conns.get? id = none ∨ ∃ w turn,
      f.manager.conns.get? id = some ((⟨s, w, []⟩ : Line H).turn host turn).sock :=
    fun same => Or.inr ⟨e.host, .others e.host.inner, same⟩
  cases action with
  | tick now =>
    have listed : id ∈ e.manager.conns.keys := (mem_keys_iff _ id).mpr ⟨s, held⟩
    rcases get?_ticks (recording host) now e.manager.conns.keys (e.manager, e.host) listed e.manager.conns.keys_nodup held
      with gone | ⟨w, driven⟩
    · exact Or.inl gone
    · exact Or.inr ⟨w, .tick now, driven⟩
  | deliver index now =>
    unfold Endpoint.act
    dsimp only
    split
    next _ packet found =>
      rcases datagram_turn host keyed held source packet now e.host with same | ⟨h, took⟩
      · exact idle same
      · exact Or.inr ⟨e.host, _, took⟩
    next => exact idle held
  | send target data =>
    have queued : ((e.act host source sent (.send target data)).manager.conns) = (e.manager.send target data).2.conns := by
      unfold Endpoint.act
      dsimp only
      split
      next sent => rw [sent]
      next sent => rw [sent]
    rw [queued]
    by_cases here : target = id
    · subst here
      exact Or.inr ⟨e.host, .send data, send_turn host held data e.host⟩
    · rcases e.manager.send_cases target data with refused | ⟨t, -, sent⟩
      · rw [refused]
        exact Or.inr ⟨e.host, .others e.host.inner, held⟩
      · rw [sent]
        exact Or.inr ⟨e.host, .others e.host.inner, (get?_insert_ne _ _ here).trans held⟩
  | recv target n =>
    have read : (e.act host source sent (.recv target n)).manager.conns = (e.manager.recv target n).2.conns := by
      unfold Endpoint.act
      dsimp only
      split
      next got => rw [got]
      next got => rw [got]
    rw [read]
    rcases e.manager.recv_cases target n with ⟨problem, refused⟩ | empty | ⟨t, k, there, taken⟩
    · rw [refused]
      exact Or.inr ⟨e.host, .others e.host.inner, held⟩
    · rw [empty]
      exact Or.inr ⟨e.host, .others e.host.inner, held⟩
    · rw [taken]
      by_cases here : target = id
      · subst here
        rw [held] at there
        cases there
        exact Or.inr ⟨e.host, .recv k, get?_insert_self _ _ _⟩
      · exact Or.inr ⟨e.host, .others e.host.inner, (get?_insert_ne _ _ here).trans held⟩
  | close target =>
    have modified : (e.act host source sent (.close target)).manager.conns.get? id =
        (e.manager.close target).conns.get? id := rfl
    rw [modified, close, get?_modify]
    split
    · rw [held]
      exact Or.inr ⟨e.host, .close, rfl⟩
    · exact Or.inr ⟨e.host, .others e.host.inner, held⟩
  | takeAccepted => exact idle held
  | takeReaped => exact idle held

theorem reachable_act (host : UdpHost H) {e : Endpoint H} (reached : Reachable (recording host) e.manager)
    (source : NetAddr) (sent : List Call) (action : Action) :
    Reachable (recording host) (e.act host source sent action).manager := by
  cases action with
  | tick now => exact reached.tick now e.host
  | deliver index now =>
    unfold Endpoint.act
    dsimp only
    split
    · exact reached.datagram source _ now e.host
    · exact reached
  | send id data =>
    have after := reached.send id data
    unfold Endpoint.act
    dsimp only
    split
    next same => simpa [same] using after
    next same => simpa [same] using after
  | recv id n =>
    have after := reached.recv id n
    unfold Endpoint.act
    dsimp only
    split
    next same => simpa [same] using after
    next same => simpa [same] using after
  | close id => exact reached.close id
  | takeAccepted => exact reached.takeAccepted
  | takeReaped => exact reached.takeReaped

/-- An action, with its source and the datagrams that it could deliver, or a new connection. -/
inductive Request where
  | act (source : NetAddr) (sent : List Call) (action : Action)
  | connect (addr : NetAddr) (now : Nat)

def Endpoint.request (host : UdpHost H) (e : Endpoint H) : Request → Endpoint H
  | .act source sent action => e.act host source sent action
  | .connect addr now =>
      match e.manager.connect addr now with
      | some (_, m) => { e with manager := m }
      | none => e

def Endpoint.requests (host : UdpHost H) (e : Endpoint H) (run : List Request) : Endpoint H := run.foldl (Endpoint.request host) e

theorem get?_connect {m n : UtpManager} {other : ConnId} {addr : NetAddr} {now : Nat} (dialed : m.connect addr now = some (other, n))
    (held : m.conns.get? id = some s) : n.conns.get? id = some s := by
  unfold connect at dialed
  obtain ⟨⟨handle, k⟩, found, rest⟩ := Option.bind_eq_some_iff.mp dialed
  cases rest
  obtain ⟨free, same⟩ := allocHandle_spec found
  dsimp only
  rw [same, get?_insert_ne, held]
  rintro rfl
  rw [free] at held
  cases held

theorem socket_takes_request (host : UdpHost H) {e : Endpoint H} (reached : Reachable (recording host) e.manager)
    (held : e.manager.conns.get? id = some s) (request : Request) :
    Reachable (recording host) (e.request host request).manager ∧
      ((e.request host request).manager.conns.get? id = none ∨ ∃ w turn,
        (e.request host request).manager.conns.get? id = some ((⟨s, w, []⟩ : Line H).turn host turn).sock) := by
  cases request with
  | act source sent action =>
    exact ⟨reachable_act host reached source sent action,
      socket_takes_turn host (keyed_reachable (recording host) reached) held source sent action⟩
  | connect addr now =>
    unfold Endpoint.request
    dsimp only
    split
    next dialed => exact ⟨reached.connect addr now dialed, .inr ⟨e.host, .others e.host.inner, get?_connect dialed held⟩⟩
    next => exact ⟨reached, .inr ⟨e.host, .others e.host.inner, held⟩⟩

def TakesTurn (host : UdpHost H) (s t : UtpSocket) : Prop := ∃ w turn, t = ((⟨s, w, []⟩ : Line H).turn host turn).sock

/-- In a run of an endpoint, whatever its other sockets do and whatever arrives, a socket goes from turn to turn of a line of
its own, until it is reaped. -/
theorem sockets_take_turns (host : UdpHost H) {e : Endpoint H} (reached : Reachable (recording host) e.manager)
    {id : ConnId} {s : UtpSocket} (held : e.manager.conns.get? id = some s) (run : List Request) :
    (∃ front, front <+: run ∧ (e.requests host front).manager.conns.get? id = none) ∨
      ∃ t, (e.requests host run).manager.conns.get? id = some t ∧ Relation.ReflTransGen (TakesTurn host) s t := by
  induction run generalizing e s with
  | nil => exact Or.inr ⟨s, held, .refl⟩
  | cons request rest ih =>
    obtain ⟨after, gone | ⟨w, turn, next⟩⟩ := socket_takes_request host reached held request
    · exact Or.inl ⟨[request], ⟨rest, rfl⟩, gone⟩
    · rcases ih after next with ⟨front, first, gone⟩ | ⟨t, present, turns⟩
      · exact Or.inl ⟨request :: front, List.cons_prefix_cons.mpr ⟨rfl, first⟩, gone⟩
      · exact Or.inr ⟨t, present, turns.head ⟨w, turn, rfl⟩⟩

/-- The endpoint that accepted a connection from the peer. -/
def answering : Endpoint Unit where
  manager := (UtpManager.new.handleDatagram (recording taking) peer (bare ST_SYN) 0 ⟨(), []⟩).2.1
  host := ⟨(), []⟩

theorem sockets_take_turns_answering :
    let run := [.connect peer 0, .act peer [] (.close 0x80000001), .act peer [] (.tick 1000)]
    ∃ s, answering.manager.conns.get? 0x80000001 = some s ∧
      ((∃ front, front <+: run ∧ (answering.requests taking front).manager.conns.get? 0x80000001 = none) ∨
        ∃ t, (answering.requests taking run).manager.conns.get? 0x80000001 = some t ∧
          Relation.ReflTransGen (TakesTurn taking) s t) := by
  have reached : Reachable (recording taking) answering.manager :=
    .datagram .new peer (bare ST_SYN) 0 ⟨(), []⟩
  have present : (answering.manager.conns.get? 0x80000001).isSome = true := by decide
  obtain ⟨s, held⟩ := Option.isSome_iff_exists.mp present
  exact ⟨s, held, sockets_take_turns taking reached held _⟩

/-! ### Runs of a socket -/

theorem flushed_of_empty (booked : Booked l) (sends : SendsFin l (l.turn host turn))
    (empty : l.sock.sendBuf = []) : Flushed l (l.turn host turn) := by
  obtain ⟨dialed, chunks, sender⟩ := booked
  obtain ⟨-, now, taken, listed⟩ := sendsFin_cases sends
  obtain ⟨head, rest, whole, type, -, number⟩ :=
    UtpSocket.buildPacket_head l.sock.finish ST_FIN l.sock.nextSeq l.sock.ackNr [] now
  obtain ⟨h, read, sameType, -, sameSeq⟩ := Header.decode_encode head rest (type ▸ (by decide : ST_FIN < 16))
  have packet : Header.decode (l.sock.finPacket now) = some h := by
    rw [UtpSocket.finPacket, whole]
    exact read
  have stream : joined chunks = l.given := by
    rw [sender.conserved, empty, List.append_nil]
  refine ⟨empty, chunks, stream, sender.shipped, _, listed, h, packet, sameType.trans type, ?_⟩
  rw [sameSeq, number, sender.nextSeq_of_streaming sends.1, Nat.mod_mod]

theorem moments_invariant {P : Line H → Prop} {Q : Turn H → Line H → Prop}
    (step : ∀ l turn, P l → Q turn l → P (l.turn host turn)) (turns : List (Turn H)) {l : Line H} (holds : P l)
    (orderly : ∀ m ∈ lineMoments host turns l, Q m.1 m.2) : ∀ m ∈ lineMoments host turns l, P m.2 := by
  induction turns generalizing l with
  | nil => simp [lineMoments]
  | cons turn rest ih =>
    intro m member
    rcases List.mem_cons.mp member with rfl | later
    · exact holds
    · have here := orderly _ List.mem_cons_self
      exact ih (step l turn holds here) (fun n listed => orderly n (List.mem_cons_of_mem _ listed)) m later

/-- In every run of a socket in which nothing is queued when it is closed, the FIN goes out after every accepted
byte; and the FIN of a tick that follows a close goes out so exactly when nothing was queued at the close. -/
theorem close_flushes_when_empty (born : Born host l) (turns : List (Turn H)) :
    ((∀ m ∈ lineMoments host turns l, Orderly m.1 m.2) → ∀ m ∈ lineMoments host turns l,
      SendsFin m.2 (m.2.turn host m.1) → Flushed m.2 (m.2.turn host m.1)) ∧
    ∀ m ∈ lineMoments host turns l, m.2.sock.state = .connected → ∀ now,
      SendsFin (m.2.turn host .close) ((m.2.turn host .close).turn host (.tick now)) →
      (Flushed (m.2.turn host .close) ((m.2.turn host .close).turn host (.tick now)) ↔ m.2.sock.sendBuf = []) := by
  have booked : ∀ m ∈ lineMoments host turns l, Booked m.2 :=
    moments_invariant (P := Booked) (Q := fun _ _ => True) (fun l turn right _ => booked_turn right turn) turns
      (booked_born born) (fun _ _ => trivial)
  constructor
  · intro orderly m member sends
    have emptied : Emptied m.2 :=
      moments_invariant (P := Emptied) (Q := Orderly) (fun l turn before here => emptied_turn before here) turns (emptied_born born)
        orderly m member
    exact flushed_of_empty (booked m member) sends (emptied (sendsFin_cases sends).1 sends.1)
  · intro m member _ now sends
    constructor
    · exact fun flushed => flushed.1
    · exact fun empty => flushed_of_empty (booked_turn (booked m member) .close) sends empty

end Line

/-! ### A socket that was accepted -/

def answered : Line Unit :=
  ⟨((inbound 0x80000001 peer ⟨ST_SYN, EXT_NONE, 5, 0, 0, 0, 0, 0⟩ 0).sendAck
      (recording taking) 0 ⟨(), []⟩).1,
    ((inbound 0x80000001 peer ⟨ST_SYN, EXT_NONE, 5, 0, 0, 0, 0, 0⟩ 0).sendAck
      (recording taking) 0 ⟨(), []⟩).2, []⟩

def unhurried : List (Turn Unit) := [.send [7], .tick 1, .close, .tick 2]

theorem close_flushes_when_empty_unhurried :
    ∃ m ∈ lineMoments taking unhurried answered, SendsFin m.2 (m.2.turn taking m.1) ∧
      m.2.given = [7] ∧ Flushed m.2 (m.2.turn taking m.1) := by
  have born : Born taking answered := .accepted _ _ _ _ _
  have orderly : ∀ m ∈ lineMoments taking unhurried answered, Orderly m.1 m.2 := by
    intro m member
    simp only [unhurried, lineMoments, List.mem_cons, List.not_mem_nil, or_false] at member
    rcases member with rfl | rfl | rfl | rfl
    · exact (by decide : answered.sock.state ≠ .finSent)
    · trivial
    · exact fun _ => (by decide :
        ((answered.turn taking (.send [7])).turn taking (.tick 1)).sock.sendBuf = [])
    · trivial
  have last : (Turn.tick 2, ((answered.turn taking (.send [7])).turn taking (.tick 1)).turn
      taking .close) ∈ lineMoments taking unhurried answered := by
    simp [unhurried, lineMoments]
  have sends : SendsFin (((answered.turn taking (.send [7])).turn taking (.tick 1)).turn
      taking .close) ((((answered.turn taking (.send [7])).turn taking (.tick 1)).turn
      taking .close).turn taking (.tick 2)) := by
    unfold SendsFin
    decide
  exact ⟨_, last, sends, by decide, (close_flushes_when_empty born unhurried).1 orderly _ last sends⟩

/-- A byte queued right before the close never leaves: the next tick sends the FIN. -/
theorem close_drops_queued_byte : ¬ ∀ (l : Line Unit) (data : Bytes) (now : Nat), Born taking l →
    l.sock.state = .connected →
    SendsFin ((l.turn taking (.send data)).turn taking .close)
      (((l.turn taking (.send data)).turn taking .close).turn taking (.tick now)) →
    Flushed ((l.turn taking (.send data)).turn taking .close)
      (((l.turn taking (.send data)).turn taking .close).turn taking (.tick now)) := by
  intro always
  have sends : SendsFin ((answered.turn taking (.send [7])).turn taking .close)
      (((answered.turn taking (.send [7])).turn taking .close).turn taking (.tick 1)) := by
    unfold SendsFin
    decide
  have flushed := always answered [7] 1 (.accepted _ _ _ _ _) (by decide) sends
  have queued : ((answered.turn taking (.send [7])).turn taking .close).sock.sendBuf = [7] := by
    decide
  rw [flushed.1] at queued
  cases queued

end TypeBit.Utp
