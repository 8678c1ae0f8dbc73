import TypeBit.Utp.Isolation
import TypeBit.Utp.Sender

/-! Two managers, one connection, and a network that loses, duplicates, delays and reorders. What one side
reads is always a prefix of what the other side was given to send. -/

namespace TypeBit.Utp
open Chunks

namespace UtpSocket

/-! ### The receiving half -/

/-- The socket has taken the first chunks of the other side in order and keeps some of the later ones. -/
structure Receiver (chunks : Chunks UInt8) (s : UtpSocket) (got : Bytes) : Prop where
  inOrder : ∃ count ≤ chunks.length, s.ackNr = (count + (2 ^ 16 - 1)) % 2 ^ 16 ∧
    joined (chunks.take count) = got ++ s.recvBuf
  stored : ∀ seq p, s.oob.get? seq = some p → ∃ i, seq = i % 2 ^ 16 ∧ chunks[i]? = some (some p)

namespace Receiver
variable {chunks : Chunks UInt8} {s t : UtpSocket} {got : Bytes}

theorem extend (receiver : Receiver chunks s got) (more : Chunks UInt8) : Receiver (chunks ++ more) s got where
  inOrder := by
    obtain ⟨count, within, acked, read⟩ := receiver.inOrder
    refine ⟨count, ?_, acked, ?_⟩
    · rw [List.length_append]
      omega
    · rw [List.take_append_of_le_length within, read]
  stored := by
    intro seq p held
    obtain ⟨i, number, here⟩ := receiver.stored seq p held
    exact ⟨i, number, getElem?_extend more here⟩

theorem keep (receiver : Receiver chunks s got) (same : t.inbox = s.inbox) : Receiver chunks t got := by
  have ackNr : t.ackNr = s.ackNr := congrArg Prod.fst same
  have recvBuf : t.recvBuf = s.recvBuf := congrArg (fun half => half.2.1) same
  have oob : t.oob = s.oob := congrArg (fun half => half.2.2) same
  refine ⟨?_, ?_⟩
  · rw [ackNr, recvBuf]
    exact receiver.inOrder
  · rw [oob]
    exact receiver.stored

theorem append (receiver : Receiver chunks s got) (few : chunks.length < 2 ^ 15) {i : Nat} {p : Bytes}
    (here : chunks[i]? = some (some p)) (next : i % 2 ^ 16 = wadd16 s.ackNr 1) {u : UtpSocket}
    (ackNr : u.ackNr = wadd16 s.ackNr 1) (recvBuf : u.recvBuf = s.recvBuf ++ p)
    (oob : ∀ seq q, u.oob.get? seq = some q → s.oob.get? seq = some q) : Receiver chunks u got := by
  obtain ⟨count, within, acked, read⟩ := receiver.inOrder
  have inside := (List.getElem?_eq_some_iff.mp here).1
  have same : i = count := by
    rw [acked] at next
    unfold wadd16 at next
    omega
  subst same
  refine ⟨⟨i + 1, inside, ?_, ?_⟩, fun seq q held => receiver.stored seq q (oob seq q held)⟩
  · rw [ackNr, acked]
    unfold wadd16
    omega
  · rw [joined_take_succ here, read, recvBuf, List.append_assoc]

theorem drain (fuel : Nat) (receiver : Receiver chunks s got) (few : chunks.length < 2 ^ 15) :
    Receiver chunks (drain fuel s) got := by
  induction fuel generalizing s with
  | zero => exact receiver
  | succ fuel ih =>
    unfold UtpSocket.drain
    dsimp only
    split
    next p held =>
      obtain ⟨i, number, here⟩ := receiver.stored _ p held
      refine ih (receiver.append few here number.symm rfl rfl ?_)
      intro seq q kept
      have kept : (s.oob.erase (wadd16 s.ackNr 1)).get? seq = some q := kept
      exact OrdMap.get?_of_erase kept
    next => exact receiver

theorem onData (receiver : Receiver chunks s got) (few : chunks.length < 2 ^ 15) {h : Header} {payload : Bytes}
    {i : Nat} (number : h.seqNr = i % 2 ^ 16) (here : chunks[i]? = some (some payload)) :
    Receiver chunks (s.onData h payload) got := by
  unfold UtpSocket.onData
  split
  · exact receiver
  split
  · exact receiver
  split
  · exact receiver
  split
  next next =>
    have appended := @append _ _ _ receiver few _ _ here (number.symm.trans next)
      { s with ackNr := h.seqNr, recvBuf := s.recvBuf ++ payload } next rfl (fun _ _ held => held)
    exact (appended.drain s.oob.size few).keep rfl
  next =>
    dsimp only
    split
    · refine ⟨receiver.inOrder, ?_⟩
      intro seq p held
      have held : (s.oob.insert h.seqNr payload).get? seq = some p := held
      rw [OrdMap.get?_insert] at held
      split at held
      next same =>
        cases held
        exact ⟨i, same.symm.trans number, here⟩
      next => exact receiver.stored seq p held
    · exact receiver.keep rfl

theorem absorb (receiver : Receiver chunks s got) (few : chunks.length < 2 ^ 15) {dialed : Bool} {sendId : Nat}
    {packet : Bytes} {h : Header} (honest : Honest dialed chunks sendId packet)
    (read : Header.decode packet = some h) (now : Nat) : Receiver chunks (s.absorb h (packet.drop HDR_LEN) now) got := by
  have stamped : Receiver chunks { s with lastActivity := now } got := receiver.keep rfl
  unfold UtpSocket.absorb
  dsimp only
  split
  · split
    · exact receiver.keep rfl
    · exact stamped
  split
  · exact stamped.keep (quiet_onAck _ h now).inbox
  split
  next isData =>
    obtain ⟨g, again, -, data, -⟩ := honest
    cases read.symm.trans again
    obtain ⟨i, number, here⟩ := data isData
    have noted : Receiver chunks { s with lastActivity := now, lastRecvAt := now, lastDataTs := h.timestamp } got :=
      receiver.keep rfl
    exact (noted.keep (quiet_onAck _ h now).inbox).onData few number here
  split
  · have noted : Receiver chunks { s with lastActivity := now, lastRecvAt := now } got := receiver.keep rfl
    exact (noted.keep (quiet_onAck _ h now).inbox).keep rfl
  split
  · exact receiver.keep rfl
  · exact stamped

theorem onPacket {H : Type} {host : UdpHost H} (receiver : Receiver chunks s got) (few : chunks.length < 2 ^ 15)
    {dialed : Bool} {sendId : Nat} {packet : Bytes} {h : Header} (honest : Honest dialed chunks sendId packet)
    (read : Header.decode packet = some h) (now : Nat) (w : H) :
    Receiver chunks (s.onPacket host h (packet.drop HDR_LEN) now w).1 got := by
  have taken := receiver.absorb few honest read now
  unfold UtpSocket.onPacket
  dsimp only
  split
  · exact taken.keep (sends_sendAck host _ now w).inbox
  · exact taken

end Receiver

end UtpSocket

/-! ### Two managers and the network -/

/-- A manager with its host, the bytes that `send` accepted and the bytes that `recv` returned. -/
structure Endpoint (H : Type) where
  manager : UtpManager
  host : Recorded H
  given : Bytes := []
  got : Bytes := []

/-- A call of the public interface; a delivery is of any datagram the other side's host took. -/
inductive Action where
  | tick (now : Nat)
  | deliver (index now : Nat)
  | send (id : ConnId) (data : Bytes)
  | recv (id : ConnId) (n : Nat)
  | close (id : ConnId)
  | takeAccepted
  | takeReaped

variable {H : Type}

def Endpoint.act (host : UdpHost H) (e : Endpoint H) (source : NetAddr) (sent : List Call) : Action → Endpoint H
  | .tick now =>
      match e.manager.tick (recording host) now e.host with
      | (m, w) => { e with manager := m, host := w }
  | .deliver index now =>
      match sent[index]? with
      | some ⟨_, packet, true⟩ =>
          match e.manager.handleDatagram (recording host) source packet now e.host with
          | (_, m, w) => { e with manager := m, host := w }
      | _ => e
  | .send id data =>
      match e.manager.send id data with
      | (.ok n, m) => { e with manager := m, given := e.given ++ data.take n }
      | (.error _, m) => { e with manager := m }
  | .recv id n =>
      match e.manager.recv id n with
      | (.ok read, m) => { e with manager := m, got := e.got ++ read }
      | (.error _, m) => { e with manager := m }
  | .close id => { e with manager := e.manager.close id }
  | .takeAccepted => { e with manager := e.manager.takeAccepted.2 }
  | .takeReaped => { e with manager := e.manager.takeReaped.2 }

/-- The side that connects and the side that accepts. -/
structure Pair (H : Type) where
  dialer : Endpoint H
  listener : Endpoint H

def Keeps (e f : Endpoint H) : Prop := ∀ id, e.manager.conns.contains id = true → f.manager.conns.contains id = true

/-- The runs of one connection, from a call of `connect` on, while the sockets exist. Either side may act next,
and the network may deliver any datagram that was taken, any number of times. -/
inductive Run (host : UdpHost H) (dialerAddr listenerAddr : NetAddr) : Pair H → Prop
  | start {m dialing n : UtpManager} {id : ConnId} (u v : H) (now : Nat) (idle : m.conns = ∅) (free : n.conns = ∅)
      (narrow : m.nextSendId < 2 ^ 16) (dialed : m.connect listenerAddr now = some (id, dialing)) :
      Run host dialerAddr listenerAddr
        { dialer := { manager := dialing, host := ⟨u, []⟩ }, listener := { manager := n, host := ⟨v, []⟩ } }
  | dialer {w : Pair H} (before : Run host dialerAddr listenerAddr w) (action : Action)
      (kept : Keeps w.dialer (w.dialer.act host listenerAddr w.listener.host.calls action)) :
      Run host dialerAddr listenerAddr
        { w with dialer := w.dialer.act host listenerAddr w.listener.host.calls action }
  | listener {w : Pair H} (before : Run host dialerAddr listenerAddr w) (action : Action)
      (kept : Keeps w.listener (w.listener.act host dialerAddr w.dialer.host.calls action)) :
      Run host dialerAddr listenerAddr
        { w with listener := w.listener.act host dialerAddr w.dialer.host.calls action }

/-! ### A manager with one socket -/

def sole (id : ConnId) (s : UtpSocket) : OrdMap ConnId UtpSocket := (∅ : OrdMap ConnId UtpSocket).insert id s

theorem get?_sole (id : ConnId) (s : UtpSocket) (j : ConnId) : (sole id s).get? j = if id = j then some s else none := by
  rw [sole, OrdMap.get?_insert]
  rfl

theorem insert_sole (id : ConnId) (s t : UtpSocket) : (sole id s).insert id t = sole id t := by
  ext j : 1
  rw [OrdMap.get?_insert, get?_sole, get?_sole]
  split <;> rfl

/-- One side of the connection: its socket, what it sends and what it has received. -/
structure Live (dialed : Bool) (mine theirs : Chunks UInt8) (id : ConnId) (s : UtpSocket) (e : Endpoint H) : Prop where
  held : e.manager.conns = sole id s
  own : s.handle = id
  sender : UtpSocket.Sender dialed mine s e.given e.host.calls
  /-- While the numbers of the other side do not wrap. -/
  receiver : theirs.length < 2 ^ 15 → UtpSocket.Receiver theirs s e.got

namespace Live
variable {host : UdpHost H} {dialed : Bool} {mine theirs : Chunks UInt8} {id : ConnId} {s : UtpSocket} {e : Endpoint H}

theorem only (live : Live dialed mine theirs id s e) {j : ConnId} {t : UtpSocket}
    (found : e.manager.conns.get? j = some t) : id = j ∧ s = t := by
  rw [live.held, get?_sole] at found
  split at found
  next same => exact ⟨same, Option.some.inj found⟩
  next => cases found

theorem tick (live : Live dialed mine theirs id s e) (now : Nat) {source : NetAddr} {sent : List Call}
    (kept : Keeps e (e.act host source sent (.tick now))) :
    ∃ more t, Live dialed (mine ++ more) theirs id t (e.act host source sent (.tick now)) ∧ t.wire = s.wire := by
  have found : e.manager.conns.get? id = some s := by rw [live.held, get?_sole, if_pos rfl]
  have keys : e.manager.conns.keys = [id] := by rw [live.held]; rfl
  have drives : e.manager.tick (recording host) now e.host = UtpManager.tickOne (recording host) now (e.manager, e.host) id := by
    rw [UtpManager.tick, keys]
    rfl
  obtain ⟨more, sender⟩ : UtpSocket.Sender.Grown dialed mine e.given (UtpManager.driveSocket (recording host) s now e.host) :=
    live.sender.driveSocket now
  have framed := UtpManager.sends_driveSocket (recording host) s now e.host
  unfold Endpoint.act at kept ⊢
  dsimp only at kept ⊢
  rw [drives] at kept ⊢
  unfold UtpManager.tickOne at kept ⊢
  simp only [found] at kept ⊢
  split at kept
  next closed =>
    -- A closed socket is reaped, but no socket goes away here.
    have gone := kept id ((OrdMap.contains_iff _ _).mpr ⟨s, found⟩)
    obtain ⟨t, still⟩ := (OrdMap.contains_iff _ _).mp gone
    have erased : (e.manager.conns.erase id).get? id = some t := still
    rw [OrdMap.get?_erase_self] at erased
    cases erased
  next running =>
    rw [if_neg running]
    refine ⟨more, _, ⟨?_, (congrArg Prod.fst framed.wire).trans live.own, sender, ?_⟩, framed.wire⟩
    · show e.manager.conns.insert id _ = _
      rw [live.held, insert_sole]
    · exact fun few => (live.receiver few).keep framed.inbox

variable {source : NetAddr} {sent : List Call}

theorem deliver (live : Live dialed mine theirs id s e) (index now : Nat)
    (honest : ∀ c ∈ sent, c.taken = true → UtpSocket.Honest (!dialed) theirs s.recvId c.packet)
    (begun : ∀ c ∈ sent, c.taken = true → dialed = true → mine ≠ []) :
    ∃ t, Live dialed mine theirs id t (e.act host source sent (.deliver index now)) ∧ t.wire = s.wire := by
  unfold Endpoint.act
  dsimp only
  split
  next _ packet found =>
    have listed := List.mem_of_getElem? found
    have fair := honest _ listed rfl
    obtain ⟨h, read, expected, -⟩ := fair
    have fair := honest _ listed rfl
    have looked : e.manager.expecting h.connId = some (id, s) := by
      unfold UtpManager.expecting
      rw [live.held, expected]
      show [(id, s)].find? _ = some (id, s)
      simp
    have found : e.manager.conns.get? s.handle = some s := by rw [live.held, live.own, get?_sole, if_pos rfl]
    have taken := (UtpSocket.receives_onPacket (recording host) s h (packet.drop HDR_LEN) now e.host).1
    unfold UtpManager.handleDatagram
    simp only [read, looked, found]
    refine ⟨_, ⟨?_, (congrArg Prod.fst taken.wire).trans live.own, ?_, ?_⟩, taken.wire⟩
    · show e.manager.conns.insert s.handle _ = _
      rw [live.held, live.own, insert_sole]
    · exact live.sender.heard (begun _ listed rfl) h (packet.drop HDR_LEN) now
    · exact fun few => (live.receiver few).onPacket few fair read now e.host
  next => exact ⟨s, live, rfl⟩

theorem send (live : Live dialed mine theirs id s e) (target : ConnId) (data : Bytes) {source : NetAddr} {sent : List Call} :
    ∃ t, Live dialed mine theirs id t (e.act host source sent (.send target data)) ∧ t.wire = s.wire := by
  unfold Endpoint.act
  dsimp only
  rcases e.manager.send_cases target data with refused | ⟨t, held, queued⟩
  · rw [refused]
    exact ⟨s, live, rfl⟩
  · obtain ⟨rfl, rfl⟩ := live.only held
    rw [queued]
    refine ⟨s.enqueue data, ⟨?_, live.own, { live.sender with conserved := ?_ }, fun few => (live.receiver few).keep rfl⟩, rfl⟩
    · show e.manager.conns.insert id _ = _
      rw [live.held, insert_sole]
    · show e.given ++ data.take data.length = _ ++ (s.sendBuf ++ data)
      rw [live.sender.conserved, List.take_length, List.append_assoc]

theorem recv (live : Live dialed mine theirs id s e) (target : ConnId) (n : Nat) {source : NetAddr} {sent : List Call} :
    ∃ t, Live dialed mine theirs id t (e.act host source sent (.recv target n)) ∧ t.wire = s.wire := by
  unfold Endpoint.act
  dsimp only
  rcases e.manager.recv_cases target n with ⟨problem, refused⟩ | empty | ⟨t, k, held, taken⟩
  · rw [refused]
    exact ⟨s, live, rfl⟩
  · rw [empty]
    refine ⟨s, ⟨live.held, live.own, live.sender, ?_⟩, rfl⟩
    show _ → UtpSocket.Receiver theirs s (e.got ++ [])
    rw [List.append_nil]
    exact live.receiver
  · obtain ⟨rfl, rfl⟩ := live.only held
    rw [taken]
    have kept : s.Receives (s.consume k) := ⟨rfl, rfl, .of_eq rfl, fun early => early⟩
    refine ⟨s.consume k, ⟨?_, live.own, live.sender.keep kept live.sender.unopened, ?_⟩, rfl⟩
    · show e.manager.conns.insert id _ = _
      rw [live.held, insert_sole]
    · intro few
      have receiver := live.receiver few
      refine ⟨?_, receiver.stored⟩
      obtain ⟨count, within, acked, read⟩ := receiver.inOrder
      refine ⟨count, within, acked, ?_⟩
      show _ = e.got ++ s.recvBuf.take k ++ s.recvBuf.drop k
      rw [List.append_assoc, List.take_append_drop, read]

theorem close (live : Live dialed mine theirs id s e) (target : ConnId) :
    ∃ t, Live dialed mine theirs id t (e.act host source sent (.close target)) ∧ t.wire = s.wire := by
  unfold Endpoint.act UtpManager.close OrdMap.modify
  dsimp only
  rw [live.held, get?_sole]
  by_cases here : id = target
  · subst here
    rw [if_pos rfl]
    exact ⟨_, ⟨insert_sole id s _, live.own, live.sender.close, fun few => (live.receiver few).keep rfl⟩, rfl⟩
  · rw [if_neg here]
    exact ⟨s, ⟨rfl, live.own, live.sender, live.receiver⟩, rfl⟩

theorem act (live : Live dialed mine theirs id s e) (action : Action) (kept : Keeps e (e.act host source sent action))
    (honest : ∀ c ∈ sent, c.taken = true → UtpSocket.Honest (!dialed) theirs s.recvId c.packet)
    (begun : ∀ c ∈ sent, c.taken = true → dialed = true → mine ≠ []) :
    ∃ more t, Live dialed (mine ++ more) theirs id t (e.act host source sent action) ∧ t.wire = s.wire := by
  have alone : ∀ {f : Endpoint H}, (∃ t, Live dialed mine theirs id t f ∧ t.wire = s.wire) →
      ∃ more t, Live dialed (mine ++ more) theirs id t f ∧ t.wire = s.wire := by
    rintro f ⟨t, after, same⟩
    exact ⟨[], t, by rwa [List.append_nil], same⟩
  cases action with
  | tick now => exact live.tick now kept
  | deliver index now => exact alone (live.deliver index now honest begun)
  | send target data => exact alone (live.send target data)
  | recv target n => exact alone (live.recv target n)
  | close target => exact alone (live.close target)
  | takeAccepted => exact alone ⟨s, ⟨live.held, live.own, live.sender, live.receiver⟩, rfl⟩
  | takeReaped => exact alone ⟨s, ⟨live.held, live.own, live.sender, live.receiver⟩, rfl⟩

end Live

/-! ### Before the connection is accepted -/

structure Waiting (e : Endpoint H) : Prop where
  empty : e.manager.conns = ∅
  given : e.given = []
  got : e.got = []
  calls : e.host.calls = []

variable {host : UdpHost H} {e : Endpoint H} {chunks : Chunks UInt8}

theorem live_acceptSyn (waiting : Waiting e) {h : Header}
    (zero : h.seqNr = 0) (first : chunks[0]? = some (some [])) (source : NetAddr) (now : Nat) : Waiting { e with
        manager := (UtpManager.acceptSyn (recording host) e.manager source h now e.host).1
        host := (UtpManager.acceptSyn (recording host) e.manager source h now e.host).2 } ∨
      ∃ id s, Live false [] chunks id s { e with
        manager := (UtpManager.acceptSyn (recording host) e.manager source h now e.host).1
        host := (UtpManager.acceptSyn (recording host) e.manager source h now e.host).2 } ∧
        s.recvId = h.connId ∧ s.sendId = wadd16 h.connId 1 := by
  unfold UtpManager.acceptSyn
  split
  · exact Or.inl waiting
  next id m found =>
    refine Or.inr ⟨id, ((UtpManager.inbound id source h now).sendAck (recording host) now e.host).1, ?_⟩
    have sent := UtpSocket.sends_sendAck (recording host) (UtpManager.inbound id source h now) now e.host
    have made : UtpSocket.Sender false [] (UtpManager.inbound id source h now) e.given e.host.calls := by
      rw [waiting.given, waiting.calls]
      exact UtpSocket.sender_inbound id source h now
    have within := (List.getElem?_eq_some_iff.mp first).1
    have received : UtpSocket.Receiver chunks (UtpManager.inbound id source h now) e.got := by
      refine ⟨⟨1, within, zero, ?_⟩, fun _ _ none_yet => by cases none_yet⟩
      rw [joined_take_succ first, waiting.got]
      rfl
    have same := (UtpManager.allocHandle_spec found).2
    refine ⟨⟨?_, congrArg Prod.fst sent.wire, made.sendAck now, fun _ => received.keep sent.inbox⟩, ?_, ?_⟩
    · show m.conns.insert id _ = _
      rw [same, waiting.empty]
      rfl
    · exact congrArg (fun known => known.2.2.2.1) sent.wire
    · exact congrArg (fun known => known.2.2.1) sent.wire

theorem Waiting.act (waiting : Waiting e) {sendId : Nat} {source : NetAddr} {sent : List Call}
    (honest : ∀ c ∈ sent, c.taken = true → UtpSocket.Honest true chunks sendId c.packet) (action : Action) :
    Waiting (e.act host source sent action) ∨ chunks ≠ [] ∧ ∃ id s,
      Live false [] chunks id s (e.act host source sent action) ∧ s.recvId = sendId ∧ s.sendId = wadd16 sendId 1 := by
  have absent : ∀ id, e.manager.conns.get? id = none := by
    intro id
    rw [waiting.empty]
    rfl
  cases action with
  | tick now =>
    have idle : e.manager.tick (recording host) now e.host = (e.manager, e.host) := by
      unfold UtpManager.tick
      rw [waiting.empty]
      rfl
    unfold Endpoint.act
    dsimp only
    rw [idle]
    exact Or.inl waiting
  | deliver index now =>
    unfold Endpoint.act
    dsimp only
    split
    next _ packet found =>
      obtain ⟨h, read, id, -, syn⟩ := honest _ (List.mem_of_getElem? found) rfl
      have unexpected : e.manager.expecting h.connId = none := by
        unfold UtpManager.expecting
        rw [waiting.empty]
        rfl
      unfold UtpManager.handleDatagram
      simp only [read, unexpected]
      by_cases isSyn : h.ptype = ST_SYN
      · obtain ⟨-, zero, first⟩ := syn isSyn
        rw [if_pos isSyn, ← id]
        rcases live_acceptSyn waiting zero first source now with still | accepted
        · exact Or.inl still
        · refine Or.inr ⟨?_, accepted⟩
          rintro rfl
          cases first
      · rw [if_neg isSyn]
        exact Or.inl waiting
    next => exact Or.inl waiting
  | send id data =>
    unfold Endpoint.act UtpManager.send
    simp only [absent id]
    exact Or.inl waiting
  | recv id n =>
    unfold Endpoint.act UtpManager.recv
    simp only [absent id, List.append_nil]
    exact Or.inl waiting
  | close id =>
    unfold Endpoint.act UtpManager.close OrdMap.modify
    simp only [absent id]
    exact Or.inl waiting
  | takeAccepted => exact Or.inl ⟨waiting.empty, waiting.given, waiting.got, waiting.calls⟩
  | takeReaped => exact Or.inl ⟨waiting.empty, waiting.given, waiting.got, waiting.calls⟩

/-! ### The connection -/

def Accepting (dialed : Chunks UInt8) (s : UtpSocket) (mine : Chunks UInt8) (e : Endpoint H) : Prop :=
  Waiting e ∧ mine = [] ∨ dialed ≠ [] ∧ ∃ id t, Live false mine dialed id t e ∧ t.recvId = s.sendId ∧ t.sendId = s.recvId

/-- Both sides agree on the connection ids, and each holds a beginning of what the other has numbered. -/
def Linked (w : Pair H) : Prop :=
  ∃ dialed accepted id s, Live true dialed accepted id s w.dialer ∧ s.recvId = wadd16 s.sendId 1 ∧
    Accepting dialed s accepted w.listener

theorem linked_start {m dialing n : UtpManager} {id : ConnId} {addr : NetAddr} {now : Nat} (u v : H)
    (idle : m.conns = ∅) (free : n.conns = ∅) (narrow : m.nextSendId < 2 ^ 16)
    (dialed : m.connect addr now = some (id, dialing)) :
    Linked { dialer := { manager := dialing, host := ⟨u, []⟩ }, listener := { manager := n, host := ⟨v, []⟩ } } := by
  unfold UtpManager.connect at dialed
  obtain ⟨⟨handle, next⟩, found, rest⟩ := Option.bind_eq_some_iff.mp dialed
  have same := (UtpManager.allocHandle_spec found).2
  have sendId : next.nextSendId = m.nextSendId := by
    unfold UtpManager.allocHandle at found
    have empty : m.conns.contains (UTP_HANDLE_FLAG ||| m.nextHandle) = false := by rw [idle]; rfl
    simp only [empty] at found
    cases found
    rfl
  cases rest
  refine ⟨[], [], id, { UtpSocket.new id addr next.nextSendId (wadd16 next.nextSendId 1) now with ackNr := wsub16 0 1 },
    ⟨?_, rfl, ?_, ?_⟩, rfl, Or.inl ⟨⟨free, rfl, rfl, rfl⟩, rfl⟩⟩
  · show next.conns.insert id _ = _
    rw [same, idle]
    rfl
  · exact UtpSocket.sender_dialed id addr (sendId ▸ narrow) (wadd16 next.nextSendId 1) now
  · exact fun _ => ⟨⟨0, Nat.le_refl 0, rfl, rfl⟩, fun _ _ none_yet => by cases none_yet⟩

theorem Accepting.extend {dialed mine : Chunks UInt8} {s t : UtpSocket} (accepting : Accepting dialed s mine e)
    (more : Chunks UInt8) (same : t.wire = s.wire) : Accepting (dialed ++ more) t mine e := by
  have sendId : t.sendId = s.sendId := congrArg (fun known => known.2.2.1) same
  have recvId : t.recvId = s.recvId := congrArg (fun known => known.2.2.2.1) same
  rcases accepting with waiting | ⟨begun, id, u, live, forth, back⟩
  · exact Or.inl waiting
  · refine Or.inr ⟨fun empty => begun (List.append_eq_nil_iff.mp empty).1, id, u, ?_, forth.trans sendId.symm, back.trans recvId.symm⟩
    refine ⟨live.held, live.own, live.sender, fun few => (live.receiver ?_).extend more⟩
    rw [List.length_append] at few
    omega

variable {w : Pair H}

theorem linked_dialer (linked : Linked w) (source : NetAddr) (action : Action)
    (kept : Keeps w.dialer (w.dialer.act host source w.listener.host.calls action)) :
    Linked { w with dialer := w.dialer.act host source w.listener.host.calls action } := by
  obtain ⟨dialed, accepted, id, s, live, paired, accepting⟩ := linked
  have honest : ∀ c ∈ w.listener.host.calls, c.taken = true → UtpSocket.Honest (!true) accepted s.recvId c.packet := by
    intro c listed taken
    rcases accepting with ⟨waiting, -⟩ | ⟨-, _, t, other, -, back⟩
    · rw [waiting.calls] at listed
      cases listed
    · rw [← back]
      exact other.sender.honest c listed taken
  have begun : ∀ c ∈ w.listener.host.calls, c.taken = true → true = true → dialed ≠ [] := by
    intro c listed _ _
    rcases accepting with ⟨waiting, -⟩ | ⟨some_chunk, -⟩
    · rw [waiting.calls] at listed
      cases listed
    · exact some_chunk
  obtain ⟨more, t, after, same⟩ := live.act action kept honest begun
  have sendId : t.sendId = s.sendId := congrArg (fun known => known.2.2.1) same
  have recvId : t.recvId = s.recvId := congrArg (fun known => known.2.2.2.1) same
  exact ⟨dialed ++ more, accepted, id, t, after, by rw [recvId, sendId, paired], accepting.extend more same⟩

theorem linked_listener (linked : Linked w) (source : NetAddr) (action : Action)
    (kept : Keeps w.listener (w.listener.act host source w.dialer.host.calls action)) :
    Linked { w with listener := w.listener.act host source w.dialer.host.calls action } := by
  obtain ⟨dialed, accepted, id, s, live, paired, accepting⟩ := linked
  rcases accepting with ⟨waiting, rfl⟩ | ⟨begun, listenerId, t, other, forth, back⟩
  · rcases waiting.act live.sender.honest action with still | ⟨begun, listenerId, t, other, forth, back⟩
    · exact ⟨dialed, [], id, s, live, paired, Or.inl ⟨still, rfl⟩⟩
    · exact ⟨dialed, [], id, s, live, paired, Or.inr ⟨begun, listenerId, t, other, forth, back.trans paired.symm⟩⟩
  · have honest : ∀ c ∈ w.dialer.host.calls, c.taken = true → UtpSocket.Honest (!false) dialed t.recvId c.packet := by
      rw [forth]
      exact live.sender.honest
    obtain ⟨more, u, after, same⟩ := other.act action kept honest (fun _ _ _ wrong => by cases wrong)
    have sendId : u.sendId = t.sendId := congrArg (fun known => known.2.2.1) same
    have recvId : u.recvId = t.recvId := congrArg (fun known => known.2.2.2.1) same
    refine ⟨dialed, accepted ++ more, id, s, ?_, paired,
      Or.inr ⟨begun, listenerId, u, after, recvId.trans forth, sendId.trans back⟩⟩
    refine ⟨live.held, live.own, live.sender, fun few => (live.receiver ?_).extend more⟩
    rw [List.length_append] at few
    omega

theorem linked_run {dialerAddr listenerAddr : NetAddr} (run : Run host dialerAddr listenerAddr w) : Linked w := by
  induction run with
  | start u v now idle free narrow dialed => exact linked_start u v idle free narrow dialed
  | dialer before action kept ih => exact linked_dialer ih listenerAddr action kept
  | listener before action kept ih => exact linked_listener ih dialerAddr action kept

theorem prefix_of_halves {dialed : Bool} {s t : UtpSocket} {given got : Bytes} {calls : List Call}
    (sender : UtpSocket.Sender dialed chunks s given calls) (receiver : UtpSocket.Receiver chunks t got) : got <+: given := by
  obtain ⟨count, -, -, read⟩ := receiver.inOrder
  calc got <+: got ++ t.recvBuf := List.prefix_append _ _
    _ = joined (chunks.take count) := read.symm
    _ <+: joined chunks := joined_take_isPrefix chunks count
    _ <+: joined chunks ++ s.sendBuf := List.prefix_append _ _
    _ = given := sender.conserved.symm

/-- In every run of one connection, over every network and every host, the bytes read on either side are a prefix
of the bytes accepted on the other while each side has handed fewer than 2^15 packets to its host. -/
theorem delivers_prefix {host : UdpHost H} {dialerAddr listenerAddr : NetAddr} {w : Pair H}
    (run : Run host dialerAddr listenerAddr w) (fewDialed : (packetsSent w.dialer.host.calls).card < 2 ^ 15)
    (fewAccepted : (packetsSent w.listener.host.calls).card < 2 ^ 15) :
    w.listener.got <+: w.dialer.given ∧ w.dialer.got <+: w.listener.given := by
  obtain ⟨dialed, accepted, id, s, live, -, accepting⟩ := linked_run run
  rcases accepting with ⟨waiting, rfl⟩ | ⟨-, _, t, other, -⟩
  · obtain ⟨count, -, -, read⟩ := (live.receiver (by simp)).inOrder
    rw [List.take_nil, joined_nil] at read
    have nothing : w.dialer.got = [] := (List.append_eq_nil_iff.mp read.symm).1
    rw [waiting.got, nothing]
    exact ⟨List.nil_prefix, List.nil_prefix⟩
  · have forth := other.receiver (live.sender.few fewDialed)
    have back := live.receiver (other.sender.few fewAccepted)
    exact ⟨prefix_of_halves live.sender forth, prefix_of_halves other.sender back⟩

/-! ### A short run -/

/-- Let the dialer (`true`) and the listener act in turn; `none` when a socket goes away. -/
def Pair.play (host : UdpHost H) (dialerAddr listenerAddr : NetAddr) : Pair H → List (Bool × Action) → Option (Pair H)
  | w, [] => some w
  | w, (true, action) :: rest =>
      let e := w.dialer.act host listenerAddr w.listener.host.calls action
      if w.dialer.manager.conns.keys.all e.manager.conns.contains then play host dialerAddr listenerAddr { w with dialer := e } rest
      else none
  | w, (false, action) :: rest =>
      let e := w.listener.act host dialerAddr w.dialer.host.calls action
      if w.listener.manager.conns.keys.all e.manager.conns.contains then play host dialerAddr listenerAddr { w with listener := e } rest
      else none

theorem keeps_of_keys {e f : Endpoint H} (all : e.manager.conns.keys.all f.manager.conns.contains = true) : Keeps e f := by
  intro id held
  exact List.all_eq_true.mp all id ((OrdMap.mem_keys_iff _ id).mpr ((OrdMap.contains_iff _ id).mp held))

theorem run_play {dialerAddr listenerAddr : NetAddr} (script : List (Bool × Action)) {w v : Pair H}
    (run : Run host dialerAddr listenerAddr w) (played : w.play host dialerAddr listenerAddr script = some v) :
    Run host dialerAddr listenerAddr v := by
  induction script generalizing w with
  | nil =>
    cases played
    exact run
  | cons turn rest ih =>
    obtain ⟨_ | _, action⟩ := turn
    · unfold Pair.play at played
      dsimp only at played
      split at played
      next all => exact ih (run.listener action (keeps_of_keys all)) played
      next => cases played
    · unfold Pair.play at played
      dsimp only at played
      split at played
      next all => exact ih (run.dialer action (keeps_of_keys all)) played
      next => cases played

def dialing : UtpManager := ((UtpManager.new.connect UtpManager.stranger 0).getD (0, UtpManager.new)).2

def dialed : Pair Unit := { dialer := { manager := dialing, host := ⟨(), []⟩ }, listener := { manager := .new, host := ⟨(), []⟩ } }

/-- Handshake, three bytes from the dialer, and the DATA packet delivered twice. -/
def script : List (Bool × Action) :=
  [(true, .tick 1), (false, .deliver 0 2), (true, .deliver 0 3), (true, .send 0x80000001 [1, 2, 3]), (true, .tick 4),
    (false, .deliver 1 5), (false, .deliver 1 6), (false, .recv 0x80000001 10)]

theorem delivers_prefix_of_script : ∃ w, Run UtpManager.taking UtpManager.peer UtpManager.stranger w ∧
    w.listener.got = [1, 2, 3] ∧ w.listener.got <+: w.dialer.given ∧ w.dialer.got <+: w.listener.given := by
  have started : Run UtpManager.taking UtpManager.peer UtpManager.stranger dialed :=
    .start () () 0 (rfl : UtpManager.new.conns = ∅) rfl (by decide)
      (by decide : UtpManager.new.connect UtpManager.stranger 0 = some (0x80000001, dialing))
  have ends : (dialed.play UtpManager.taking UtpManager.peer UtpManager.stranger script).map (fun w =>
      (w.listener.got, (packetsSent w.dialer.host.calls).card, (packetsSent w.listener.host.calls).card)) =
      some ([1, 2, 3], 2, 0) := by decide
  obtain ⟨w, played, shown⟩ := Option.map_eq_some_iff.mp ends
  have read : w.listener.got = [1, 2, 3] := congrArg Prod.fst shown
  have forth : (packetsSent w.dialer.host.calls).card = 2 := congrArg (fun counts => counts.2.1) shown
  have back : (packetsSent w.listener.host.calls).card = 0 := congrArg (fun counts => counts.2.2) shown
  have run := run_play script started played
  exact ⟨w, run, read, delivers_prefix run (by omega) (by omega)⟩

end TypeBit.Utp
