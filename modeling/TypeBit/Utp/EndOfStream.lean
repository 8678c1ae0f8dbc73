import TypeBit.Utp.Flushing

/-! The end of a uTP stream. A FIN marks the stream as ended when it arrives, whatever its sequence number, so a
reader sees the end too early whenever the FIN overtakes data. It sees it in time when the FIN comes in order. -/

namespace TypeBit.Utp
open UtpManager
open Option
open Chunks

namespace UtpSocket

/-! ### What a packet does to the reassembled stream -/

/-- A step that may only lengthen the stream to be read, and leaves the mark of the peer's FIN. -/
structure Hears (s t : UtpSocket) : Prop where
  stream : s.recvBuf <+: t.recvBuf
  fin : t.peerFin = s.peerFin

theorem Hears.of_eq {s t : UtpSocket} (stream : t.recvBuf = s.recvBuf) (fin : t.peerFin = s.peerFin) : s.Hears t :=
  ⟨stream ▸ List.prefix_refl _, fin⟩

theorem Hears.trans {s t u : UtpSocket} (first : s.Hears t) (second : t.Hears u) : s.Hears u :=
  ⟨first.stream.trans second.stream, second.fin.trans first.fin⟩

theorem hears_releases (acked : List Nat) (s : UtpSocket) : s.Hears (acked.foldl release s) := by
  induction acked generalizing s with
  | nil => exact .of_eq rfl rfl
  | cons seq rest ih =>
    rw [List.foldl_cons]
    apply Hears.trans _ (ih _)
    unfold release
    split
    · exact .of_eq rfl rfl
    · exact .of_eq rfl rfl

theorem hears_freeAcked (s : UtpSocket) (h : Header) (now : Nat) : s.Hears (s.freeAcked h now) := by
  unfold freeAcked
  split
  · exact .of_eq rfl rfl
  split
  · dsimp only
    have freed := hears_releases (s.unacked.keys.filter (fun seq => seqLe seq h.ackNr)) s
    generalize (s.unacked.keys.filter (fun seq => seqLe seq h.ackNr)).foldl release s = t at freed
    have updated : t.Hears (maybeUpdateWindow { t with peerWnd := h.wndSize } now) := by
      unfold maybeUpdateWindow
      split
      · exact .of_eq rfl rfl
      · exact .of_eq rfl rfl
    split
    · exact (freed.trans updated).trans (.of_eq rfl rfl)
    · exact freed.trans updated
  · exact .of_eq rfl rfl

theorem hears_onAck (s : UtpSocket) (h : Header) (now : Nat) : s.Hears (s.onAck h now) := by
  have timed : s.Hears (s.measure h now) := by
    unfold measure
    split
    · exact .of_eq rfl rfl
    · exact .of_eq rfl rfl
  unfold onAck
  apply Hears.trans _ (hears_freeAcked _ h now)
  split
  · exact timed.trans (.of_eq rfl rfl)
  · exact timed

theorem hears_drain (fuel : Nat) (s : UtpSocket) : s.Hears (drain fuel s) := by
  induction fuel generalizing s with
  | zero => exact .of_eq rfl rfl
  | succ fuel ih =>
    unfold drain
    dsimp only
    split
    next p _ =>
      apply Hears.trans _ (ih _)
      exact ⟨List.prefix_append s.recvBuf p, rfl⟩
    next => exact .of_eq rfl rfl

theorem hears_onData (s : UtpSocket) (h : Header) (payload : Bytes) : s.Hears (s.onData h payload) := by
  unfold onData
  split
  · exact .of_eq rfl rfl
  split
  · exact .of_eq rfl rfl
  split
  · exact .of_eq rfl rfl
  split
  · have drained := hears_drain s.oob.size { s with ackNr := h.seqNr, recvBuf := s.recvBuf ++ payload }
    have appended : s.Hears { s with ackNr := h.seqNr, recvBuf := s.recvBuf ++ payload } :=
      ⟨List.prefix_append s.recvBuf payload, rfl⟩
    exact (appended.trans drained).trans (.of_eq rfl rfl)
  · dsimp only
    split
    · exact .of_eq rfl rfl
    · exact .of_eq rfl rfl

theorem hears_absorb (s : UtpSocket) {h : Header} (other : h.ptype ≠ ST_FIN) (payload : Bytes) (now : Nat) :
    s.Hears (s.absorb h payload now) := by
  unfold absorb
  dsimp only
  split
  · split
    · exact .of_eq rfl rfl
    · exact .of_eq rfl rfl
  split
  · have stamped : s.Hears { s with lastActivity := now } := .of_eq rfl rfl
    exact stamped.trans (hears_onAck _ h now)
  split
  · have noted : s.Hears { s with lastActivity := now, lastRecvAt := now, lastDataTs := h.timestamp } := .of_eq rfl rfl
    exact (noted.trans (hears_onAck _ h now)).trans (hears_onData _ h payload)
  split
  · exact .of_eq rfl rfl
  · exact .of_eq rfl rfl

theorem absorb_fin (s : UtpSocket) {h : Header} (isFin : h.ptype = ST_FIN) (payload : Bytes) (now : Nat) :
    (s.absorb h payload now).peerFin = true ∧ (s.absorb h payload now).inbox = s.inbox := by
  have quiet := quiet_onAck { s with lastActivity := now, lastRecvAt := now } h now
  unfold absorb
  dsimp only
  rw [if_neg (by rw [isFin]; decide), if_neg (by rw [isFin]; decide), if_neg (by rw [isFin]; decide), if_pos isFin]
  exact ⟨rfl, quiet.inbox⟩

section Host
variable {H : Type} {host : UdpHost H}

theorem hears_onPacket (s : UtpSocket) {h : Header} (other : h.ptype ≠ ST_FIN) (payload : Bytes) (now : Nat) (w : H) :
    s.Hears (s.onPacket host h payload now w).1 := by
  have heard := hears_absorb s other payload now
  unfold onPacket
  dsimp only
  split
  · apply heard.trans
    unfold sendAck
    split
    · exact .of_eq rfl rfl
    · exact .of_eq rfl rfl
  · exact heard

theorem onPacket_fin (s : UtpSocket) {h : Header} (isFin : h.ptype = ST_FIN) (payload : Bytes) (now : Nat) (w : H) :
    (s.onPacket host h payload now w).1.inbox = s.inbox := by
  unfold onPacket
  dsimp only
  rw [if_neg]
  · exact (absorb_fin s isFin payload now).2
  · rw [isFin]
    exact fun both => absurd both.2.2 (by decide)

end Host

def Ended (cut : Option Bytes) (s : UtpSocket) (got : Bytes) : Prop := s.peerFin = true → cut = some (got ++ s.recvBuf)

theorem Receiver.whole {chunks : Chunks UInt8} {s : UtpSocket} {got : Bytes} (receiver : Receiver chunks s got)
    (few : chunks.length < 2 ^ 15) (next : chunks.length % 2 ^ 16 = wadd16 s.ackNr 1) : joined chunks = got ++ s.recvBuf := by
  obtain ⟨count, within, acked, read⟩ := receiver.inOrder
  have all : count = chunks.length := by
    rw [acked] at next
    unfold wadd16 at next
    omega
  rwa [all, List.take_length] at read

theorem Ended.onPacket {H : Type} {host : UdpHost H} {chunks : Chunks UInt8} {s : UtpSocket} {got : Bytes}
    {cut : Option Bytes} (ended : Ended cut s got) (receiver : Receiver chunks s got) (few : chunks.length < 2 ^ 15)
    {dialed : Bool} {sendId : Nat} {packet : Bytes} {h : Header} (honest : Honest dialed chunks sendId packet)
    (read : Header.decode packet = some h) (said : ∀ bytes, cut = some bytes → bytes = joined chunks)
    (fin : h.ptype = ST_FIN → cut = some (joined chunks) ∧ h.seqNr = chunks.length % 2 ^ 16)
    (inOrder : h.ptype = ST_FIN → s.peerFin = true ∨ h.seqNr = wadd16 s.ackNr 1) (now : Nat) (w : H) :
    Ended cut (s.onPacket host h (packet.drop HDR_LEN) now w).1 got := by
  intro marked
  by_cases isFin : h.ptype = ST_FIN
  · have same : (s.onPacket host h (packet.drop HDR_LEN) now w).1.recvBuf = s.recvBuf :=
      congrArg (fun half => half.2.1) (onPacket_fin s isFin (packet.drop HDR_LEN) now w)
    rw [same]
    rcases inOrder isFin with already | next
    · exact ended already
    · rw [(fin isFin).1, receiver.whole few ((fin isFin).2.symm.trans next)]
  · have heard : s.Hears (s.onPacket host h (packet.drop HDR_LEN) now w).1 := hears_onPacket s isFin _ now w
    have before := ended (heard.fin.symm.trans marked)
    -- Nothing can come after the whole stream: what is held only grows, and stays a beginning of it.
    have after : Receiver chunks (s.onPacket host h (packet.drop HDR_LEN) now w).1 got :=
      receiver.onPacket few honest read now w
    obtain ⟨count, -, -, taken⟩ := after.inOrder
    have grows : got ++ s.recvBuf <+: got ++ (s.onPacket host h (packet.drop HDR_LEN) now w).1.recvBuf :=
      (List.prefix_append_right_inj got).mpr heard.stream
    have bounded : got ++ (s.onPacket host h (packet.drop HDR_LEN) now w).1.recvBuf <+: got ++ s.recvBuf := by
      rw [← taken, said _ before]
      exact joined_take_isPrefix chunks count
    rw [before, List.IsPrefix.eq_of_length_le grows bounded.length_le]

/-! ### What a tick adds to the record -/

section Tick
variable {H : Type} {host : UdpHost H}

theorem calls_transmitLoop (fuel : Nat) (s : UtpSocket) (now : Nat) (w : Recorded H) :
    w.calls <+: (transmitLoop (recording host) fuel s now w).2.calls := by
  induction fuel generalizing s w with
  | zero => exact List.prefix_refl _
  | succ fuel ih =>
    unfold transmitLoop
    split
    · exact List.prefix_refl _
    split
    · exact List.prefix_refl _
    obtain ⟨answer, inner, sent⟩ := Sender.recorded host w s.addr (s.dataPacket now)
    rw [sent]
    cases answer with
    | ok done =>
      have later := ih (s.cut.launch s.nextSeq (s.dataPacket now) s.payload.length now)
        ⟨inner, w.calls ++ [⟨s.addr, s.dataPacket now, true⟩]⟩
      exact (List.prefix_append _ _).trans later
    | error e => exact List.prefix_append _ _

theorem calls_transmit (s : UtpSocket) (now : Nat) (w : Recorded H) :
    w.calls <+: (s.transmit (recording host) now w).2.calls := by
  unfold transmit
  split
  · exact List.prefix_refl _
  · exact calls_transmitLoop _ s now w

/-- A tick adds to the record and leaves the mark of the peer's FIN; a socket whose FIN is out packetises nothing,
and what sends the FIN does not either. -/
structure Emits (before after : UtpSocket × Recorded H) : Prop where
  calls : before.2.calls <+: after.2.calls
  queue : after.1.finSent = true → after.1.sendBuf = before.1.sendBuf
  peer : after.1.peerFin = before.1.peerFin

theorem Follows.emits {before after : UtpSocket × Recorded H} (follows : Follows before after) : Emits before after :=
  ⟨follows.calls, fun _ => follows.queue, follows.peer⟩

theorem emits_transmit (s : UtpSocket) (now : Nat) (w : Recorded H) : Emits (s, w) (s.transmit (recording host) now w) where
  calls := calls_transmit s now w
  queue := by
    intro ended
    have marked : s.finSent = true := (stays_transmit _ s now w).2.1.symm.trans ended
    unfold transmit
    rw [if_pos (Or.inr marked)]
  peer := (stays_transmit _ s now w).2.2

theorem emits_emit (s : UtpSocket) (now : Nat) (w : Recorded H) :
    Emits (s, w) (emit (recording host) s now w) := by
  rcases emit_cases host s now w with ⟨-, -, taken, inner, made⟩ | ⟨-, -, idle⟩
  · rw [made]
    exact ⟨List.prefix_append _ _, fun _ => rfl, rfl⟩
  · unfold emit at idle ⊢
    cases state : s.state with
    | synSent =>
      dsimp only
      split
      · exact (follows_sendSyn s now w).emits
      · exact (Follows.refl _).emits
    | connected => exact emits_transmit s now w
    | finSent =>
      rw [state] at idle
      rw [idle rfl]
      exact (Follows.refl _).emits
    | closed => exact (Follows.refl _).emits

theorem emits_driveSocket (s : UtpSocket) (now : Nat) (w : Recorded H) :
    Emits (s, w) (driveSocket (recording host) s now w) := by
  have first : Emits (s, w) (emit (recording host) s now w) := emits_emit s now w
  have rest : Follows (emit (recording host) s now w) (driveSocket (recording host) s now w) :=
    follows_driveSocket s now w
  refine ⟨first.calls.trans rest.calls, ?_, rest.peer.trans first.peer⟩
  intro ended
  rw [rest.queue]
  exact first.queue (rest.fin.symm.trans ended)

theorem calls_onPacket (s : UtpSocket) (h : Header) (payload : Bytes) (now : Nat) (w : Recorded H) :
    w.calls <+: (s.onPacket (recording host) h payload now w).2.calls := by
  unfold onPacket
  dsimp only
  split
  · have follows : Follows (s.absorb h payload now, w) ((s.absorb h payload now).sendAck (recording host) now w) :=
      follows_sendAck _ now w
    exact follows.calls
  · exact List.prefix_refl _

end Tick
end UtpSocket

/-! ### Two sides, and where each of them stopped -/

section Sides
variable {H : Type}

def isFin (packet : Bytes) : Bool :=
  match Header.decode packet with
  | some h => decide (h.ptype = ST_FIN)
  | none => false

def hasFin (calls : List Call) : Bool := calls.any fun c => isFin c.packet

def Endpoint.packetised (e : Endpoint H) : Bytes :=
  e.given.take (e.given.length - OrdMap.total (fun _ s => s.sendBuf.length) e.manager.conns)

/-- An endpoint and, once its FIN is out, the bytes that it packetised before. -/
structure Party (H : Type) extends Endpoint H where
  cut : Option Bytes := none

/-- A step notes the packetised bytes when it hands over the first FIN: `transmit` does nothing in a socket that is
closing, so the tick that sends the FIN packetises nothing. -/
def Party.act (host : UdpHost H) (p : Party H) (source : NetAddr) (sent : List Call) (action : Action) : Party H where
  toEndpoint := p.toEndpoint.act host source sent action
  cut := p.cut.or (if hasFin (p.toEndpoint.act host source sent action).host.calls then some p.packetised else none)

def EofByFin (p : Party H) (id : ConnId) (n : Nat) : Prop :=
  0 < n ∧ (p.manager.recv id n).1 = .ok [] ∧ ∃ s, p.manager.conns.get? id = some s ∧ s.state ≠ .closed

/-- A FIN is delivered to a socket only when it has the number after the last packet received in order, or when
the socket has had a FIN before. -/
def FinInOrder (m : UtpManager) (sent : List Call) : Action → Prop
  | .deliver index _ => ∀ c h, sent[index]? = some c → c.taken = true → Header.decode c.packet = some h →
      h.ptype = ST_FIN → ∀ id s, m.expecting h.connId = some (id, s) → s.peerFin = true ∨ h.seqNr = wadd16 s.ackNr 1
  | _ => True

/-- The runs of one connection, from a call of `connect` on, to any length: sockets may be reaped on either side.
The listener makes one socket only; a socket made for a late duplicate of the SYN is another connection. -/
inductive Talk (host : UdpHost H) (dialerAddr listenerAddr : NetAddr) (Ok : UtpManager → List Call → Action → Prop) :
    Party H → Party H → Prop
  | start {m dialing n : UtpManager} {id : ConnId} (u v : H) (now : Nat) (idle : m.conns = ∅) (free : n.conns = ∅)
      (narrow : m.nextSendId < 2 ^ 16) (dialed : m.connect listenerAddr now = some (id, dialing)) :
      Talk host dialerAddr listenerAddr Ok { manager := dialing, host := ⟨u, []⟩ } { manager := n, host := ⟨v, []⟩ }
  | dialer {p q : Party H} (before : Talk host dialerAddr listenerAddr Ok p q) (action : Action)
      (ok : Ok p.manager q.host.calls action) :
      Talk host dialerAddr listenerAddr Ok (p.act host listenerAddr q.host.calls action) q
  | listener {p q : Party H} (before : Talk host dialerAddr listenerAddr Ok p q) (action : Action)
      (ok : Ok q.manager p.host.calls action)
      (single : q.host.calls ≠ [] → ∀ id, (q.act host dialerAddr p.host.calls action).manager.conns.contains id = true →
        q.manager.conns.contains id = true) :
      Talk host dialerAddr listenerAddr Ok p (q.act host dialerAddr p.host.calls action)

/-! ### What an action does to a sole socket -/

inductive Effect (host : UdpHost H) (id : ConnId) (s : UtpSocket) (sent : List Call) (e f : Endpoint H) : Prop
  | idle (conns : f.manager.conns = sole id s) (recorded : f.host = e.host) (given : f.given = e.given)
      (got : f.got = e.got)
  | drive (now : Nat) (conns : f.manager.conns = ∅ ∨
        f.manager.conns = sole id (driveSocket (recording host) s now e.host).1)
      (recorded : f.host = (driveSocket (recording host) s now e.host).2) (given : f.given = e.given)
      (got : f.got = e.got)
  | packet (c : Call) (h : Header) (now : Nat) (listed : c ∈ sent) (taken : c.taken = true)
      (read : Header.decode c.packet = some h)
      (inOrder : h.ptype = ST_FIN → s.peerFin = true ∨ h.seqNr = wadd16 s.ackNr 1)
      (conns : f.manager.conns = sole id (s.onPacket (recording host) h (c.packet.drop HDR_LEN) now e.host).1)
      (recorded : f.host = (s.onPacket (recording host) h (c.packet.drop HDR_LEN) now e.host).2)
      (given : f.given = e.given) (got : f.got = e.got)
  | queue (data : Bytes) (conns : f.manager.conns = sole id (s.enqueue data)) (recorded : f.host = e.host)
      (given : f.given = e.given ++ data) (got : f.got = e.got)
  | read (k : Nat) (conns : f.manager.conns = sole id (s.consume k)) (recorded : f.host = e.host)
      (given : f.given = e.given) (got : f.got = e.got ++ s.recvBuf.take k)
  | close (conns : f.manager.conns = sole id { s with state := if s.isConnected then .finSent else .closed })
      (recorded : f.host = e.host) (given : f.given = e.given) (got : f.got = e.got)

theorem only_sole {m : UtpManager} {id j : ConnId} {s t : UtpSocket} (held : m.conns = sole id s)
    (found : m.conns.get? j = some t) : id = j ∧ s = t := by
  rw [held, get?_sole] at found
  split at found
  next same => exact ⟨same, some.inj found⟩
  next => cases found

variable {id : ConnId} {action : Action}

theorem effect_act {host : UdpHost H} {s : UtpSocket} {e : Endpoint H} (held : e.manager.conns = sole id s)
    (own : s.handle = id) {source : NetAddr} {sent : List Call}
    (mine : ∀ c ∈ sent, c.taken = true → ∃ h, Header.decode c.packet = some h ∧ h.connId = s.recvId)
    (ok : FinInOrder e.manager sent action) : Effect host id s sent e (e.act host source sent action) := by
  have found : e.manager.conns.get? id = some s := by rw [held, get?_sole, if_pos rfl]
  cases action with
  | tick now =>
    have keys : e.manager.conns.keys = [id] := by rw [held]; rfl
    have drives : e.manager.tick (recording host) now e.host =
        tickOne (recording host) now (e.manager, e.host) id := by
      rw [tick, keys]
      rfl
    unfold Endpoint.act
    dsimp only
    rw [drives]
    unfold tickOne
    simp only [found]
    split
    · refine .drive now (Or.inl ?_) rfl rfl rfl
      show e.manager.conns.erase id = ∅
      ext j : 1
      rw [held, OrdMap.get?_erase, get?_sole]
      split
      · rfl
      · rfl
    · refine .drive now (Or.inr ?_) rfl rfl rfl
      show e.manager.conns.insert id _ = _
      rw [held, insert_sole]
  | deliver index now =>
    unfold Endpoint.act
    dsimp only
    split
    next addr packet here =>
      have listed := List.mem_of_getElem? here
      obtain ⟨h, read, expected⟩ := mine _ listed rfl
      have looked : e.manager.expecting h.connId = some (id, s) := by
        unfold expecting
        rw [held, expected]
        show [(id, s)].find? _ = some (id, s)
        simp
      have there : e.manager.conns.get? s.handle = some s := by rw [own, found]
      unfold handleDatagram
      simp only [read, looked, there]
      refine .packet _ h now listed rfl read (fun isFin => ok _ h here rfl read isFin id s looked) ?_ rfl rfl rfl
      show e.manager.conns.insert s.handle _ = _
      rw [held, own, insert_sole]
    next => exact .idle held rfl rfl rfl
  | send target data =>
    unfold Endpoint.act
    dsimp only
    rcases e.manager.send_cases target data with refused | ⟨t, there, queued⟩
    · rw [refused]
      exact .idle held rfl rfl rfl
    · obtain ⟨rfl, rfl⟩ := only_sole held there
      rw [queued]
      refine .queue data ?_ rfl ?_ rfl
      · show e.manager.conns.insert id _ = _
        rw [held, insert_sole]
      · show e.given ++ data.take data.length = _
        rw [List.take_length]
  | recv target n =>
    unfold Endpoint.act
    dsimp only
    rcases e.manager.recv_cases target n with ⟨problem, refused⟩ | empty | ⟨t, k, there, taken⟩
    · rw [refused]
      exact .idle held rfl rfl rfl
    · rw [empty]
      exact .idle held rfl rfl (List.append_nil _)
    · obtain ⟨rfl, rfl⟩ := only_sole held there
      rw [taken]
      refine .read k ?_ rfl rfl rfl
      show e.manager.conns.insert id _ = _
      rw [held, insert_sole]
  | close target =>
    unfold Endpoint.act close OrdMap.modify
    dsimp only
    rw [held, get?_sole]
    by_cases here : id = target
    · subst here
      rw [if_pos rfl]
      exact .close (insert_sole id s _) rfl rfl rfl
    · rw [if_neg here]
      exact .idle rfl rfl rfl rfl
  | takeAccepted => exact .idle held rfl rfl rfl
  | takeReaped => exact .idle held rfl rfl rfl

/-! ### What each side has said and heard -/

open UtpSocket in
structure Spoken (dialed : Bool) (mine : Chunks UInt8) (sendId : Nat) (p : Party H) : Prop where
  honest : ∀ c ∈ p.host.calls, c.taken = true → Honest dialed mine sendId c.packet
  fins : ∀ c ∈ p.host.calls, ∀ h, Header.decode c.packet = some h → h.ptype = ST_FIN → h.seqNr = mine.length % 2 ^ 16
  used : ∀ i < mine.length, i % 2 ^ 16 ∈ packetsSent p.host.calls
  stopped : p.cut = if hasFin p.host.calls then some (joined mine) else none

/-- A side with its socket. -/
structure Present (dialed : Bool) (mine theirs : Chunks UInt8) (cut : Option Bytes) (id : ConnId) (s : UtpSocket)
    (p : Party H) : Prop where
  held : p.manager.conns = sole id s
  own : s.handle = id
  sender : UtpSocket.Sender dialed mine s p.given p.host.calls
  /-- While the numbers of the other side do not wrap. -/
  receiver : theirs.length < 2 ^ 15 → UtpSocket.Receiver theirs s p.got
  ended : theirs.length < 2 ^ 15 → UtpSocket.Ended cut s p.got

structure Side (dialed : Bool) (mine theirs : Chunks UInt8) (cut : Option Bytes) (sendId recvId : Nat) (p : Party H) :
    Prop where
  spoken : Spoken dialed mine sendId p
  socket : p.manager.conns = ∅ ∨ ∃ id s, Present dialed mine theirs cut id s p ∧ s.sendId = sendId ∧ s.recvId = recvId

theorem hasFin_iff (calls : List Call) :
    hasFin calls = true ↔ ∃ c ∈ calls, ∃ h, Header.decode c.packet = some h ∧ h.ptype = ST_FIN := by
  unfold hasFin isFin
  rw [List.any_eq_true]
  constructor
  · intro ⟨c, listed, fin⟩
    split at fin
    next h read => exact ⟨c, listed, h, read, of_decide_eq_true fin⟩
    next => cases fin
  · intro ⟨c, listed, h, read, fin⟩
    refine ⟨c, listed, ?_⟩
    rw [read]
    exact decide_eq_true fin

theorem hasFin_mono {calls more : List Call} (grows : calls <+: more) (fin : hasFin calls = true) : hasFin more = true := by
  obtain ⟨c, listed, rest⟩ := (hasFin_iff calls).mp fin
  exact (hasFin_iff more).mpr ⟨c, grows.subset listed, rest⟩

variable {dialed : Bool} {mine : Chunks UInt8} {sendId : Nat}

theorem Spoken.few {p : Party H} (spoken : Spoken dialed mine sendId p)
    (few : (packetsSent p.host.calls).card < 2 ^ 15) : mine.length < 2 ^ 15 :=
  lt_of_used spoken.used few

theorem Spoken.said {p : Party H} (spoken : Spoken dialed mine sendId p) :
    ∀ bytes, p.cut = some bytes → bytes = joined mine := by
  intro bytes cut
  rw [spoken.stopped] at cut
  split at cut
  · exact (some.inj cut).symm
  · cases cut

theorem Spoken.fin {p : Party H} (spoken : Spoken dialed mine sendId p)
    {c : Call} (listed : c ∈ p.host.calls) {h : Header} (read : Header.decode c.packet = some h) (isFin : h.ptype = ST_FIN) :
    p.cut = some (joined mine) ∧ h.seqNr = mine.length % 2 ^ 16 := by
  have some_fin : hasFin p.host.calls = true := (hasFin_iff _).mpr ⟨c, listed, h, read, isFin⟩
  rw [spoken.stopped, if_pos some_fin]
  exact ⟨rfl, spoken.fins c listed h read isFin⟩

theorem packetised_sole {s : UtpSocket} {e : Endpoint H}
    (held : e.manager.conns = sole id s) (conserved : e.given = joined mine ++ s.sendBuf) : e.packetised = joined mine := by
  have queued : OrdMap.total (fun _ s => s.sendBuf.length) e.manager.conns = s.sendBuf.length := by
    rw [held]
    exact Nat.add_zero _
  unfold Endpoint.packetised
  rw [queued, conserved, List.length_append, Nat.add_sub_cancel]
  exact List.take_left

section Step
variable {host : UdpHost H} {dialed : Bool} {mine theirs more : Chunks UInt8} {sendId recvId : Nat} {p q : Party H}
  {source : NetAddr} {sent : List Call} {action : Action}

theorem Spoken.act (spoken : Spoken dialed mine sendId p) {t : UtpSocket} {given : Bytes}
    (sender : UtpSocket.Sender dialed (mine ++ more) t given (p.act host source sent action).host.calls)
    (same : t.sendId = sendId) (grows : p.host.calls <+: (p.act host source sent action).host.calls)
    (packetised : p.packetised = joined mine)
    (quiet : hasFin (p.act host source sent action).host.calls = true → joined more = []) :
    Spoken dialed (mine ++ more) sendId (p.act host source sent action) where
  honest := same ▸ sender.honest
  fins c listed h read isFin := (sender.fins c listed h read isFin).2
  used i below := sender.used i (Nat.lt_add_right _ below)
  stopped := by
    show p.cut.or (if hasFin (p.act host source sent action).host.calls then some p.packetised else none) = _
    rw [spoken.stopped, packetised]
    by_cases after : hasFin (p.act host source sent action).host.calls = true
    · rw [if_pos after, if_pos after, joined_append, quiet after, List.append_nil]
      split
      · rfl
      · rfl
    · rw [if_neg after, if_neg after, if_neg (fun before => after (hasFin_mono grows before))]
      rfl

theorem Present.settle {cut later : Option Bytes} {id : ConnId} {s t : UtpSocket} (present : Present dialed mine theirs cut id s p)
    (spoken : Spoken dialed mine s.sendId p)
    (conns : (p.act host source sent action).manager.conns = ∅ ∨ (p.act host source sent action).manager.conns = sole id t)
    (wire : t.wire = s.wire)
    (sender : UtpSocket.Sender dialed (mine ++ more) t (p.act host source sent action).given
      (p.act host source sent action).host.calls)
    (receiver : theirs.length < 2 ^ 15 → UtpSocket.Receiver theirs t (p.act host source sent action).got)
    (ended : theirs.length < 2 ^ 15 → UtpSocket.Ended later t (p.act host source sent action).got)
    (grows : p.host.calls <+: (p.act host source sent action).host.calls)
    (quiet : hasFin (p.act host source sent action).host.calls = true → joined more = []) :
    Side dialed (mine ++ more) theirs later s.sendId s.recvId (p.act host source sent action) ∧
      p.host.calls <+: (p.act host source sent action).host.calls := by
  have handle : t.handle = s.handle := congrArg Prod.fst wire
  have sendId : t.sendId = s.sendId := congrArg (fun known => known.2.2.1) wire
  have recvId : t.recvId = s.recvId := congrArg (fun known => known.2.2.2.1) wire
  refine ⟨⟨spoken.act sender sendId grows (packetised_sole present.held present.sender.conserved) quiet, ?_⟩, grows⟩
  rcases conns with gone | held
  · exact Or.inl gone
  · exact Or.inr ⟨id, t, ⟨held, handle.trans present.own, sender, receiver, ended⟩, sendId, recvId⟩

theorem Present.act {id : ConnId} {s : UtpSocket} (present : Present dialed mine theirs q.cut id s p)
    (spoken : Spoken dialed mine s.sendId p) (other : Spoken (!dialed) theirs s.recvId q)
    (begun : q.host.calls ≠ [] → dialed = true → mine ≠ []) (ok : FinInOrder p.manager q.host.calls action) :
    ∃ more, Side dialed (mine ++ more) theirs q.cut s.sendId s.recvId (p.act host source q.host.calls action) ∧
      p.host.calls <+: (p.act host source q.host.calls action).host.calls := by
  have named : ∀ c ∈ q.host.calls, c.taken = true → ∃ h, Header.decode c.packet = some h ∧ h.connId = s.recvId := by
    intro c listed taken
    obtain ⟨h, read, expected, -⟩ := other.honest c listed taken
    exact ⟨h, read, expected⟩
  have effect : Effect host id s q.host.calls p.toEndpoint (p.act host source q.host.calls action).toEndpoint :=
    effect_act present.held present.own named ok
  have nothing : hasFin (p.act host source q.host.calls action).host.calls = true → joined ([] : Chunks UInt8) = [] :=
    fun _ => rfl
  cases effect with
  | idle conns recorded given got =>
    refine ⟨[], present.settle spoken (Or.inr conns) rfl ?_ ?_ ?_ ?_ nothing⟩
    · rw [given, recorded, List.append_nil]
      exact present.sender
    · rw [got]
      exact present.receiver
    · rw [got]
      exact present.ended
    · rw [recorded]
  | drive now conns recorded given got =>
    obtain ⟨more, sender⟩ : UtpSocket.Sender.Grown dialed mine p.given
      (driveSocket (recording host) s now p.host) := present.sender.driveSocket now
    have framed := sends_driveSocket (recording host) s now p.host
    have emits : UtpSocket.Emits (s, p.host) (driveSocket (recording host) s now p.host) :=
      UtpSocket.emits_driveSocket s now p.host
    have recvBuf : (driveSocket (recording host) s now p.host).1.recvBuf = s.recvBuf :=
      congrArg (fun half => half.2.1) framed.inbox
    refine ⟨more, present.settle spoken conns framed.wire ?_ ?_ ?_ ?_ ?_⟩
    · rw [given, recorded]
      exact sender
    · rw [got]
      exact fun few => (present.receiver few).keep framed.inbox
    · rw [got]
      intro few marked
      rw [recvBuf]
      exact present.ended few (emits.peer.symm.trans marked)
    · rw [recorded]
      exact emits.calls
    · intro fin
      rw [recorded] at fin
      obtain ⟨c, listed, h, read, isFin⟩ := (hasFin_iff _).mp fin
      have queue := emits.queue (sender.fins c listed h read isFin).1
      have after := sender.conserved
      rw [queue, joined_append, List.append_assoc] at after
      have same := List.append_cancel_left (present.sender.conserved.symm.trans after)
      exact List.append_left_eq_self.mp same.symm
  | packet c h now listed taken read inOrder conns recorded given got =>
    have fair := other.honest c listed taken
    have wire := (UtpSocket.receives_onPacket (recording host) s h (c.packet.drop HDR_LEN) now p.host).1.wire
    refine ⟨[], present.settle spoken (Or.inr conns) wire ?_ ?_ ?_ ?_ nothing⟩
    · rw [given, recorded, List.append_nil]
      exact present.sender.heard (begun (List.ne_nil_of_mem listed)) h _ now
    · rw [got]
      exact fun few => (present.receiver few).onPacket few fair read now p.host
    · rw [got]
      exact fun few => (present.ended few).onPacket (present.receiver few) few fair read other.said
        (other.fin listed read) inOrder now p.host
    · rw [recorded]
      exact UtpSocket.calls_onPacket s h _ now p.host
  | queue data conns recorded given got =>
    refine ⟨[], present.settle spoken (Or.inr conns) rfl ?_ ?_ ?_ ?_ nothing⟩
    · rw [given, recorded, List.append_nil]
      refine { present.sender with conserved := ?_ }
      show p.given ++ data = joined mine ++ (s.sendBuf ++ data)
      rw [present.sender.conserved, List.append_assoc]
    · rw [got]
      exact fun few => (present.receiver few).keep rfl
    · rw [got]
      exact present.ended
    · rw [recorded]
  | read k conns recorded given got =>
    have split_read : p.got ++ s.recvBuf.take k ++ (s.consume k).recvBuf = p.got ++ s.recvBuf := by
      show p.got ++ s.recvBuf.take k ++ s.recvBuf.drop k = _
      rw [List.append_assoc, List.take_append_drop]
    refine ⟨[], present.settle spoken (Or.inr conns) rfl ?_ ?_ ?_ ?_ nothing⟩
    · rw [given, recorded, List.append_nil]
      exact present.sender.keep ⟨rfl, rfl, .of_eq rfl, fun early => early⟩ present.sender.unopened
    · rw [got]
      intro few
      obtain ⟨count, within, acked, read⟩ := (present.receiver few).inOrder
      exact ⟨⟨count, within, acked, read.trans split_read.symm⟩, (present.receiver few).stored⟩
    · rw [got]
      intro few marked
      rw [split_read]
      exact present.ended few marked
    · rw [recorded]
  | close conns recorded given got =>
    refine ⟨[], present.settle spoken (Or.inr conns) rfl ?_ ?_ ?_ ?_ nothing⟩
    · rw [given, recorded, List.append_nil]
      exact present.sender.close
    · rw [got]
      exact fun few => (present.receiver few).keep rfl
    · rw [got]
      exact present.ended
    · rw [recorded]

structure Idle (e f : Endpoint H) : Prop where
  empty : f.manager.conns = ∅
  recorded : f.host = e.host
  given : f.given = e.given
  got : f.got = e.got

theorem empty_act {e : Endpoint H} (empty : e.manager.conns = ∅) : Idle e (e.act host source sent action) ∨
    ∃ c ∈ sent, c.taken = true ∧ ∃ h now, Header.decode c.packet = some h ∧ h.ptype = ST_SYN ∧
      e.act host source sent action = { e with
        manager := (acceptSyn (recording host) e.manager source h now e.host).1
        host := (acceptSyn (recording host) e.manager source h now e.host).2 } := by
  have absent : ∀ id, e.manager.conns.get? id = none := by
    intro id
    rw [empty]
    rfl
  cases action with
  | tick now =>
    have idle : e.manager.tick (recording host) now e.host = (e.manager, e.host) := by
      unfold tick
      rw [empty]
      rfl
    unfold Endpoint.act
    dsimp only
    rw [idle]
    exact Or.inl ⟨empty, rfl, rfl, rfl⟩
  | deliver index now =>
    unfold Endpoint.act
    dsimp only
    split
    next addr packet found =>
      unfold handleDatagram
      cases read : Header.decode packet with
      | none => exact Or.inl ⟨empty, rfl, rfl, rfl⟩
      | some h =>
        have unexpected : e.manager.expecting h.connId = none := by
          unfold expecting
          rw [empty]
          rfl
        simp only [unexpected]
        by_cases isSyn : h.ptype = ST_SYN
        · rw [if_pos isSyn]
          exact Or.inr ⟨_, List.mem_of_getElem? found, rfl, h, now, read, isSyn, rfl⟩
        · rw [if_neg isSyn]
          exact Or.inl ⟨empty, rfl, rfl, rfl⟩
    next => exact Or.inl ⟨empty, rfl, rfl, rfl⟩
  | send id data =>
    unfold Endpoint.act send
    simp only [absent id]
    exact Or.inl ⟨empty, rfl, rfl, rfl⟩
  | recv id n =>
    unfold Endpoint.act recv
    simp only [absent id]
    exact Or.inl ⟨empty, rfl, rfl, List.append_nil _⟩
  | close id =>
    unfold Endpoint.act close OrdMap.modify
    simp only [absent id]
    exact Or.inl ⟨empty, rfl, rfl, rfl⟩
  | takeAccepted => exact Or.inl ⟨empty, rfl, rfl, rfl⟩
  | takeReaped => exact Or.inl ⟨empty, rfl, rfl, rfl⟩

theorem Side.idle {cut : Option Bytes} (side : Side dialed mine theirs cut sendId recvId p)
    (idle : Idle p.toEndpoint (p.act host source sent action).toEndpoint) :
    Side dialed mine theirs cut sendId recvId (p.act host source sent action) := by
  have spoken := side.spoken
  refine ⟨⟨?_, ?_, ?_, ?_⟩, Or.inl idle.empty⟩
  · rw [idle.recorded]
    exact spoken.honest
  · rw [idle.recorded]
    exact spoken.fins
  · rw [idle.recorded]
    exact spoken.used
  · show p.cut.or (if hasFin (p.act host source sent action).host.calls then some p.packetised else none) = _
    rw [idle.recorded, spoken.stopped]
    split
    · rfl
    · rfl

theorem Side.heard {cut : Option Bytes} (side : Side dialed mine theirs cut sendId recvId p) (more : Chunks UInt8)
    (other : Option Bytes) : Side dialed mine (theirs ++ more) (cut.or other) sendId recvId p := by
  refine ⟨side.spoken, side.socket.imp id ?_⟩
  intro ⟨id, s, present, forth, back⟩
  have fewer : (theirs ++ more).length < 2 ^ 15 → theirs.length < 2 ^ 15 := by
    rw [List.length_append]
    omega
  refine ⟨id, s, ⟨present.held, present.own, present.sender, ?_, ?_⟩, forth, back⟩
  · exact fun few => (present.receiver (fewer few)).extend more
  · intro few marked
    rw [present.ended (fewer few) marked]
    rfl

theorem spoken_waiting (waiting : Waiting p.toEndpoint) (unstopped : p.cut = none) (dialed : Bool) (sendId : Nat) :
    Spoken dialed [] sendId p := by
  refine ⟨?_, ?_, fun _ below => absurd below (Nat.not_lt_zero _), ?_⟩
  · simp [waiting.calls]
  · simp [waiting.calls]
  · rw [unstopped, waiting.calls]
    rfl

theorem side_acceptSyn (waiting : Waiting q.toEndpoint) (unstopped : q.cut = none) {chunks : Chunks UInt8} {h : Header}
    (zero : h.seqNr = 0) (first : chunks[0]? = some (some [])) {now : Nat} (cut : Option Bytes)
    (made : q.toEndpoint.act host source sent action = { q.toEndpoint with
      manager := (acceptSyn (recording host) q.manager source h now q.host).1
      host := (acceptSyn (recording host) q.manager source h now q.host).2 }) :
    Idle q.toEndpoint (q.act host source sent action).toEndpoint ∨ (q.act host source sent action).host.calls ≠ [] ∧
      Side false [] chunks cut (wadd16 h.connId 1) h.connId (q.act host source sent action) := by
  unfold acceptSyn at made
  split at made
  · left
    show Idle q.toEndpoint (q.toEndpoint.act host source sent action)
    rw [made]
    exact ⟨waiting.empty, rfl, rfl, rfl⟩
  next id m found =>
    right
    have manager : (q.act host source sent action).manager.conns =
        m.conns.insert id ((inbound id source h now).sendAck (recording host) now q.host).1 :=
      congrArg (fun e => e.manager.conns) made
    have recorded : (q.act host source sent action).host =
        ((inbound id source h now).sendAck (recording host) now q.host).2 := congrArg (fun e => e.host) made
    have given : (q.act host source sent action).given = q.given := congrArg (fun e => e.given) made
    have got : (q.act host source sent action).got = q.got := congrArg (fun e => e.got) made
    have sends := UtpSocket.sends_sendAck (recording host) (inbound id source h now) now q.host
    have follows : UtpSocket.Follows (inbound id source h now, q.host)
      ((inbound id source h now).sendAck (recording host) now q.host) := UtpSocket.follows_sendAck _ now q.host
    have sender : UtpSocket.Sender false [] ((inbound id source h now).sendAck (recording host) now q.host).1
        q.given ((inbound id source h now).sendAck (recording host) now q.host).2.calls := by
      apply UtpSocket.Sender.sendAck
      rw [waiting.given, waiting.calls]
      exact UtpSocket.sender_inbound id source h now
    have received : UtpSocket.Receiver chunks (inbound id source h now) q.got := by
      refine ⟨⟨1, (List.getElem?_eq_some_iff.mp first).1, zero, ?_⟩, fun _ _ none_yet => by cases none_yet⟩
      rw [joined_take_succ first, waiting.got]
      rfl
    have spoken : Spoken false [] (wadd16 h.connId 1) q := spoken_waiting waiting unstopped _ _
    have sendId : ((inbound id source h now).sendAck (recording host) now q.host).1.sendId = wadd16 h.connId 1 :=
      congrArg (fun known => known.2.2.1) sends.wire
    have recvId : ((inbound id source h now).sendAck (recording host) now q.host).1.recvId = h.connId :=
      congrArg (fun known => known.2.2.2.1) sends.wire
    refine ⟨?_, ?_, Or.inr ⟨id, _, ⟨?_, congrArg Prod.fst sends.wire, ?_, ?_, ?_⟩, sendId, recvId⟩⟩
    · rw [recorded]
      obtain ⟨answer, inner, told⟩ := UtpSocket.Sender.recorded host q.host (inbound id source h now).addr
        ((inbound id source h now).buildPacket ST_STATE (inbound id source h now).nextSeq
          (inbound id source h now).ackNr [] now)
      unfold UtpSocket.sendAck
      rw [told]
      cases answer with
      | ok done => exact List.append_ne_nil_of_right_ne_nil _ (List.cons_ne_nil _ _)
      | error e => exact List.append_ne_nil_of_right_ne_nil _ (List.cons_ne_nil _ _)
    · have after : UtpSocket.Sender false ([] ++ []) _ q.given (q.act host source sent action).host.calls := recorded ▸ sender
      refine spoken.act after sendId ?_ ?_ (fun _ => rfl)
      · rw [waiting.calls]
        exact List.nil_prefix
      · unfold Endpoint.packetised
        rw [waiting.given]
        exact List.take_nil
    · rw [manager, (allocHandle_spec found).2, waiting.empty]
      rfl
    · rw [given, recorded]
      exact sender
    · rw [got]
      exact fun _ => received.keep sends.inbox
    · intro _ marked
      cases follows.peer.symm.trans marked

end Step

/-! ### The connection -/

def Answering (dialed accepted : Chunks UInt8) (sendId : Nat) (p q : Party H) : Prop :=
  Waiting q.toEndpoint ∧ q.cut = none ∧ accepted = [] ∨
    q.host.calls ≠ [] ∧ dialed ≠ [] ∧ Side false accepted dialed p.cut (wadd16 sendId 1) sendId q

def Conversing (p q : Party H) : Prop :=
  ∃ dialed accepted sendId, Side true dialed accepted q.cut sendId (wadd16 sendId 1) p ∧ Answering dialed accepted sendId p q

variable {host : UdpHost H} {dialerAddr listenerAddr : NetAddr} {p q : Party H}

theorem Answering.spoken {dialed accepted : Chunks UInt8} (answering : Answering dialed accepted sendId p q) :
    Spoken false accepted (wadd16 sendId 1) q := by
  rcases answering with ⟨waiting, unstopped, rfl⟩ | ⟨-, -, side⟩
  · exact spoken_waiting waiting unstopped _ _
  · exact side.spoken

theorem conversing_start {m dialing n : UtpManager} {addr : NetAddr} {now : Nat} (u v : H)
    (idle : m.conns = ∅) (free : n.conns = ∅) (narrow : m.nextSendId < 2 ^ 16)
    (dialed : m.connect addr now = some (id, dialing)) :
    Conversing ({ manager := dialing, host := ⟨u, []⟩ } : Party H) { manager := n, host := ⟨v, []⟩ } := by
  unfold connect at dialed
  obtain ⟨⟨handle, next⟩, found, rest⟩ := bind_eq_some_iff.mp dialed
  have same := (allocHandle_spec found).2
  have sendId : next.nextSendId = m.nextSendId := by
    unfold allocHandle at found
    have empty : m.conns.contains (UTP_HANDLE_FLAG ||| m.nextHandle) = false := by rw [idle]; rfl
    simp only [empty] at found
    cases found
    rfl
  have narrow : next.nextSendId < 2 ^ 16 := sendId ▸ narrow
  cases rest
  have sender := UtpSocket.sender_dialed id addr narrow (wadd16 next.nextSendId 1) now
  refine ⟨[], [], next.nextSendId, ⟨⟨by simp, by simp, by simp, rfl⟩, Or.inr ⟨id, _, ⟨?_, rfl, sender, ?_, ?_⟩, rfl, rfl⟩⟩,
    Or.inl ⟨⟨free, rfl, rfl, rfl⟩, rfl, rfl⟩⟩
  · show next.conns.insert id _ = _
    rw [same, idle]
    rfl
  · exact fun _ => ⟨⟨0, Nat.le_refl 0, rfl, rfl⟩, fun _ _ none_yet => by cases none_yet⟩
  · intro _ marked
    cases marked

theorem conversing_dialer (conversing : Conversing p q) (source : NetAddr)
    (ok : FinInOrder p.manager q.host.calls action) : Conversing (p.act host source q.host.calls action) q := by
  obtain ⟨dialed, accepted, sendId, side, answering⟩ := conversing
  have spoken := answering.spoken
  have begun : q.host.calls ≠ [] → true = true → dialed ≠ [] := by
    intro answered _
    rcases answering with ⟨waiting, -⟩ | ⟨-, begun, -⟩
    · exact absurd waiting.calls answered
    · exact begun
  have next : ∃ more, Side true (dialed ++ more) accepted q.cut sendId (wadd16 sendId 1)
      (p.act host source q.host.calls action) := by
    rcases side.socket with gone | ⟨id, s, present, rfl, back⟩
    · rcases empty_act gone with idle | ⟨c, listed, taken, h, now, read, isSyn, -⟩
      · refine ⟨[], ?_⟩
        rw [List.append_nil]
        exact side.idle idle
      · -- The listener sends no SYN.
        obtain ⟨g, again, -, -, syn⟩ := spoken.honest c listed taken
        cases read.symm.trans again
        cases (syn isSyn).1
    · rw [← back] at spoken ⊢
      obtain ⟨more, after, -⟩ : ∃ more, Side true (dialed ++ more) accepted q.cut s.sendId s.recvId
        (p.act host source q.host.calls action) ∧ _ := present.act side.spoken spoken begun ok
      exact ⟨more, after⟩
  obtain ⟨more, after⟩ := next
  refine ⟨dialed ++ more, accepted, sendId, after, ?_⟩
  rcases answering with waiting | ⟨answered, begun, other⟩
  · exact Or.inl waiting
  · exact Or.inr ⟨answered, fun empty => begun (List.append_eq_nil_iff.mp empty).1, other.heard more _⟩

theorem answered_idle {source : NetAddr} {sent : List Call} (gone : q.manager.conns = ∅)
    (single : ∀ id, (q.act host source sent action).manager.conns.contains id = true → q.manager.conns.contains id = true) :
    Idle q.toEndpoint (q.act host source sent action).toEndpoint := by
  rcases empty_act gone with idle | ⟨c, listed, taken, h, now, read, isSyn, made⟩
  · exact idle
  · show Idle q.toEndpoint (q.toEndpoint.act host source sent action)
    unfold acceptSyn at made
    split at made
    · rw [made]
      exact ⟨gone, rfl, rfl, rfl⟩
    next id m found =>
      have conns : (q.act host source sent action).manager.conns =
          m.conns.insert id ((inbound id source h now).sendAck (recording host) now q.host).1 :=
        congrArg (fun e => e.manager.conns) made
      have there : (q.act host source sent action).manager.conns.contains id = true := by
        rw [conns, OrdMap.contains_iff]
        exact ⟨_, OrdMap.get?_insert_self _ _ _⟩
      have before := single id there
      rw [gone] at before
      cases before

theorem conversing_listener (conversing : Conversing p q) (source : NetAddr) (ok : FinInOrder q.manager p.host.calls action)
    (single : q.host.calls ≠ [] → ∀ id, (q.act host source p.host.calls action).manager.conns.contains id = true →
      q.manager.conns.contains id = true) : Conversing p (q.act host source p.host.calls action) := by
  obtain ⟨dialed, accepted, sendId, side, answering⟩ := conversing
  rcases answering with ⟨waiting, unstopped, rfl⟩ | ⟨answered, begun, other⟩
  · -- Still waiting, or the SYN has come.
    have heard := side.heard [] (if hasFin (q.act host source p.host.calls action).host.calls then some q.packetised else none)
    rw [List.append_nil] at heard
    have still : Idle q.toEndpoint (q.act host source p.host.calls action).toEndpoint →
        Conversing p (q.act host source p.host.calls action) := by
      intro idle
      have calls : (q.act host source p.host.calls action).host.calls = [] := by rw [idle.recorded, waiting.calls]
      refine ⟨dialed, [], sendId, heard, Or.inl ⟨⟨idle.empty, ?_, ?_, calls⟩, ?_, rfl⟩⟩
      · rw [idle.given, waiting.given]
      · rw [idle.got, waiting.got]
      · show q.cut.or (if hasFin (q.act host source p.host.calls action).host.calls then some q.packetised else none) = none
        rw [unstopped, calls]
        rfl
    rcases empty_act waiting.empty with idle | ⟨c, listed, taken, h, now, read, isSyn, made⟩
    · exact still idle
    · obtain ⟨g, again, expected, -, syn⟩ := side.spoken.honest c listed taken
      cases read.symm.trans again
      obtain ⟨-, zero, first⟩ := syn isSyn
      rcases side_acceptSyn waiting unstopped zero first p.cut made with idle | ⟨answered, other⟩
      · exact still idle
      · rw [expected] at other
        refine ⟨dialed, [], sendId, heard, Or.inr ⟨answered, ?_, other⟩⟩
        intro empty
        rw [empty] at first
        cases first
  · have next : ∃ more, Side false (accepted ++ more) dialed p.cut (wadd16 sendId 1) sendId
        (q.act host source p.host.calls action) ∧ q.host.calls <+: (q.act host source p.host.calls action).host.calls := by
      rcases other.socket with gone | ⟨id, s, present, forth, rfl⟩
      · have idle := answered_idle gone (single answered)
        refine ⟨[], ?_, ?_⟩
        · rw [List.append_nil]
          exact other.idle idle
        · rw [idle.recorded]
      · have spoken := other.spoken
        rw [← forth] at spoken ⊢
        exact present.act spoken side.spoken (fun _ wrong => by cases wrong) ok
    obtain ⟨more, after, grows⟩ := next
    have calls : (q.act host source p.host.calls action).host.calls ≠ [] := by
      intro empty
      rw [empty] at grows
      exact answered (List.prefix_nil.mp grows)
    exact ⟨dialed, accepted ++ more, sendId, side.heard more _, Or.inr ⟨calls, begun, after⟩⟩

theorem conversing_talk (talk : Talk host dialerAddr listenerAddr FinInOrder p q) : Conversing p q := by
  induction talk with
  | start u v now idle free narrow dialed => exact conversing_start u v idle free narrow dialed
  | dialer before action ok ih => exact conversing_dialer ih listenerAddr ok
  | listener before action ok single ih => exact conversing_listener ih dialerAddr ok single

theorem eofByFin_cases {n : Nat} (eof : EofByFin p id n) :
    ∃ s, p.manager.conns.get? id = some s ∧ s.recvBuf = [] ∧ s.peerFin = true := by
  obtain ⟨some_room, ended, s, held, running⟩ := eof
  refine ⟨s, held, ?_⟩
  have answered : s.state = .connected ∨ s.state = .finSent → s.recvBuf = [] ∧ s.peerFin = true := by
    intro joined
    have branch : (p.manager.recv id n).1 = if s.recvBuf = [] then (if s.peerFin then .ok [] else .error .wouldBlock)
        else .ok (s.recvBuf.take (min n s.recvBuf.length)) := by
      unfold recv
      rcases joined with state | state
      · simp only [held, state]
        split <;> rfl
      · simp only [held, state]
        split <;> rfl
    rw [branch] at ended
    split at ended
    next drained =>
      split at ended
      next marked => exact ⟨drained, marked⟩
      next => cases ended
    next unread =>
      have taken : s.recvBuf.take (min n s.recvBuf.length) = [] := Except.ok.inj ended
      rcases List.take_eq_nil_iff.mp taken with none_asked | empty
      · have nonempty := List.length_pos_iff.mpr unread
        omega
      · exact absurd empty unread
  cases state : s.state with
  | synSent =>
    unfold recv at ended
    simp only [held, state] at ended
    cases ended
  | connected => exact answered (Or.inl state)
  | finSent => exact answered (Or.inr state)
  | closed => exact absurd state running

theorem Side.eof {mine theirs : Chunks UInt8} {cut : Option Bytes} {sendId recvId : Nat}
    (side : Side dialed mine theirs cut sendId recvId p) (few : theirs.length < 2 ^ 15) {n : Nat}
    (eof : EofByFin p id n) : cut = some p.got := by
  obtain ⟨t, there, drained, marked⟩ := eofByFin_cases eof
  rcases side.socket with gone | ⟨j, s, present, -, -⟩
  · rw [gone] at there
    cases there
  · obtain ⟨rfl, rfl⟩ := only_sole present.held there
    rw [present.ended few marked, drained, List.append_nil]

/-- In every run of one connection in which FINs are taken in order, a read that reports the end has been preceded by
reads of exactly the bytes that the other side packetised before its FIN. -/
theorem eof_after_whole_stream (talk : Talk host dialerAddr listenerAddr FinInOrder p q)
    (fewDialed : (packetsSent p.host.calls).card < 2 ^ 15) (fewAccepted : (packetsSent q.host.calls).card < 2 ^ 15)
    (id : ConnId) (n : Nat) : (EofByFin q id n → p.cut = some q.got) ∧ (EofByFin p id n → q.cut = some p.got) := by
  obtain ⟨dialed, accepted, sendId, side, answering⟩ := conversing_talk talk
  constructor
  · intro eof
    rcases answering with ⟨waiting, -⟩ | ⟨-, -, other⟩
    · obtain ⟨s, there, -⟩ := eofByFin_cases eof
      rw [waiting.empty] at there
      cases there
    · exact other.eof (side.spoken.few fewDialed) eof
  · intro eof
    exact side.eof (answering.spoken.few fewAccepted) eof

/-! ### Two short runs -/

/-- Let the dialer (`true`) and the listener act in turn, as long as a check of each action succeeds and the listener
makes one socket only. -/
def converse (host : UdpHost H) (dialerAddr listenerAddr : NetAddr) (check : UtpManager → List Call → Action → Bool) :
    Party H × Party H → List (Bool × Action) → Option (Party H × Party H)
  | pair, [] => some pair
  | (p, q), (true, action) :: rest =>
      if check p.manager q.host.calls action then
        converse host dialerAddr listenerAddr check (p.act host listenerAddr q.host.calls action, q) rest
      else none
  | (p, q), (false, action) :: rest =>
      let after := q.act host dialerAddr p.host.calls action
      if check q.manager p.host.calls action &&
          (q.host.calls.isEmpty || after.manager.conns.keys.all q.manager.conns.contains) then
        converse host dialerAddr listenerAddr check (p, after) rest
      else none

theorem talk_converse {Ok : UtpManager → List Call → Action → Prop} {check : UtpManager → List Call → Action → Bool}
    (sound : ∀ m sent action, check m sent action = true → Ok m sent action) (turns : List (Bool × Action))
    {pair after : Party H × Party H} (talk : Talk host dialerAddr listenerAddr Ok pair.1 pair.2)
    (played : converse host dialerAddr listenerAddr check pair turns = some after) :
    Talk host dialerAddr listenerAddr Ok after.1 after.2 := by
  induction turns generalizing pair with
  | nil =>
    cases played
    exact talk
  | cons turn rest ih =>
    obtain ⟨_ | _, action⟩ := turn
    · unfold converse at played
      dsimp only at played
      split at played
      next passed =>
        obtain ⟨checked, alone⟩ := Bool.and_eq_true_iff.mp passed
        refine ih (talk.listener action (sound _ _ _ checked) ?_) played
        intro answered id there
        rcases Bool.or_eq_true_iff.mp alone with silent | all
        · exact absurd (List.isEmpty_iff.mp silent) answered
        · exact List.all_eq_true.mp all id ((OrdMap.mem_keys_iff _ id).mpr ((OrdMap.contains_iff _ id).mp there))
      next => cases played
    · unfold converse at played
      split at played
      next passed => exact ih (talk.dialer action (sound _ _ _ passed)) played
      next => cases played

def finInOrder (m : UtpManager) (sent : List Call) : Action → Bool
  | .deliver index _ =>
      match sent[index]? with
      | some c =>
          match Header.decode c.packet with
          | some h =>
              match m.expecting h.connId with
              | some (_, s) => decide (h.ptype ≠ ST_FIN ∨ s.peerFin = true ∨ h.seqNr = wadd16 s.ackNr 1)
              | none => true
          | none => true
      | none => true
  | _ => true

theorem finInOrder_sound (m : UtpManager) (sent : List Call) (action : Action) (passed : finInOrder m sent action = true) :
    FinInOrder m sent action := by
  cases action with
  | deliver index now =>
    intro c h found taken read isFin id s looked
    unfold finInOrder at passed
    simp only [found, read, looked] at passed
    exact (of_decide_eq_true passed).resolve_left (fun other => other isFin)
  | _ => trivial

end Sides

def introduced : Party Unit × Party Unit :=
  ({ manager := dialing, host := ⟨(), []⟩ }, { manager := .new, host := ⟨(), []⟩ })

theorem talk_introduced (Ok : UtpManager → List Call → Action → Prop) :
    Talk taking peer stranger Ok introduced.1 introduced.2 :=
  .start () () 0 (rfl : UtpManager.new.conns = ∅) rfl (by decide)
    (by decide : UtpManager.new.connect stranger 0 = some (0x80000001, dialing))

def farewell : List (Bool × Action) :=
  [(true, .tick 1), (false, .deliver 0 2), (true, .deliver 0 3), (true, .send 0x80000001 [1, 2, 3]), (true, .tick 4),
    (true, .close 0x80000001), (true, .tick 5)]

def inTurn : List (Bool × Action) := farewell ++ [(false, .deliver 1 6), (false, .deliver 2 7), (false, .recv 0x80000001 10)]

def overtaken : List (Bool × Action) := farewell ++ [(false, .deliver 2 6)]

/-- What the listener answers to a read, the state of its socket, what it has read, and where the dialer stopped. -/
def epilogue (pair : Party Unit × Party Unit) : Option Bytes × Option UtpState × Bytes × Option Bytes :=
  ((pair.2.manager.recv 0x80000001 10).1.toOption, (pair.2.manager.conns.get? 0x80000001).map (·.state), pair.2.got, pair.1.cut)

theorem eofByFin_epilogue {pair : Party Unit × Party Unit} {got : Bytes} {cut : Option Bytes}
    (shown : epilogue pair = (some [], some .connected, got, cut)) : EofByFin pair.2 0x80000001 10 := by
  have answer : (pair.2.manager.recv 0x80000001 10).1.toOption = some [] := congrArg Prod.fst shown
  have ended : (pair.2.manager.recv 0x80000001 10).1 = .ok [] := by
    cases result : (pair.2.manager.recv 0x80000001 10).1 with
    | ok read =>
      rw [result] at answer
      exact congrArg Except.ok (some.inj answer)
    | error problem =>
      rw [result] at answer
      cases answer
  have state : (pair.2.manager.conns.get? 0x80000001).map (·.state) = some .connected := congrArg (fun seen => seen.2.1) shown
  obtain ⟨s, there, joined⟩ := map_eq_some_iff.mp state
  refine ⟨by decide, ended, s, there, ?_⟩
  rw [joined]
  decide

theorem eof_after_whole_stream_in_turn : ∃ p q, Talk taking peer stranger FinInOrder p q ∧
    EofByFin q 0x80000001 10 ∧ q.got = [1, 2, 3] ∧ p.cut = some q.got := by
  have ends : (converse taking peer stranger finInOrder introduced inTurn).map epilogue =
      some (some [], some .connected, [1, 2, 3], some [1, 2, 3]) := by decide
  have counts : (converse taking peer stranger finInOrder introduced inTurn).map (fun pair =>
      ((packetsSent pair.1.host.calls).card, (packetsSent pair.2.host.calls).card)) = some (3, 0) := by decide
  obtain ⟨pair, played, seen⟩ := map_eq_some_iff.mp ends
  rw [played] at counts
  have forth : (packetsSent pair.1.host.calls).card = 3 := congrArg Prod.fst (some.inj counts)
  have back : (packetsSent pair.2.host.calls).card = 0 := congrArg Prod.snd (some.inj counts)
  have talk := talk_converse finInOrder_sound inTurn (talk_introduced _) played
  have read : pair.2.got = [1, 2, 3] := congrArg (fun told => told.2.2.1) seen
  have whole := eof_after_whole_stream talk (by omega) (by omega) 0x80000001 10
  exact ⟨pair.1, pair.2, talk, eofByFin_epilogue seen, read, whole.1 (eofByFin_epilogue seen)⟩

/-- A FIN that overtakes the data ends the stream before it is read. -/
theorem fin_overtakes_data : ¬ ∀ p q : Party Unit,
    Talk taking peer stranger (fun _ _ _ => True) p q →
    ∀ id n, EofByFin q id n → p.cut = some q.got := by
  intro always
  have ends : (converse taking peer stranger (fun _ _ _ => true) introduced overtaken).map
      epilogue = some (some [], some .connected, [], some [1, 2, 3]) := by decide
  obtain ⟨pair, played, seen⟩ := map_eq_some_iff.mp ends
  have talk : Talk taking peer stranger (fun _ _ _ => True) pair.1 pair.2 :=
    talk_converse (fun _ _ _ _ => trivial) overtaken (talk_introduced _) played
  have read : pair.2.got = [] := congrArg (fun told => told.2.2.1) seen
  have cut : pair.1.cut = some [1, 2, 3] := congrArg (fun told => told.2.2.2) seen
  have whole := always pair.1 pair.2 talk _ _ (eofByFin_epilogue seen)
  rw [cut, read] at whole
  cases whole

end TypeBit.Utp
