import TypeBit.Utp.Socket

/-! The uTP transport (`utp.rs`): it owns every socket, hands each datagram to the first socket that
expects its connection id, accepts SYNs that no socket expects, and drives all sockets once per tick. -/

namespace TypeBit.Utp

def UTP_HANDLE_FLAG : Nat := 0x80000000

structure UtpManager where
  conns : OrdMap ConnId UtpSocket := ∅
  nextHandle : Nat := 1
  nextSendId : Nat := 1
  accepted : List (ConnId × NetAddr) := []
  reaped : List ConnId := []
  deriving DecidableEq

namespace UtpManager

def new : UtpManager := {}

/-- The first free handle from the counter on. One more try than there are sockets finds it unless all
handles are taken; then the search of the source goes on forever. -/
def allocHandle : Nat → UtpManager → Option (ConnId × UtpManager)
  | 0, _ => none
  | fuel + 1, m =>
      let h := UTP_HANDLE_FLAG ||| m.nextHandle
      let m := { m with nextHandle := (m.nextHandle + 1) % 2 ^ 32 }
      if m.conns.contains h then allocHandle fuel m else some (h, m)

def connect (m : UtpManager) (addr : NetAddr) (now : Nat) : Option (ConnId × UtpManager) := do
  let (handle, m) ← allocHandle (m.conns.size + 1) m
  let sendId := m.nextSendId
  let sock := UtpSocket.new handle addr sendId (wadd16 sendId 1) now
  let sock := { sock with ackNr := wsub16 sock.synSeq 1 }
  return (handle, { m with nextSendId := wadd16 m.nextSendId 2, conns := m.conns.insert handle sock })

def recv (m : UtpManager) (id : ConnId) (n : Nat) : Result Bytes × UtpManager :=
  match m.conns.get? id with
  | none => (.ok [], m)
  | some s =>
      match s.state with
      | .synSent => (.error .notFound, m)
      | .closed => (.ok [], m)
      | .connected | .finSent =>
          if s.recvBuf = [] then (if s.peerFin then .ok [] else .error .wouldBlock, m)
          else
            let taken := min n s.recvBuf.length
            (.ok (s.recvBuf.take taken), { m with conns := m.conns.insert id (s.consume taken) })

def send (m : UtpManager) (id : ConnId) (data : Bytes) : Result Nat × UtpManager :=
  match m.conns.get? id with
  | none => (.error .notFound, m)
  | some s =>
      match s.state with
      | .synSent | .closed => (.error .notFound, m)
      | .connected | .finSent =>
          if s.finSent then (.error .notFound, m)
          else (.ok data.length, { m with conns := m.conns.insert id (s.enqueue data) })

def close (m : UtpManager) (id : ConnId) : UtpManager :=
  { m with conns := m.conns.modify id fun s => { s with state := if s.isConnected then .finSent else .closed } }

theorem send_cases (m : UtpManager) (id : ConnId) (data : Bytes) :
    m.send id data = (.error .notFound, m) ∨ ∃ s, m.conns.get? id = some s ∧ m.send id data =
      (.ok data.length, { m with conns := m.conns.insert id (s.enqueue data) }) := by
  unfold send
  split
  · exact Or.inl rfl
  next s held =>
    cases s.state with
    | synSent => exact Or.inl rfl
    | closed => exact Or.inl rfl
    | connected =>
      dsimp only
      split
      · exact Or.inl rfl
      · exact Or.inr ⟨s, held, rfl⟩
    | finSent =>
      dsimp only
      split
      · exact Or.inl rfl
      · exact Or.inr ⟨s, held, rfl⟩

theorem recv_cases (m : UtpManager) (id : ConnId) (n : Nat) :
    (∃ e, m.recv id n = (.error e, m)) ∨ m.recv id n = (.ok [], m) ∨ ∃ s k, m.conns.get? id = some s ∧ m.recv id n =
      (.ok (s.recvBuf.take k), { m with conns := m.conns.insert id (s.consume k) }) := by
  unfold recv
  split
  · exact Or.inr (Or.inl rfl)
  next s held =>
    cases s.state with
    | synSent => exact Or.inl ⟨.notFound, rfl⟩
    | closed => exact Or.inr (Or.inl rfl)
    | connected =>
      dsimp only
      split
      · cases s.peerFin with
        | true => exact Or.inr (Or.inl rfl)
        | false => exact Or.inl ⟨.wouldBlock, rfl⟩
      · exact Or.inr (Or.inr ⟨s, _, held, rfl⟩)
    | finSent =>
      dsimp only
      split
      · cases s.peerFin with
        | true => exact Or.inr (Or.inl rfl)
        | false => exact Or.inl ⟨.wouldBlock, rfl⟩
      · exact Or.inr (Or.inr ⟨s, _, held, rfl⟩)

def takeAccepted (m : UtpManager) : List (ConnId × NetAddr) × UtpManager := (m.accepted, { m with accepted := [] })

def takeReaped (m : UtpManager) : List ConnId × UtpManager := (m.reaped, { m with reaped := [] })

def expecting (m : UtpManager) (connId : Nat) : Option (ConnId × UtpSocket) :=
  m.conns.entries.find? (fun e => decide (e.2.recvId = connId))

variable {H : Type} (host : UdpHost H)

def inbound (handle : ConnId) (addr : NetAddr) (h : Header) (now : Nat) : UtpSocket :=
  { UtpSocket.new handle addr (wadd16 h.connId 1) h.connId now with
    state := .connected
    lastDataTs := h.timestamp
    ackNr := h.seqNr
    ackPending := true
    lastRecvAt := now }

def acceptSyn (m : UtpManager) (addr : NetAddr) (h : Header) (now : Nat) (w : H) : UtpManager × H :=
  match allocHandle (m.conns.size + 1) m with
  | none => (m, w)
  | some (handle, m) =>
      let (sock, w) := (inbound handle addr h now).sendAck host now w
      ({ m with conns := m.conns.insert handle sock, accepted := m.accepted ++ [(handle, addr)] }, w)

def handleDatagram (m : UtpManager) (addr : NetAddr) (payload : Bytes) (now : Nat) (w : H) : Bool × UtpManager × H :=
  match Header.decode payload with
  | none => (false, m, w)
  | some h =>
      match m.expecting h.connId with
      | some (_, s) =>
          -- The entry found is looked up again by the handle it carries.
          match m.conns.get? s.handle with
          | some t =>
              let (t, w) := t.onPacket host h (payload.drop HDR_LEN) now w
              (true, { m with conns := m.conns.insert s.handle t }, w)
          | none => (true, m, w)
      | none =>
          if h.ptype = ST_SYN then
            let (m, w) := acceptSyn host m addr h now w
            (true, m, w)
          else (true, m, w)

def driveSocket (s : UtpSocket) (now : Nat) (w : H) : UtpSocket × H :=
  let (s, w) :=
    match s.state with
    | .synSent => if s.synAttempts = 0 then s.sendSyn host now w else (s, w)
    | .connected => s.transmit host now w
    | .finSent =>
        let (s, w) := s.transmit host now w
        if s.finSentAt = 0 then s.sendFin host now w else (s, w)
    | .closed => (s, w)
  let (s, w) := s.tickRetransmit host now w
  if s.state ≠ .closed ∧ IDLE_TIMEOUT_US < now - s.lastActivity then ({ s with state := .closed }, w) else (s, w)

def tickOne (now : Nat) (acc : UtpManager × H) (id : ConnId) : UtpManager × H :=
  match acc.1.conns.get? id with
  | none => acc
  | some s =>
      let (s, w) := driveSocket host s now acc.2
      if s.state = .closed then
        ({ acc.1 with conns := acc.1.conns.erase id, reaped := acc.1.reaped ++ [id] }, w)
      else ({ acc.1 with conns := acc.1.conns.insert id s }, w)

/-- Drive the transport: SYNs, retransmissions, acknowledgements, data, timeouts. -/
def tick (m : UtpManager) (now : Nat) (w : H) : UtpManager × H := m.conns.keys.foldl (tickOne host now) (m, w)

end UtpManager
end TypeBit.Utp
