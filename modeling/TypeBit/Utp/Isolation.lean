import TypeBit.Utp.Frame

/-! Which sockets a datagram can touch. The manager finds the socket of a packet by its connection id alone,
so a packet stays with its peer exactly when the first socket that expects the id belongs to that peer. -/

namespace TypeBit.Utp.UtpManager
open OrdMap
variable {H : Type} (host : UdpHost H)

/-- The managers that the public operations produce, whatever the host does in between. -/
inductive Reachable : UtpManager → Prop
  | new : Reachable .new
  | connect {m n id} (before : Reachable m) (addr : NetAddr) (now : Nat) (dialed : m.connect addr now = some (id, n)) :
      Reachable n
  | recv {m} (before : Reachable m) (id : ConnId) (n : Nat) : Reachable (m.recv id n).2
  | send {m} (before : Reachable m) (id : ConnId) (data : Bytes) : Reachable (m.send id data).2
  | close {m} (before : Reachable m) (id : ConnId) : Reachable (m.close id)
  | takeAccepted {m} (before : Reachable m) : Reachable m.takeAccepted.2
  | takeReaped {m} (before : Reachable m) : Reachable m.takeReaped.2
  | datagram {m} (before : Reachable m) (addr : NetAddr) (payload : Bytes) (now : Nat) (w : H) :
      Reachable (m.handleDatagram host addr payload now w).2.1
  | tick {m} (before : Reachable m) (now : Nat) (w : H) : Reachable (m.tick host now w).1

/-- Every socket is stored under the handle it carries. -/
def Keyed (conns : OrdMap ConnId UtpSocket) : Prop := ∀ id s, conns.get? id = some s → s.handle = id

variable {id : ConnId} {s : UtpSocket}

theorem Keyed.insert {conns : OrdMap ConnId UtpSocket} (keyed : Keyed conns)
    (own : s.handle = id) : Keyed (conns.insert id s) := by
  intro other t found
  rw [get?_insert] at found
  split at found
  next same =>
    cases found
    exact own.trans same
  next => exact keyed other t found

theorem Keyed.erase {conns : OrdMap ConnId UtpSocket} (keyed : Keyed conns) (id : ConnId) : Keyed (conns.erase id) := by
  intro other t found
  exact keyed other t (get?_of_erase found)

theorem handle_of_wire {s t : UtpSocket} (same : t.wire = s.wire) : t.handle = s.handle := congrArg Prod.fst same

theorem recvId_of_wire {s t : UtpSocket} (same : t.wire = s.wire) : t.recvId = s.recvId :=
  congrArg (fun known => known.2.2.2.1) same

theorem allocHandle_spec {fuel : Nat} {m n : UtpManager} (found : allocHandle fuel m = some (id, n)) :
    m.conns.get? id = none ∧ n.conns = m.conns := by
  induction fuel generalizing m with
  | zero => cases found
  | succ fuel ih =>
    unfold allocHandle at found
    dsimp only at found
    split at found
    · have later := ih found
      exact later
    next free =>
      cases found
      refine ⟨?_, rfl⟩
      cases held : m.conns.get? (UTP_HANDLE_FLAG ||| m.nextHandle) with
      | none => rfl
      | some s => exact absurd ((contains_iff _ _).mpr ⟨s, held⟩) free

theorem keyed_tickOne (now : Nat) (acc : UtpManager × H) (id : ConnId) (keyed : Keyed acc.1.conns) :
    Keyed (tickOne host now acc id).1.conns := by
  unfold tickOne
  split
  · exact keyed
  next s found =>
    have driven := sends_driveSocket host s now acc.2
    dsimp only
    split
    · exact keyed.erase id
    · exact keyed.insert ((handle_of_wire driven.wire).trans (keyed id s found))

theorem keyed_ticks (now : Nat) (ids : List ConnId) (acc : UtpManager × H) (keyed : Keyed acc.1.conns) :
    Keyed (ids.foldl (tickOne host now) acc).1.conns := by
  apply List.foldlRecOn (motive := fun acc : UtpManager × H => Keyed acc.1.conns) ids (tickOne host now) keyed
  intro acc kept id _
  exact keyed_tickOne host now acc id kept

theorem keyed_acceptSyn (m : UtpManager) (addr : NetAddr) (h : Header) (now : Nat) (w : H) (keyed : Keyed m.conns) :
    Keyed (acceptSyn host m addr h now w).1.conns := by
  unfold acceptSyn
  split
  · exact keyed
  next handle n found =>
    dsimp only
    rw [(allocHandle_spec found).2]
    exact keyed.insert (handle_of_wire (UtpSocket.sends_sendAck host (inbound handle addr h now) now w).wire)

theorem keyed_handleDatagram (m : UtpManager) (addr : NetAddr) (payload : Bytes) (now : Nat) (w : H)
    (keyed : Keyed m.conns) : Keyed (m.handleDatagram host addr payload now w).2.1.conns := by
  unfold handleDatagram
  split
  · exact keyed
  next h read =>
    split
    next _ s found =>
      split
      next t held =>
        have taken := (UtpSocket.receives_onPacket host t h (payload.drop HDR_LEN) now w).1
        exact keyed.insert ((handle_of_wire taken.wire).trans (keyed _ t held))
      next => exact keyed
    next =>
      split
      · exact keyed_acceptSyn host m addr h now w keyed
      · exact keyed

variable {m : UtpManager}

theorem keyed_reachable (reached : Reachable host m) : Keyed m.conns := by
  induction reached with
  | new => intro id s found; cases found
  | connect before addr now dialed ih =>
    unfold connect at dialed
    obtain ⟨⟨handle, held⟩, found, rest⟩ := Option.bind_eq_some_iff.mp dialed
    cases rest
    dsimp only
    rw [(allocHandle_spec found).2]
    exact ih.insert rfl
  | @recv m before id n ih =>
    rcases recv_cases m id n with ⟨e, same⟩ | same | ⟨s, k, held, same⟩
    · rw [same]
      exact ih
    · rw [same]
      exact ih
    · rw [same]
      exact ih.insert (ih id s held)
  | @send m before id data ih =>
    rcases send_cases m id data with same | ⟨s, held, same⟩
    · rw [same]
      exact ih
    · rw [same]
      exact ih.insert (ih id s held)
  | close before id ih =>
    intro other t found
    unfold close at found
    rw [get?_modify] at found
    split at found
    · obtain ⟨s, held, rfl⟩ := Option.map_eq_some_iff.mp found
      exact ih other s held
    · exact ih other t found
  | takeAccepted before ih => exact ih
  | takeReaped before ih => exact ih
  | datagram before addr payload now w ih => exact keyed_handleDatagram host _ addr payload now w ih
  | tick before now w ih => exact keyed_ticks host now _ _ ih

/-! ### A datagram touches one socket -/

theorem expecting_spec {connId : Nat}
    (found : m.expecting connId = some (id, s)) : m.conns.get? id = some s ∧ s.recvId = connId := by
  have listed := List.mem_of_find?_eq_some found
  exact ⟨(mem_entries_iff m.conns id s).mp listed, by simpa using List.find?_some found⟩

theorem expecting_isSome {m : UtpManager} {id : ConnId} {s : UtpSocket} (held : m.conns.get? id = some s) :
    (m.expecting s.recvId).isSome := by
  have listed := (mem_entries_iff m.conns id s).mpr held
  exact List.find?_isSome.mpr ⟨(id, s), listed, by simp⟩

variable {payload : Bytes}

theorem handleDatagram_expected (keyed : Keyed m.conns) {h : Header} (read : Header.decode payload = some h)
    (found : m.expecting h.connId = some (id, s)) (addr : NetAddr) (now : Nat) (w : H) :
    (m.handleDatagram host addr payload now w).2.1.conns =
      m.conns.insert id (s.onPacket host h (payload.drop HDR_LEN) now w).1 := by
  have held := (expecting_spec found).1
  have own := keyed id s held
  unfold handleDatagram
  simp only [read, found, own, held]

/-- No socket of another peer changes when this datagram comes from `addr`, at whatever time. -/
def Isolated (m : UtpManager) (addr : NetAddr) (payload : Bytes) (w : H) : Prop :=
  ∀ now id s, m.conns.get? id = some s → s.addr ≠ addr →
    (m.handleDatagram host addr payload now w).2.1.conns.get? id = some s

/-- The socket that the scan reaches first for the connection id of this datagram has its source as peer. -/
def FirstIsPeer (m : UtpManager) (addr : NetAddr) (payload : Bytes) : Prop :=
  ∀ h, Header.decode payload = some h → ∀ id s, m.expecting h.connId = some (id, s) → s.addr = addr

theorem acceptSyn_keeps (m : UtpManager) (addr : NetAddr) (h : Header) (now : Nat) (w : H)
    (held : m.conns.get? id = some s) : (acceptSyn host m addr h now w).1.conns.get? id = some s := by
  unfold acceptSyn
  split
  · exact held
  next handle n found =>
    obtain ⟨free, same⟩ := allocHandle_spec found
    have other : handle ≠ id := by
      rintro rfl
      rw [held] at free
      cases free
    dsimp only
    rw [same, get?_insert_ne _ _ other, held]

theorem handleDatagram_unexpected
    (stray : ∀ h, Header.decode payload = some h → m.expecting h.connId = none) (addr : NetAddr) (now : Nat) (w : H) (held : m.conns.get? id = some s) :
    (m.handleDatagram host addr payload now w).2.1.conns.get? id = some s := by
  unfold handleDatagram
  split
  · exact held
  next h read =>
    simp only [stray h read]
    split
    · exact acceptSyn_keeps host m addr h now w held
    · exact held

theorem isolated_of_first (keyed : Keyed m.conns) {addr : NetAddr}
    (first : FirstIsPeer m addr payload) (w : H) : Isolated host m addr payload w := by
  intro now id s held foreign
  cases read : Header.decode payload with
  | none => exact handleDatagram_unexpected host (by simp [read]) addr now w held
  | some h =>
    cases found : m.expecting h.connId with
    | none =>
      refine handleDatagram_unexpected host ?_ addr now w held
      intro g same
      cases read.symm.trans same
      exact found
    | some entry =>
      obtain ⟨first_id, t⟩ := entry
      have other : first_id ≠ id := by
        rintro rfl
        have same := (expecting_spec found).1
        rw [held] at same
        cases same
        exact foreign (first h read _ s found)
      rw [handleDatagram_expected host keyed read found, get?_insert_ne _ _ other, held]

theorem first_of_isolated (keyed : Keyed m.conns) {addr : NetAddr} {w : H}
    (isolated : Isolated host m addr payload w) : FirstIsPeer m addr payload := by
  intro h read id s found
  by_contra foreign
  have held := (expecting_spec found).1
  -- Any packet is noted as activity, so it shows at a time that differs from the last one.
  have untouched := isolated (s.lastActivity + 1) id s held foreign
  rw [handleDatagram_expected host keyed read found, get?_insert_self] at untouched
  have active := (UtpSocket.receives_onPacket host s h (payload.drop HDR_LEN) (s.lastActivity + 1) w).2
  rw [Option.some.inj untouched] at active
  omega

/-! ### Two SYNs with one connection id -/

theorem handleDatagram_adds (keyed : Keyed m.conns) {h : Header}
    (read : Header.decode payload = some h) (addr : NetAddr) (now : Nat) (w : H) :
    ∃ id, ∀ i, (m.handleDatagram host addr payload now w).2.1.conns.get? i ≠ none → m.conns.get? i ≠ none ∨
      i = id ∧ m.expecting h.connId = none ∧ ((m.handleDatagram host addr payload now w).2.1.expecting h.connId).isSome := by
  cases found : m.expecting h.connId with
  | some entry =>
    obtain ⟨id, s⟩ := entry
    refine ⟨id, fun i live => Or.inl ?_⟩
    rw [handleDatagram_expected host keyed read found, get?_insert] at live
    split at live
    next same =>
      rw [← same, (expecting_spec found).1]
      simp
    next => exact live
  | none =>
    unfold handleDatagram
    simp only [read, found]
    by_cases syn : h.ptype = ST_SYN
    · rw [if_pos syn]
      unfold acceptSyn
      split
      · exact ⟨0, fun i live => Or.inl live⟩
      next handle n allocated =>
        have same := (allocHandle_spec allocated).2
        refine ⟨handle, fun i live => ?_⟩
        dsimp only at live ⊢
        rw [same, get?_insert] at live
        split at live
        next here =>
          refine Or.inr ⟨here.symm, trivial, ?_⟩
          have expects := recvId_of_wire (UtpSocket.sends_sendAck host (inbound handle addr h now) now w).wire
          have stored := get?_insert_self n.conns handle ((inbound handle addr h now).sendAck host now w).1
          rw [show h.connId = _ from expects.symm]
          exact @expecting_isSome { n with conns := n.conns.insert handle _, accepted := _ } _ _ stored
        next => exact Or.inl live
    · rw [if_neg syn]
      exact ⟨0, fun i live => Or.inl live⟩

def thenDatagram (m : UtpManager) (first second : NetAddr × Bytes × Nat) (w : H) : UtpManager :=
  let (_, n, w) := m.handleDatagram host first.1 first.2.1 first.2.2 w
  (n.handleDatagram host second.1 second.2.1 second.2.2 w).2.1

def TwoNew (m n : UtpManager) : Prop :=
  ∃ i j, i ≠ j ∧ m.conns.get? i = none ∧ m.conns.get? j = none ∧ n.conns.get? i ≠ none ∧ n.conns.get? j ≠ none

theorem not_twoNew (keyed : Keyed m.conns) (first second : NetAddr × Bytes × Nat) (w : H)
    {g h : Header} (readFirst : Header.decode first.2.1 = some g) (readSecond : Header.decode second.2.1 = some h)
    (shared : g.connId = h.connId) : ¬ TwoNew m (m.thenDatagram host first second w) := by
  rintro ⟨i, j, distinct, newI, newJ, liveI, liveJ⟩
  have keyedNext := keyed_handleDatagram host m first.1 first.2.1 first.2.2 w keyed
  obtain ⟨one, addsOne⟩ := handleDatagram_adds host keyed readFirst first.1 first.2.2 w
  obtain ⟨two, addsTwo⟩ := handleDatagram_adds host keyedNext readSecond second.1 second.2.2
    (m.handleDatagram host first.1 first.2.1 first.2.2 w).2.2
  rw [shared] at addsOne
  dsimp only [thenDatagram] at liveI liveJ
  generalize (m.handleDatagram host first.1 first.2.1 first.2.2 w).2.1 = n at addsOne addsTwo liveI liveJ
  -- Only one of the two datagrams can have added a socket.
  rcases addsTwo i liveI with earlyI | ⟨sameI, unexpected, -⟩
  · obtain hereI | ⟨sameI, -, expected⟩ := addsOne i earlyI
    · exact hereI newI
    rcases addsTwo j liveJ with earlyJ | ⟨sameJ, unexpected, -⟩
    · obtain hereJ | ⟨sameJ, -, -⟩ := addsOne j earlyJ
      · exact hereJ newJ
      · exact distinct (sameI.trans sameJ.symm)
    · rw [unexpected] at expected
      cases expected
  · rcases addsTwo j liveJ with earlyJ | ⟨sameJ, -, -⟩
    · obtain hereJ | ⟨sameJ, -, expected⟩ := addsOne j earlyJ
      · exact hereJ newJ
      · rw [unexpected] at expected
        cases expected
    · exact distinct (sameI.trans sameJ.symm)

/-- A datagram leaves the sockets of all other peers alone exactly when the first socket that expects its
connection id belongs to its source or there is none; and SYNs with one connection id make at most one socket,
from however many addresses they come. -/
theorem isolated_iff {m : UtpManager} (reached : Reachable host m) (addr : NetAddr) (payload : Bytes) (w : H) :
    (Isolated host m addr payload w ↔ FirstIsPeer m addr payload) ∧
      ∀ first second : NetAddr × Bytes × Nat, ∀ g h, first.1 ≠ second.1 →
        Header.decode first.2.1 = some g → Header.decode second.2.1 = some h →
        g.ptype = ST_SYN → h.ptype = ST_SYN → g.connId = h.connId → ¬ TwoNew m (m.thenDatagram host first second w) := by
  have keyed := keyed_reachable host reached
  refine ⟨⟨first_of_isolated host keyed, fun first => isolated_of_first host keyed first w⟩, ?_⟩
  intro first second g h _ readFirst readSecond _ _ shared
  exact not_twoNew host keyed first second w readFirst readSecond shared

/-! ### A stranger with the right connection id -/

def taking : UdpHost Unit := ⟨fun w _ _ => (.ok (), w)⟩

def peer : NetAddr := .v4 ⟨[10, 0, 0, 1], rfl⟩ 6881
def stranger : NetAddr := .v4 ⟨[10, 0, 0, 2], rfl⟩ 6881

def bare (ptype : Nat) : Bytes :=
  Header.encode { ptype, extension := 0, connId := 5, timestamp := 0, timestampDiff := 0, wndSize := 0, seqNr := 0, ackNr := 0 }

def accepting : UtpManager := (UtpManager.new.handleDatagram taking peer (bare ST_SYN) 0 ()).2.1

def seen (m : UtpManager) (id : ConnId) : Option (NetAddr × UtpState) := (m.conns.get? id).map fun s => (s.addr, s.state)

theorem isolated_from_peer : Reachable taking accepting ∧ FirstIsPeer accepting peer (bare ST_RESET) ∧
    Isolated taking accepting peer (bare ST_RESET) () := by
  have reached : Reachable taking accepting := .datagram .new peer (bare ST_SYN) 0 ()
  have first : FirstIsPeer accepting peer (bare ST_RESET) := by
    have only : ∀ e ∈ accepting.conns.entries, e.2.addr = peer := by decide
    intro h _ id s found
    exact only (id, s) (List.mem_of_find?_eq_some found)
  exact ⟨reached, first, (isolated_iff taking reached peer (bare ST_RESET) ()).1.mpr first⟩

/-- A RESET from a stranger closes the peer's connection, and a SYN from it makes no socket. -/
theorem stranger_closes_connection : Reachable taking accepting ∧
    accepting.seen 0x80000001 = some (peer, .connected) ∧
    (accepting.handleDatagram taking stranger (bare ST_RESET) 0 ()).2.1.seen 0x80000001 = some (peer, .closed) ∧
    ¬ Isolated taking accepting stranger (bare ST_RESET) () ∧
    (UtpManager.new.thenDatagram taking (peer, bare ST_SYN, 0) (stranger, bare ST_SYN, 0) ()).conns.keys = [0x80000001] := by
  have open_before : accepting.seen 0x80000001 = some (peer, .connected) := by decide
  have closed_after : (accepting.handleDatagram taking stranger (bare ST_RESET) 0 ()).2.1.seen 0x80000001 =
      some (peer, .closed) := by decide
  refine ⟨.datagram .new peer (bare ST_SYN) 0 (), open_before, closed_after, ?_, by decide⟩
  intro isolated
  obtain ⟨s, held, shown⟩ := Option.map_eq_some_iff.mp open_before
  have foreign : s.addr ≠ stranger := by
    have owner : s.addr = peer := congrArg Prod.fst shown
    rw [owner]
    decide
  have kept := isolated 0 0x80000001 s held foreign
  unfold seen at closed_after
  rw [kept] at closed_after
  cases closed_after.symm.trans (congrArg some shown)

end TypeBit.Utp.UtpManager
