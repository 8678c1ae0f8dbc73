import TypeBit.Utp.Flushing

/-! Which uTP sockets are open. A socket opens when it is dialed or accepted and never again, but for one packet: a SYN
that reaches a socket on its way out connects it anew. -/

namespace TypeBit.Utp
open OrdMap UtpManager

namespace UtpSocket
variable {H : Type} (host : UdpHost H)

def isOpen (s : UtpSocket) : Bool := decide (s.state = .synSent ∨ s.state = .connected)

theorem isOpen_of_state {s t : UtpSocket} (state : t.state = s.state ∨ t.state = .closed) (opened : t.isOpen = true) :
    s.isOpen = true := by
  unfold isOpen at opened ⊢
  rcases state with same | closed
  · rwa [same] at opened
  · rw [closed] at opened
    cases opened

/-! ### The socket in a tick -/

theorem state_sendAck (s : UtpSocket) (now : Nat) (w : H) : (s.sendAck host now w).1.state = s.state := by
  unfold sendAck
  split
  · rfl
  · rfl

theorem state_resend (expired : List Nat) (s : UtpSocket) (now : Nat) (w : H) :
    (resend host expired s now w).1.state = s.state ∨ (resend host expired s now w).1.state = .closed := by
  induction expired generalizing s w with
  | nil => exact Or.inl rfl
  | cons seq rest ih =>
    unfold resend
    split
    · exact ih s w
    next u found =>
      split
      · exact Or.inr rfl
      · exact ih (s.retry seq u now) _

theorem state_retransmit (s : UtpSocket) (now : Nat) (w : H) :
    (s.retransmit host now w).1.state = s.state ∨ (s.retransmit host now w).1.state = .closed := by
  unfold retransmit
  split
  · split
    · split
      · exact Or.inr rfl
      · exact Or.inl (state_sendSyn host s now w)
    · exact Or.inl rfl
  · exact state_resend host _ s now w
  · exact state_resend host _ s now w
  · exact Or.inl rfl

theorem state_tickRetransmit (s : UtpSocket) (now : Nat) (w : H) :
    (s.tickRetransmit host now w).1.state = s.state ∨ (s.tickRetransmit host now w).1.state = .closed := by
  have resent := state_retransmit host s now w
  unfold tickRetransmit
  dsimp only
  split
  · rw [state_sendAck]
    exact resent
  · exact resent

theorem state_emit (s : UtpSocket) (now : Nat) (w : H) : (emit host s now w).1.state = s.state := by
  unfold emit
  cases state : s.state with
  | synSent =>
    dsimp only
    split
    · exact (state_sendSyn host s now w).trans state
    · exact state
  | connected => exact (stays_transmit host s now w).1.trans state
  | finSent =>
    have sent := (stays_transmit host s now w).1.trans state
    dsimp only
    split
    · unfold sendFin
      split
      · exact sent
      · rfl
    · exact sent
  | closed => exact state

theorem state_driveSocket (s : UtpSocket) (now : Nat) (w : H) :
    (driveSocket host s now w).1.state = s.state ∨ (driveSocket host s now w).1.state = .closed := by
  rw [driveSocket_eq]
  dsimp only
  unfold expire
  split
  · exact Or.inr rfl
  · rw [← state_emit host s now w]
    exact state_tickRetransmit host _ now _

/-! ### The socket and a packet -/

def Shut (s : UtpSocket) : Prop := s.state = .finSent ∨ s.state = .closed

theorem isOpen_iff (s : UtpSocket) : s.isOpen = true ↔ ¬ s.Shut := by
  unfold isOpen Shut
  cases s.state <;> simp

theorem Shut.onAck {s : UtpSocket} (shut : s.Shut) (h : Header) (now : Nat) : (s.onAck h now).Shut := by
  have timed : (s.measure h now).state = s.state := by
    unfold measure
    split
    · rfl
    · rfl
  have apart : ¬ ((s.measure h now).state = .synSent ∧ seqLe (s.measure h now).synSeq h.ackNr = true) := by
    rintro ⟨dialing, -⟩
    rw [timed] at dialing
    rcases shut with closing | closed
    · cases closing.symm.trans dialing
    · cases closed.symm.trans dialing
  unfold UtpSocket.onAck
  dsimp only
  rw [if_neg apart]
  rcases state_freeAcked (s.measure h now) h now with same | closed
  · unfold Shut
    rw [same, timed]
    exact shut
  · exact Or.inr closed

theorem Shut.absorb {s : UtpSocket} (shut : s.Shut) {h : Header} (spared : h.ptype = ST_SYN → s.state ≠ .finSent)
    (payload : Bytes) (now : Nat) : (s.absorb h payload now).Shut := by
  unfold UtpSocket.absorb
  dsimp only
  split
  next syn =>
    have closed : s.state = .closed := shut.resolve_left (spared syn)
    rw [if_neg (not_not.mpr closed)]
    exact Or.inr closed
  split
  · exact Shut.onAck (s := { s with lastActivity := now }) shut h now
  split
  · have acked := Shut.onAck (s := { s with lastActivity := now, lastRecvAt := now, lastDataTs := h.timestamp }) shut h now
    unfold Shut at acked ⊢
    rw [state_onData]
    exact acked
  split
  · exact Shut.onAck (s := { s with lastActivity := now, lastRecvAt := now }) shut h now
  split
  · exact Or.inr rfl
  · exact shut

theorem Shut.onPacket {s : UtpSocket} (shut : s.Shut) {h : Header} (spared : h.ptype = ST_SYN → s.state ≠ .finSent)
    (payload : Bytes) (now : Nat) (w : H) : (s.onPacket host h payload now w).1.Shut := by
  have absorbed := shut.absorb spared payload now
  unfold UtpSocket.onPacket
  dsimp only
  split
  next joined =>
    rcases absorbed with closing | closed
    · cases closing.symm.trans joined.1
    · cases closed.symm.trans joined.1
  next => exact absorbed

end UtpSocket

namespace UtpManager
variable {H : Type} (host : UdpHost H)

def isOpen (m : UtpManager) (id : ConnId) : Bool := ((m.conns.get? id).map UtpSocket.isOpen).getD false

variable {m n : UtpManager} {id : ConnId}

theorem isOpen_iff : m.isOpen id = true ↔ ∃ s, m.conns.get? id = some s ∧ s.isOpen = true := by
  unfold isOpen
  cases m.conns.get? id with
  | none => simp
  | some s => simp

theorem mem_keys_of_isOpen (opened : m.isOpen id = true) : id ∈ m.conns.keys := by
  obtain ⟨s, held, -⟩ := isOpen_iff.mp opened
  exact (mem_keys_iff _ _).mpr ⟨s, held⟩

structure Steady (m n : UtpManager) : Prop where
  keys : ∀ id, id ∈ n.conns.keys ↔ id ∈ m.conns.keys
  opens : ∀ id, n.isOpen id = true → m.isOpen id = true
  accepted : n.accepted = m.accepted
  reaped : n.reaped = m.reaped

structure Bears (id : ConnId) (m n : UtpManager) : Prop where
  fresh : id ∉ m.conns.keys
  flagged : id &&& UTP_HANDLE_FLAG ≠ 0
  keys : ∀ j, j ∈ n.conns.keys ↔ j = id ∨ j ∈ m.conns.keys
  opens : ∀ j, n.isOpen j = true → j = id ∨ m.isOpen j = true
  reaped : n.reaped = m.reaped

theorem Steady.refl (m : UtpManager) : Steady m m := ⟨fun _ => Iff.rfl, fun _ => id, rfl, rfl⟩

theorem steady_insert {s t : UtpSocket} (held : m.conns.get? id = some s)
    (opens : t.isOpen = true → s.isOpen = true) : Steady m { m with conns := m.conns.insert id t } where
  keys j := by
    rw [mem_keys_insert]
    constructor
    · rintro (rfl | listed)
      · exact (mem_keys_iff _ _).mpr ⟨s, held⟩
      · exact listed
    · exact Or.inr
  opens j opened := by
    obtain ⟨u, found, state⟩ := isOpen_iff.mp opened
    dsimp only at found
    rw [get?_insert] at found
    split at found
    next same =>
      cases found
      exact isOpen_iff.mpr ⟨s, same ▸ held, opens state⟩
    next => exact isOpen_iff.mpr ⟨u, found, state⟩
  accepted := rfl
  reaped := rfl

theorem steady_send (m : UtpManager) (id : ConnId) (data : Bytes) : Steady m (m.send id data).2 := by
  rcases m.send_cases id data with refused | ⟨s, held, sent⟩
  · rw [refused]
    exact .refl m
  · rw [sent]
    exact steady_insert held (fun opened => opened)

theorem steady_recv (m : UtpManager) (id : ConnId) (n : Nat) : Steady m (m.recv id n).2 := by
  rcases m.recv_cases id n with ⟨e, refused⟩ | empty | ⟨s, k, held, taken⟩
  · rw [refused]
    exact .refl m
  · rw [empty]
    exact .refl m
  · rw [taken]
    exact steady_insert held (fun opened => opened)

theorem isOpen_close (m : UtpManager) (id : ConnId) : (m.close id).isOpen id = false := by
  unfold isOpen close
  rw [get?_modify, if_pos rfl]
  cases m.conns.get? id with
  | none => rfl
  | some s =>
    unfold UtpSocket.isOpen
    cases joined : s.isConnected with
    | true => simp [joined]
    | false => simp [joined]

theorem steady_close (m : UtpManager) (id : ConnId) : Steady m (m.close id) where
  keys j := mem_keys_modify _ _ _ _
  opens j opened := by
    by_cases same : id = j
    · subst same
      rw [isOpen_close] at opened
      cases opened
    · unfold isOpen close at opened
      rw [get?_modify, if_neg same] at opened
      exact opened
  accepted := rfl
  reaped := rfl

theorem flagged_allocHandle {fuel : Nat} (found : allocHandle fuel m = some (id, n)) :
    id &&& UTP_HANDLE_FLAG ≠ 0 ∧ n.accepted = m.accepted ∧ n.reaped = m.reaped := by
  induction fuel generalizing m with
  | zero => cases found
  | succ fuel ih =>
    unfold allocHandle at found
    dsimp only at found
    split at found
    · have later := ih found
      exact later
    · cases found
      refine ⟨?_, rfl, rfl⟩
      intro unmarked
      have bit : ((UTP_HANDLE_FLAG ||| m.nextHandle) &&& UTP_HANDLE_FLAG).testBit 31 = true := by
        rw [Nat.testBit_and, Nat.testBit_or]
        have marked : UTP_HANDLE_FLAG.testBit 31 = true := by decide
        rw [marked]
        rfl
      rw [unmarked] at bit
      simp at bit

theorem bears_alloc (found : allocHandle (m.conns.size + 1) m = some (id, n))
    {k : UtpManager} {s : UtpSocket} (conns : k.conns = n.conns.insert id s) (reaped : k.reaped = n.reaped) : Bears id m k where
  fresh := by
    intro listed
    obtain ⟨t, held⟩ := (mem_keys_iff _ _).mp listed
    cases (allocHandle_spec found).1.symm.trans held
  flagged := (flagged_allocHandle found).1
  keys j := by rw [conns, (allocHandle_spec found).2, mem_keys_insert]
  opens j opened := by
    obtain ⟨u, held, state⟩ := isOpen_iff.mp opened
    rw [conns, (allocHandle_spec found).2, get?_insert] at held
    split at held
    next same => exact Or.inl same.symm
    next => exact Or.inr (isOpen_iff.mpr ⟨u, held, state⟩)
  reaped := reaped.trans (flagged_allocHandle found).2.2

theorem bears_connect {addr : NetAddr} {now : Nat}
    (dialed : m.connect addr now = some (id, n)) : Bears id m n ∧ n.accepted = m.accepted := by
  unfold connect at dialed
  obtain ⟨⟨handle, held⟩, found, rest⟩ := Option.bind_eq_some_iff.mp dialed
  cases rest
  exact ⟨bears_alloc found rfl rfl, (flagged_allocHandle found).2.1⟩

def SparesClosing (m : UtpManager) (payload : Bytes) : Prop :=
  ∀ h, Header.decode payload = some h → h.ptype = ST_SYN → ∀ id s, m.expecting h.connId = some (id, s) → s.state ≠ .finSent

theorem acceptSyn_cases (m : UtpManager) (addr : NetAddr) (h : Header) (now : Nat) (w : H) :
    Steady m (acceptSyn host m addr h now w).1 ∨ ∃ id, Bears id m (acceptSyn host m addr h now w).1 ∧
      (acceptSyn host m addr h now w).1.accepted = m.accepted ++ [(id, addr)] := by
  unfold acceptSyn
  split
  · exact Or.inl (.refl m)
  next handle n found =>
    right
    refine ⟨handle, bears_alloc found rfl rfl, ?_⟩
    dsimp only
    rw [(flagged_allocHandle found).2.1]

theorem handleDatagram_cases (keyed : Keyed m.conns) {payload : Bytes} (spared : SparesClosing m payload)
    (addr : NetAddr) (now : Nat) (w : H) :
    Steady m (m.handleDatagram host addr payload now w).2.1 ∨ ∃ id, Bears id m (m.handleDatagram host addr payload now w).2.1 ∧
      (m.handleDatagram host addr payload now w).2.1.accepted = m.accepted ++ [(id, addr)] := by
  unfold handleDatagram
  split
  · exact Or.inl (.refl m)
  next h read =>
    split
    next id s found =>
      have held := (expecting_spec found).1
      rw [keyed id s held, held]
      left
      apply steady_insert held
      intro opened
      rw [UtpSocket.isOpen_iff] at opened ⊢
      intro shut
      exact opened (shut.onPacket host (fun syn => spared h read syn id s found) (payload.drop HDR_LEN) now w)
    next =>
      split
      · exact acceptSyn_cases host m addr h now w
      · exact Or.inl (.refl m)

structure Ticks (m n : UtpManager) : Prop where
  opens : ∀ id, n.isOpen id = true → m.isOpen id = true
  kept : ∀ id ∈ m.conns.keys, id ∈ n.conns.keys ∨ id ∈ n.reaped
  old : ∀ id ∈ n.conns.keys, id ∈ m.conns.keys
  accepted : n.accepted = m.accepted
  reaped : ∀ id ∈ m.reaped, id ∈ n.reaped
  gone : ∀ id ∈ n.reaped, id ∈ m.reaped ∨ id ∈ m.conns.keys ∧ id ∉ n.conns.keys

theorem Ticks.refl (m : UtpManager) : Ticks m m :=
  ⟨fun _ => id, fun _ => Or.inl, fun _ => id, rfl, fun _ => id, fun _ => Or.inl⟩

theorem Ticks.trans {m n k : UtpManager} (first : Ticks m n) (second : Ticks n k) : Ticks m k where
  opens id := first.opens id ∘ second.opens id
  kept id listed := by
    rcases first.kept id listed with still | gone
    · exact second.kept id still
    · exact Or.inr (second.reaped id gone)
  old id := first.old id ∘ second.old id
  accepted := second.accepted.trans first.accepted
  reaped id := second.reaped id ∘ first.reaped id
  gone id listed := by
    rcases second.gone id listed with before | ⟨held, lost⟩
    · exact (first.gone id before).imp_right (And.imp_right fun absent => absent ∘ second.old id)
    · exact Or.inr ⟨first.old id held, lost⟩

theorem ticks_tickOne (now : Nat) (acc : UtpManager × H) (id : ConnId) : Ticks acc.1 (tickOne host now acc id).1 := by
  unfold tickOne
  split
  · exact .refl _
  next s held =>
    have listed : id ∈ acc.1.conns.keys := (mem_keys_iff _ _).mpr ⟨s, held⟩
    have state := UtpSocket.state_driveSocket host s now acc.2
    dsimp only
    split
    · refine ⟨?_, ?_, ?_, rfl, ?_, ?_⟩
      · intro j opened
        obtain ⟨t, found, still⟩ := isOpen_iff.mp opened
        exact isOpen_iff.mpr ⟨t, get?_of_erase found, still⟩
      · intro j before
        by_cases same : j = id
        · exact Or.inr (List.mem_append_right _ (List.mem_singleton.mpr same))
        · exact Or.inl ((mem_keys_erase _ _ _).mpr ⟨same, before⟩)
      · exact fun j after => ((mem_keys_erase _ _ _).mp after).2
      · exact fun j before => List.mem_append_left _ before
      · intro j after
        rcases List.mem_append.mp after with before | now_gone
        · exact Or.inl before
        · rw [List.mem_singleton.mp now_gone]
          exact Or.inr ⟨listed, fun again => ((mem_keys_erase _ _ _).mp again).1 rfl⟩
    · have steady := steady_insert held (UtpSocket.isOpen_of_state state)
      exact ⟨steady.opens, fun j before => Or.inl ((steady.keys j).mpr before), fun j => (steady.keys j).mp, rfl,
        fun _ before => before, fun _ => Or.inl⟩

theorem ticks_tick (m : UtpManager) (now : Nat) (w : H) : Ticks m (m.tick host now w).1 := by
  unfold tick
  apply List.foldlRecOn (motive := fun acc : UtpManager × H => Ticks m acc.1) _ (tickOne host now) (.refl m)
  intro acc before id _
  exact before.trans (ticks_tickOne host now acc id)

end UtpManager
end TypeBit.Utp
