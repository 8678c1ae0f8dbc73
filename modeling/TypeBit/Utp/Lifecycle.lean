import TypeBit.Utp.Contiguity
import TypeBit.Utp.Opening

/-! The life of a uTP socket. It only ever moves on, from dialing over connected and closing to closed, but for a SYN that
reaches it while it is closing. The FIN is not kept with the packets in flight: its acknowledgement closes the socket
when it also frees the last of those, and not otherwise. -/

namespace TypeBit.Utp
open UtpManager UtpSocket

def UtpState.rank : UtpState → Nat
  | .synSent => 0
  | .connected => 1
  | .finSent => 2
  | .closed => 3

def UtpState.Before (a b : UtpState) : Prop := a.rank ≤ b.rank

instance : DecidableRel UtpState.Before := fun a b => inferInstanceAs (Decidable (a.rank ≤ b.rank))

instance : Trans UtpState.Before UtpState.Before UtpState.Before := ⟨fun first second => Nat.le_trans first second⟩

theorem UtpState.Before.refl (a : UtpState) : a.Before a := Nat.le_refl a.rank

theorem UtpState.before_closed (a : UtpState) : a.Before .closed := by cases a <;> decide

theorem UtpState.before_of_closed {a b : UtpState} (state : b = a ∨ b = .closed) : a.Before b := by
  rcases state with rfl | rfl
  · exact .refl b
  · exact before_closed a

namespace UtpSocket

/-! ### What an acknowledgement does to the state -/

theorem state_measure (s : UtpSocket) (h : Header) (now : Nat) : (s.measure h now).state = s.state := by
  unfold measure
  split
  · rfl
  · rfl

theorem state_maybeUpdateWindow (s : UtpSocket) (now : Nat) : (s.maybeUpdateWindow now).state = s.state := by
  unfold maybeUpdateWindow
  split
  · rfl
  · rfl

theorem before_onAck (s : UtpSocket) (h : Header) (now : Nat) : s.state.Before (s.onAck h now).state := by
  have timed := state_measure s h now
  unfold onAck
  dsimp only
  generalize s.measure h now = t at timed
  rw [← timed]
  split
  next joins =>
    -- the handshake moves on by one, and what is freed may then close the socket
    have joined : t.state.Before .connected := by
      rw [joins.1]
      decide
    exact Trans.trans joined (UtpState.before_of_closed (state_freeAcked _ h now))
  next => exact UtpState.before_of_closed (state_freeAcked t h now)

/-- The acknowledgement frees the last packets in flight, of which there are some. -/
def Clears (s : UtpSocket) (ack : Nat) : Prop := s.unacked.keys ≠ [] ∧ ∀ seq ∈ s.unacked.keys, seqLe seq ack = true

instance (s : UtpSocket) (ack : Nat) : Decidable (s.Clears ack) := inferInstanceAs (Decidable (_ ∧ _))

theorem releases_isEmpty_iff (s : UtpSocket) (ack : Nat) :
    ((s.unacked.keys.filter (fun seq => seqLe seq ack)).foldl release s).unacked.isEmpty = true ↔
      ∀ seq ∈ s.unacked.keys, seqLe seq ack = true := by
  rw [OrdMap.isEmpty_iff]
  constructor
  · intro freed seq member
    obtain ⟨u, found⟩ := (OrdMap.mem_keys_iff _ seq).mp member
    have gone := freed seq
    rw [unacked_releases, found] at gone
    by_contra uncovered
    have passed : seq ∉ s.unacked.keys.filter (fun seq => seqLe seq ack) := fun listed => uncovered (List.mem_filter.mp listed).2
    rw [if_neg passed] at gone
    cases gone
  · intro covered seq
    rw [unacked_releases]
    split
    · rfl
    next passed =>
      cases found : s.unacked.get? seq with
      | none => rfl
      | some u =>
        have member : seq ∈ s.unacked.keys := (OrdMap.mem_keys_iff _ seq).mpr ⟨u, found⟩
        exact absurd (List.mem_filter.mpr ⟨member, covered seq member⟩) passed

theorem closed_freeAcked_iff {s : UtpSocket} (closing : s.state = .finSent) (h : Header) (now : Nat) :
    (s.freeAcked h now).state = .closed ↔ s.Clears h.ackNr := by
  have empty := releases_isEmpty_iff s h.ackNr
  unfold freeAcked Clears
  cases keys : s.unacked.keys with
  | nil => simp [closing]
  | cons first tail =>
    rw [keys] at empty
    dsimp only
    by_cases covers : seqLe first h.ackNr = true
    · rw [if_pos covers]
      have freed := state_releases ((first :: tail).filter (fun seq => seqLe seq h.ackNr)) s
      generalize ((first :: tail).filter (fun seq => seqLe seq h.ackNr)).foldl release s = t at empty freed
      have state := state_maybeUpdateWindow { t with peerWnd := h.wndSize } now
      have unacked : (maybeUpdateWindow { t with peerWnd := h.wndSize } now).unacked = t.unacked :=
        congrArg Prod.fst (flight_maybeUpdateWindow { t with peerWnd := h.wndSize } now)
      generalize maybeUpdateWindow { t with peerWnd := h.wndSize } now = u at state unacked
      have still : u.state = .finSent := state.trans (freed.trans closing)
      rw [← unacked] at empty
      split
      next cleared => exact ⟨fun _ => ⟨List.cons_ne_nil first tail, empty.mp cleared.2⟩, fun _ => rfl⟩
      next left =>
        constructor
        · intro closed
          cases still.symm.trans closed
        · exact fun cleared => absurd ⟨still, empty.mpr cleared.2⟩ left
    · rw [if_neg covers]
      constructor
      · intro closed
        cases closing.symm.trans closed
      · exact fun cleared => absurd (cleared.2 first List.mem_cons_self) covers

theorem closed_onAck_iff {s : UtpSocket} (closing : s.state = .finSent) (h : Header) (now : Nat) :
    (s.onAck h now).state = .closed ↔ s.Clears h.ackNr := by
  have timed := state_measure s h now
  have unacked : (s.measure h now).unacked = s.unacked := congrArg Prod.fst (flight_measure s h now)
  have cleared : (s.measure h now).Clears h.ackNr ↔ s.Clears h.ackNr := by rw [Clears, Clears, unacked]
  unfold onAck
  dsimp only
  rw [if_neg (fun joins => by cases closing.symm.trans (timed.symm.trans joins.1)), ← cleared]
  exact closed_freeAcked_iff (timed.trans closing) h now

/-! ### What a packet does to the state -/

theorem before_absorb {s : UtpSocket} {h : Header} (spared : h.ptype = ST_SYN → s.state ≠ .finSent) (payload : Bytes)
    (now : Nat) : s.state.Before (s.absorb h payload now).state := by
  unfold absorb
  dsimp only
  split
  next syn =>
    have other := spared syn
    split
    next alive =>
      show s.state.Before .connected
      cases state : s.state with
      | synSent => decide
      | connected => decide
      | finSent => exact absurd state other
      | closed => exact absurd state alive
    · exact .refl _
  split
  · exact before_onAck { s with lastActivity := now } h now
  split
  · rw [state_onData]
    exact before_onAck { s with lastActivity := now, lastRecvAt := now, lastDataTs := h.timestamp } h now
  split
  · exact before_onAck { s with lastActivity := now, lastRecvAt := now } h now
  split
  · exact UtpState.before_closed s.state
  · exact .refl _

section Host
variable {H : Type} (host : UdpHost H)

theorem state_onPacket (s : UtpSocket) (h : Header) (payload : Bytes) (now : Nat) (w : H) :
    (s.onPacket host h payload now w).1.state = (s.absorb h payload now).state := by
  unfold onPacket
  dsimp only
  split
  · exact state_sendAck host _ now w
  · rfl

theorem closed_onPacket_iff {s : UtpSocket} (closing : s.state = .finSent) {h : Header} (acking : acks h = true)
    (payload : Bytes) (now : Nat) (w : H) :
    (s.onPacket host h payload now w).1.state = .closed ↔ s.Clears h.ackNr := by
  rw [state_onPacket]
  unfold absorb
  dsimp only
  unfold acks at acking
  rcases of_decide_eq_true acking with type | type | type
  · rw [if_neg (by rw [type]; decide), if_pos type]
    exact closed_onAck_iff (s := { s with lastActivity := now }) closing h now
  · rw [if_neg (by rw [type]; decide), if_neg (by rw [type]; decide), if_pos type, state_onData]
    exact closed_onAck_iff (s := { s with lastActivity := now, lastRecvAt := now, lastDataTs := h.timestamp }) closing h now
  · rw [if_neg (by rw [type]; decide), if_neg (by rw [type]; decide), if_neg (by rw [type]; decide), if_pos type]
    exact closed_onAck_iff (s := { s with lastActivity := now, lastRecvAt := now }) closing h now

end Host
end UtpSocket

/-! ### The states of a run -/

section Line
variable {H : Type} (host : UdpHost H)

def lineStates : List (Turn H) → Line H → List UtpState
  | [], l => [l.sock.state]
  | turn :: rest, l => l.sock.state :: lineStates rest (l.turn host turn)

/-- No later state lies behind an earlier one. -/
def OneWay (turns : List (Turn H)) (l : Line H) : Prop := (lineStates host turns l).Pairwise UtpState.Before

/-- The turn hands a SYN to a socket that is closing. -/
def LateSyn (turn : Turn H) (l : Line H) : Prop :=
  l.sock.state = .finSent ∧ ∃ h payload now, turn = .packet h payload now ∧ h.ptype = ST_SYN

/-- The packet acknowledges the FIN that the closing socket has sent. -/
def FinAcked (l : Line H) (h : Header) : Prop :=
  l.sock.state = .finSent ∧ acks h = true ∧
    ∃ c ∈ l.host.calls, ∃ fin, Header.decode c.packet = some fin ∧ fin.ptype = ST_FIN ∧ seqLe fin.seqNr h.ackNr = true

theorem lineStates_eq_cons (turns : List (Turn H)) (l : Line H) : ∃ later, lineStates host turns l = l.sock.state :: later := by
  cases turns with
  | nil => exact ⟨[], rfl⟩
  | cons turn rest => exact ⟨_, rfl⟩

theorem oneWay_iff (turns : List (Turn H)) (l : Line H) :
    OneWay host turns l ↔ ∀ m ∈ lineMoments host turns l, m.2.sock.state.Before (m.2.turn host m.1).sock.state := by
  unfold OneWay
  rw [← List.isChain_iff_pairwise]
  induction turns generalizing l with
  | nil => simp [lineStates, lineMoments]
  | cons turn rest ih =>
    obtain ⟨later, states⟩ := lineStates_eq_cons host rest (l.turn host turn)
    have tail := ih (l.turn host turn)
    rw [states] at tail
    rw [lineStates, states, List.isChain_cons_cons, tail, lineMoments, List.forall_mem_cons]

variable {host} {l : Line H}

theorem before_turn {turn : Turn H} (inTime : ¬ LateSyn turn l) : l.sock.state.Before (l.turn host turn).sock.state := by
  cases turn with
  | send data =>
    rw [turn_send]
    split
    · exact .refl _
    · exact .refl _
  | recv n => exact .refl _
  | close =>
    show l.sock.state.Before (if l.sock.isConnected then .finSent else .closed)
    split
    next connected =>
      have state : l.sock.state = .connected := of_decide_eq_true connected
      rw [state]
      decide
    next => exact UtpState.before_closed _
  | packet h payload now =>
    have spared : h.ptype = ST_SYN → l.sock.state ≠ .finSent := fun syn closing =>
      inTime ⟨closing, h, payload, now, rfl, syn⟩
    have moved := before_absorb spared payload now
    rw [← state_onPacket (recording host) l.sock h payload now l.host] at moved
    exact moved
  | tick now => exact UtpState.before_of_closed (state_driveSocket (recording host) l.sock now l.host)
  | others inner => exact .refl _

theorem lateSyn_turn {turn : Turn H} (late : LateSyn turn l) : (l.turn host turn).sock.state = .connected := by
  obtain ⟨closing, h, payload, now, rfl, syn⟩ := late
  have absorbed : (l.sock.absorb h payload now).state = .connected := by
    unfold absorb
    dsimp only
    rw [if_pos syn, if_pos (by rw [closing]; decide)]
  exact (state_onPacket (recording host) l.sock h payload now l.host).trans absorbed

/-- In every run of a socket its state only moves on exactly when no SYN reaches it while it is closing; and a packet
that acknowledges its FIN closes it exactly when it also acknowledges packets in flight, and the last of them. -/
theorem lifecycle_iff (turns : List (Turn H)) (l : Line H) :
    (OneWay host turns l ↔ ∀ m ∈ lineMoments host turns l, ¬ LateSyn m.1 m.2) ∧
    ∀ m ∈ lineMoments host turns l, ∀ h payload now, m.1 = .packet h payload now → FinAcked m.2 h →
      ((m.2.turn host m.1).sock.state = .closed ↔ m.2.sock.Clears h.ackNr) := by
  constructor
  · rw [oneWay_iff]
    constructor
    · intro forward m member late
      have moved := forward m member
      rw [lateSyn_turn late, late.1] at moved
      exact absurd moved (by decide)
    · exact fun inTime m member => before_turn (inTime m member)
  · intro m _ h payload now packet acked
    rw [packet]
    exact closed_onPacket_iff (recording host) acked.1 acked.2.1 payload now m.2.host

end Line

/-! ### A socket that was accepted and closed -/

def duplicateSyn : Header := ⟨ST_SYN, EXT_NONE, 5, 0, 0, 0, 0, 0⟩

def finishing : Line Unit := (answered.turn taking .close).turn taking (.tick 1)

/-- A duplicate SYN reopens a closing socket, and the acknowledgement of its FIN does not close it. -/
theorem closing_socket_reopened :
    ¬ (∀ (turns : List (Turn Unit)) (l : Line Unit), Born taking l → OneWay taking turns l) ∧
    ¬ (∀ (turns : List (Turn Unit)) (l : Line Unit), Born taking l →
      ∀ m ∈ lineMoments taking turns l, ∀ h payload now, m.1 = .packet h payload now → FinAcked m.2 h →
        (m.2.turn taking m.1).sock.state = .closed) := by
  have born : Born taking answered := .accepted _ _ _ _ _
  constructor
  · intro always
    have oneWay := always [.close, .packet duplicateSyn [] 1] answered born
    unfold OneWay at oneWay
    revert oneWay
    decide
  · intro always
    have found : (finishing.host.calls.any fun c =>
        (Header.decode c.packet).any fun fin => decide (fin.ptype = ST_FIN) && seqLe fin.seqNr 0) = true := by
      decide
    obtain ⟨c, listed, reads⟩ := List.any_eq_true.mp found
    obtain ⟨fin, read, covered⟩ := (Option.any_eq_true _ _).mp reads
    have parts := (Bool.and_eq_true _ _).mp covered
    have acked : FinAcked finishing (plainAck 0) :=
      ⟨by decide, by decide, c, listed, fin, read, of_decide_eq_true parts.1, parts.2⟩
    have last : (Turn.packet (plainAck 0) [] 2, finishing) ∈ lineMoments taking
        [.close, .tick 1, .packet (plainAck 0) [] 2] answered := by
      simp [lineMoments, finishing]
    have closed := always _ answered born _ last _ _ _ rfl acked
    revert closed
    decide

end TypeBit.Utp
