import TypeBit.Utp.Frame

/-! What a cumulative acknowledgement frees. The packets in flight are kept in numeric order, and the
acknowledgement is refused at the numerically first of them; what it covers is decided in circular order. -/

namespace TypeBit.Utp
open OrdMap
namespace UtpSocket

def flightBytes (s : UtpSocket) : Nat := s.unacked.total (fun _ u => u.payloadLen)

/-- The numbers in flight lie in half of the number space, wherever it starts. -/
def HalfWindow (s : UtpSocket) : Prop := ∃ base, ∀ seq ∈ s.unacked.keys, seq < 2 ^ 16 ∧ wsub16 seq base < 0x8000

/-- Exactly the packets that `ack` does not cover are left, and the flight counts their bytes. -/
structure AckComplete (s t : UtpSocket) (ack : Nat) : Prop where
  left : ∀ seq, t.unacked.get? seq = if seqLe seq ack then none else s.unacked.get? seq
  bytes : t.inFlight = t.flightBytes

section Acking
variable {s : UtpSocket}

theorem unacked_release (s : UtpSocket) (seq other : Nat) :
    (s.release seq).unacked.get? other = if seq = other then none else s.unacked.get? other := by
  unfold release
  split
  · exact get?_erase ..
  next absent =>
    split
    next same => exact same ▸ absent
    next => rfl

theorem unacked_releases (acked : List Nat) (s : UtpSocket) (seq : Nat) :
    (acked.foldl release s).unacked.get? seq = if seq ∈ acked then none else s.unacked.get? seq := by
  induction acked generalizing s with
  | nil => rfl
  | cons first tail ih =>
    rw [List.foldl_cons, ih, unacked_release]
    by_cases later : seq ∈ tail
    · rw [if_pos later, if_pos (List.mem_cons_of_mem first later)]
    · by_cases same : first = seq
      · rw [if_neg later, if_pos same, if_pos (same ▸ List.mem_cons_self)]
      · have absent : seq ∉ first :: tail := by
          rw [List.mem_cons, not_or]
          exact ⟨Ne.symm same, later⟩
        rw [if_neg later, if_neg same, if_neg absent]

theorem bytes_release (whole : s.inFlight = s.flightBytes) (seq : Nat) :
    (s.release seq).inFlight = (s.release seq).flightBytes := by
  unfold release
  split
  next u found =>
    have parts : s.flightBytes = u.payloadLen + (s.unacked.erase seq).total (fun _ u => u.payloadLen) :=
      total_erase found
    change s.inFlight - u.payloadLen = (s.unacked.erase seq).total (fun _ u => u.payloadLen)
    omega
  next => exact whole

theorem bytes_releases (acked : List Nat) (whole : s.inFlight = s.flightBytes) :
    (acked.foldl release s).inFlight = (acked.foldl release s).flightBytes := by
  induction acked generalizing s with
  | nil => exact whole
  | cons first tail ih => exact ih (bytes_release whole first)

def flight (s : UtpSocket) : OrdMap Nat Unacked × Nat := (s.unacked, s.inFlight)

theorem flight_maybeUpdateWindow (s : UtpSocket) (now : Nat) : (s.maybeUpdateWindow now).flight = s.flight := by
  unfold maybeUpdateWindow
  split <;> rfl

theorem flight_measure (s : UtpSocket) (h : Header) (now : Nat) : (s.measure h now).flight = s.flight := by
  unfold measure
  split <;> rfl

theorem flight_release {t : UtpSocket} (same : t.flight = s.flight) (seq : Nat) :
    (t.release seq).flight = (s.release seq).flight := by
  have unacked : t.unacked = s.unacked := congrArg Prod.fst same
  have inFlight : t.inFlight = s.inFlight := congrArg Prod.snd same
  unfold release
  rw [unacked]
  split
  · rw [flight, flight, inFlight]
  · exact same

theorem flight_releases {t : UtpSocket} (same : t.flight = s.flight) (acked : List Nat) :
    (acked.foldl release t).flight = (acked.foldl release s).flight := by
  induction acked generalizing s t with
  | nil => exact same
  | cons first tail ih => exact ih (flight_release same first)

def coversFirst (s : UtpSocket) (ack : Nat) : Bool := s.unacked.keys.head?.any (fun first => seqLe first ack)

theorem freeAcked_of_not_coversFirst {h : Header} (now : Nat) (uncovered : ¬ s.coversFirst h.ackNr = true) :
    s.freeAcked h now = s := by
  unfold freeAcked
  split
  · rfl
  next first tail keys =>
    have behind : ¬ seqLe first h.ackNr = true := by
      rw [coversFirst, keys] at uncovered
      exact uncovered
    exact if_neg behind

theorem flight_freeAcked_of_coversFirst {h : Header} (now : Nat) (covers : s.coversFirst h.ackNr = true) :
    (s.freeAcked h now).flight = ((s.unacked.keys.filter (fun seq => seqLe seq h.ackNr)).foldl release s).flight := by
  unfold freeAcked
  split
  next keys =>
    rw [coversFirst, keys] at covers
    cases covers
  next first tail keys =>
    have behind : seqLe first h.ackNr = true := by
      rw [coversFirst, keys] at covers
      exact covers
    rw [if_pos behind]
    dsimp only
    generalize (s.unacked.keys.filter (fun seq => seqLe seq h.ackNr)).foldl release s = t
    have updated := flight_maybeUpdateWindow { t with peerWnd := h.wndSize } now
    generalize maybeUpdateWindow _ now = u at updated
    split
    · exact updated
    · exact updated

theorem flight_onAck (s : UtpSocket) (h : Header) (now : Nat) :
    (s.onAck h now).flight =
      if s.coversFirst h.ackNr then
        ((s.unacked.keys.filter (fun seq => seqLe seq h.ackNr)).foldl release s).flight
      else s.flight := by
  have timed := flight_measure s h now
  unfold onAck
  dsimp only
  generalize s.measure h now = t at timed
  have joined : (if t.state = .synSent ∧ seqLe t.synSeq h.ackNr then { t with state := .connected } else t).flight =
      s.flight := by
    split
    · exact timed
    · exact timed
  generalize (if t.state = .synSent ∧ seqLe t.synSeq h.ackNr then { t with state := .connected } else t) = u at joined
  have unacked : u.unacked = s.unacked := congrArg Prod.fst joined
  have covers : u.coversFirst h.ackNr = s.coversFirst h.ackNr := by rw [coversFirst, coversFirst, unacked]
  by_cases first : s.coversFirst h.ackNr = true
  · rw [if_pos first, flight_freeAcked_of_coversFirst now (covers.trans first), unacked, flight_releases joined]
  · have uncovered : ¬ u.coversFirst h.ackNr = true := by rwa [covers]
    rw [if_neg first, freeAcked_of_not_coversFirst now uncovered, joined]

/-- An acknowledgement is complete exactly when it covers the numerically first packet in flight, or none. -/
theorem ack_complete_iff (s : UtpSocket) (h : Header) (now : Nat) (whole : s.inFlight = s.flightBytes) :
    AckComplete s (s.onAck h now) h.ackNr ↔
      ∀ first, s.unacked.keys.head? = some first →
        seqLe first h.ackNr = true ∨ ∀ seq ∈ s.unacked.keys, seqLe seq h.ackNr = false := by
  have same := flight_onAck s h now
  generalize s.onAck h now = t at same ⊢
  by_cases covers : s.coversFirst h.ackNr = true
  · -- the first packet is covered, and with it all that are covered
    rw [if_pos covers] at same
    have unacked : t.unacked = ((s.unacked.keys.filter (fun seq => seqLe seq h.ackNr)).foldl release s).unacked :=
      congrArg Prod.fst same
    have inFlight : t.inFlight = ((s.unacked.keys.filter (fun seq => seqLe seq h.ackNr)).foldl release s).inFlight :=
      congrArg Prod.snd same
    constructor
    · intro _ first head
      rw [coversFirst, head] at covers
      exact .inl covers
    · intro _
      refine ⟨fun seq => ?_, ?_⟩
      · rw [unacked, unacked_releases]
        by_cases covered : seqLe seq h.ackNr = true
        · rw [if_pos covered]
          cases found : s.unacked.get? seq with
          | none => exact ite_self none
          | some u =>
            have member : seq ∈ s.unacked.keys := (mem_keys_iff _ seq).mpr ⟨u, found⟩
            exact if_pos (List.mem_filter.mpr ⟨member, covered⟩)
        · rw [if_neg covered]
          have passed : seq ∉ s.unacked.keys.filter (fun seq => seqLe seq h.ackNr) := by
            intro member
            exact covered (List.mem_filter.mp member).2
          exact if_neg passed
      · have kept := bytes_releases (s.unacked.keys.filter (fun seq => seqLe seq h.ackNr)) whole
        rw [inFlight, kept, flightBytes, flightBytes, unacked]
  · -- nothing is freed
    rw [if_neg covers] at same
    have unacked : t.unacked = s.unacked := congrArg Prod.fst same
    have inFlight : t.inFlight = s.inFlight := congrArg Prod.snd same
    constructor
    · intro complete first _
      right
      intro seq member
      obtain ⟨u, found⟩ := (mem_keys_iff _ seq).mp member
      have left := complete.left seq
      rw [unacked, found] at left
      by_contra covered
      rw [if_pos (by simpa using covered)] at left
      cases left
    · intro none
      refine ⟨fun seq => ?_, ?_⟩
      · rw [unacked]
        split_ifs with covered
        · cases found : s.unacked.get? seq with
          | none => rfl
          | some u =>
            have member : seq ∈ s.unacked.keys := (mem_keys_iff _ seq).mpr ⟨u, found⟩
            obtain ⟨first, head⟩ := Option.isSome_iff_exists.mp (List.isSome_head?.mpr (List.ne_nil_of_mem member))
            rw [coversFirst, head] at covers
            have free := (none first head).resolve_left covers seq member
            rw [covered] at free
            cases free
        · rfl
      · rw [inFlight, whole, flightBytes, flightBytes, unacked]

def pairInFlight (seq other : Nat) : UtpSocket :=
  { UtpSocket.new 1 NetAddr.unspecified 1 2 0 with
    state := .connected
    unacked := ((∅ : OrdMap Nat Unacked).insert seq ⟨[], 1, 0, 0⟩).insert other ⟨[], 1, 0, 0⟩
    inFlight := 2 }

def plainAck (ackNr : Nat) : Header := ⟨ST_STATE, EXT_NONE, 2, 0, 0, RECV_WINDOW, 0, ackNr⟩

theorem ack_complete_iff_middle :
    AckComplete (pairInFlight 5 6) ((pairInFlight 5 6).onAck (plainAck 5) 9) 5 ↔
      ∀ first, (pairInFlight 5 6).unacked.keys.head? = some first →
        seqLe first 5 = true ∨ ∀ seq ∈ (pairInFlight 5 6).unacked.keys, seqLe seq 5 = false :=
  ack_complete_iff (pairInFlight 5 6) (plainAck 5) 9 (by decide)

/-- Packets 65535 and 0 are in flight; an acknowledgement of the first of them frees nothing. -/
theorem wrapped_ack_frees_nothing : ¬ ∀ (s : UtpSocket) (h : Header) (now : Nat), s.HalfWindow → s.inFlight = s.flightBytes →
    AckComplete s (s.onAck h now) h.ackNr := by
  intro always
  have half : (pairInFlight 65535 0).HalfWindow := ⟨65535, by decide⟩
  have complete := always (pairInFlight 65535 0) (plainAck 65535) 9 half (by decide)
  exact absurd (complete.left 65535) (by decide)

end Acking
end UtpSocket
end TypeBit.Utp
