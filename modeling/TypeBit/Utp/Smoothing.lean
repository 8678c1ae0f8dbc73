import Mathlib.Logic.Function.Iterate
import TypeBit.Utp.Opening

/-! The round-trip time of a uTP socket. An acknowledgement echoes the time at which we sent, cut to 32 bits, and how long the
peer held it. The source subtracts the echo from the uncut clock, and weighs the sample as much as the old value: seven
eighths of both together, which is no average of them and settles near seven times the sample. -/

namespace TypeBit.Utp
open UtpManager
namespace UtpSocket

def sampled (h : Header) (now : Nat) : Option Nat :=
  if h.timestamp ≠ 0 ∧ h.timestamp < now then some (max (now - h.timestamp - h.timestampDiff) 1) else none

def smooth (rtt sample : Nat) : Nat := wmul 7 (satAdd rtt sample) / 8

/-! ### What moves the round-trip time -/

theorem rtt_maybeUpdateWindow (s : UtpSocket) (now : Nat) : (s.maybeUpdateWindow now).rtt = s.rtt := by
  unfold maybeUpdateWindow
  split
  · rfl
  · rfl

theorem rtt_releases (acked : List Nat) (s : UtpSocket) : (acked.foldl release s).rtt = s.rtt := by
  induction acked generalizing s with
  | nil => rfl
  | cons seq rest ih =>
    rw [List.foldl_cons, ih]
    unfold release
    split
    · rfl
    · rfl

theorem rtt_freeAcked (s : UtpSocket) (h : Header) (now : Nat) : (s.freeAcked h now).rtt = s.rtt := by
  unfold freeAcked
  split
  · rfl
  split
  · dsimp only
    have freed := rtt_releases (s.unacked.keys.filter (fun seq => seqLe seq h.ackNr)) s
    generalize (s.unacked.keys.filter (fun seq => seqLe seq h.ackNr)).foldl release s = t at freed
    have updated := (rtt_maybeUpdateWindow { t with peerWnd := h.wndSize } now).trans freed
    generalize maybeUpdateWindow { t with peerWnd := h.wndSize } now = u at updated
    split
    · exact updated
    · exact updated
  · rfl

theorem rtt_measure (s : UtpSocket) (h : Header) (now : Nat) :
    (s.measure h now).rtt = ((sampled h now).map (smooth s.rtt)).getD s.rtt := by
  unfold measure sampled
  split
  · rfl
  · rfl

theorem rtt_onAck (s : UtpSocket) (h : Header) (now : Nat) :
    (s.onAck h now).rtt = ((sampled h now).map (smooth s.rtt)).getD s.rtt := by
  rw [← rtt_measure]
  unfold onAck
  dsimp only
  rw [rtt_freeAcked]
  split
  · rfl
  · rfl

theorem rtt_drain (fuel : Nat) (s : UtpSocket) : (drain fuel s).rtt = s.rtt := by
  induction fuel generalizing s with
  | zero => rfl
  | succ fuel ih =>
    unfold drain
    dsimp only
    split
    · exact ih _
    · rfl

theorem rtt_onData (s : UtpSocket) (h : Header) (payload : Bytes) : (s.onData h payload).rtt = s.rtt := by
  unfold onData
  split
  · rfl
  split
  · rfl
  split
  · rfl
  split
  · exact rtt_drain _ _
  · dsimp only
    split
    · rfl
    · rfl

/-! ### The round-trip time stays in range -/

/-- The round-trip time is an eighth of a 64-bit number. -/
def Paced (s : UtpSocket) : Prop := s.rtt < 2 ^ 61

theorem smooth_lt (rtt sample : Nat) : smooth rtt sample < 2 ^ 61 := by
  have small : wmul 7 (satAdd rtt sample) < 2 ^ 64 := Nat.mod_lt _ (by decide)
  unfold smooth
  omega

theorem Paced.onAck {s : UtpSocket} (paced : s.Paced) (h : Header) (now : Nat) : (s.onAck h now).Paced := by
  unfold Paced
  rw [rtt_onAck]
  cases sampled h now with
  | none => exact paced
  | some sample => exact smooth_lt s.rtt sample

theorem Paced.absorb {s : UtpSocket} (paced : s.Paced) (h : Header) (payload : Bytes) (now : Nat) :
    (s.absorb h payload now).Paced := by
  unfold UtpSocket.absorb
  dsimp only
  split
  · split
    · exact paced
    · exact paced
  split
  · exact Paced.onAck (s := { s with lastActivity := now }) paced h now
  split
  · unfold Paced
    rw [rtt_onData]
    exact Paced.onAck (s := { s with lastActivity := now, lastRecvAt := now, lastDataTs := h.timestamp }) paced h now
  split
  · exact Paced.onAck (s := { s with lastActivity := now, lastRecvAt := now }) paced h now
  split
  · exact paced
  · exact paced

section Host
variable {H : Type} (host : UdpHost H)

theorem rtt_sendAck (s : UtpSocket) (now : Nat) (w : H) : (s.sendAck host now w).1.rtt = s.rtt := by
  unfold sendAck
  split
  · rfl
  · rfl

theorem rtt_sendSyn (s : UtpSocket) (now : Nat) (w : H) : (s.sendSyn host now w).1.rtt = s.rtt := by
  unfold sendSyn
  split
  · dsimp only
    split
    · rfl
    · rfl
  · rfl

theorem rtt_transmit (s : UtpSocket) (now : Nat) (w : H) : (s.transmit host now w).1.rtt = s.rtt := by
  have looped : ∀ (fuel : Nat) (s : UtpSocket) (w : H), (transmitLoop host fuel s now w).1.rtt = s.rtt := by
    intro fuel
    induction fuel with
    | zero => exact fun s w => rfl
    | succ fuel ih =>
      intro s w
      unfold transmitLoop
      split
      · rfl
      split
      · rfl
      split
      · exact ih _ _
      · rfl
  unfold transmit
  split
  · rfl
  · exact looped _ s w

theorem rtt_emit (s : UtpSocket) (now : Nat) (w : H) : (emit host s now w).1.rtt = s.rtt := by
  unfold emit
  cases s.state with
  | synSent =>
    dsimp only
    split
    · exact rtt_sendSyn host s now w
    · rfl
  | connected => exact rtt_transmit host s now w
  | finSent =>
    dsimp only
    split
    · rw [← rtt_transmit host s now w]
      unfold sendFin
      split
      · rfl
      · rfl
    · exact rtt_transmit host s now w
  | closed => rfl

theorem rtt_resend (expired : List Nat) (s : UtpSocket) (now : Nat) (w : H) : (resend host expired s now w).1.rtt = s.rtt := by
  induction expired generalizing s w with
  | nil => rfl
  | cons seq rest ih =>
    unfold resend
    split
    · exact ih s w
    next u _ =>
      split
      · rfl
      · exact ih (s.retry seq u now) _

theorem rtt_tickRetransmit (s : UtpSocket) (now : Nat) (w : H) : (s.tickRetransmit host now w).1.rtt = s.rtt := by
  have resent : (s.retransmit host now w).1.rtt = s.rtt := by
    unfold retransmit
    split
    · split
      · split
        · rfl
        · exact rtt_sendSyn host s now w
      · rfl
    · exact rtt_resend host _ s now w
    · exact rtt_resend host _ s now w
    · rfl
  unfold tickRetransmit
  dsimp only
  split
  · rw [rtt_sendAck]
    exact resent
  · exact resent

theorem rtt_driveSocket (s : UtpSocket) (now : Nat) (w : H) : (driveSocket host s now w).1.rtt = s.rtt := by
  rw [driveSocket_eq]
  dsimp only
  have ticked := rtt_tickRetransmit host (emit host s now w).1 now (emit host s now w).2
  rw [rtt_emit] at ticked
  unfold expire
  split
  · exact ticked
  · exact ticked

end Host
end UtpSocket

section Line
variable {H : Type} {host : UdpHost H} {l : Line H}

theorem paced_born (born : Born host l) : l.sock.Paced := by
  cases born with
  | dialed handle addr sendId now narrow w => exact (by decide : RTO_MIN_US < 2 ^ 61)
  | accepted handle addr h now w =>
    show (UtpSocket.sendAck _ _ _ _).1.rtt < 2 ^ 61
    rw [UtpSocket.rtt_sendAck]
    exact (by decide : RTO_MIN_US < 2 ^ 61)

theorem paced_turn (paced : l.sock.Paced) (turn : Turn H) : (l.turn host turn).sock.Paced := by
  cases turn with
  | send data =>
    rw [turn_send]
    split
    · exact paced
    · exact paced
  | recv n => exact paced
  | close => exact paced
  | packet h payload now =>
    have absorbed := paced.absorb h payload now
    show (l.sock.onPacket (recording host) h payload now l.host).1.rtt < 2 ^ 61
    unfold UtpSocket.onPacket
    dsimp only
    split
    · rw [UtpSocket.rtt_sendAck]
      exact absorbed
    · exact absorbed
  | tick now =>
    show (driveSocket (recording host) l.sock now l.host).1.rtt < 2 ^ 61
    rw [UtpSocket.rtt_driveSocket]
    exact paced
  | others inner => exact paced

theorem paced_moments (born : Born host l) (turns : List (Turn H)) : ∀ m ∈ lineMoments host turns l, m.2.sock.Paced :=
  moments_invariant (P := fun l => l.sock.Paced) (Q := fun _ _ => True) (fun _ turn paced _ => paced_turn paced turn) turns
    (paced_born born) (fun _ _ => trivial)

end Line

namespace UtpSocket

/-! ### The sample -/

/-- The packet echoes the time `sent`, as a DATA packet of the socket carried it; zero echoes nothing. -/
structure Echo (s : UtpSocket) (h : Header) (sent now : Nat) : Prop where
  past : sent < now
  timestamp : h.timestamp = (s.hdr ST_DATA s.nextSeq s.ackNr sent).timestamp
  marked : h.timestamp ≠ 0

/-- The time that has passed, in 32 bits, less the time that the peer held the packet; at least one microsecond, as in the
source. -/
def trueSample (sent now held : Nat) : Nat := max ((now - sent) % 2 ^ 32 - held) 1

/-- The clock is less than 2^32 past the echo, or the peer held the packet all that time. -/
def Unwrapped (h : Header) (now : Nat) : Prop := now < h.timestamp + 2 ^ 32 ∨ now ≤ h.timestamp + h.timestampDiff + 1

instance (h : Header) (now : Nat) : Decidable (Unwrapped h now) := inferInstanceAs (Decidable (_ ∨ _))

theorem trueSample_bounds (sent now held : Nat) : 0 < trueSample sent now held ∧ trueSample sent now held < 2 ^ 32 := by
  unfold trueSample
  have cut := Nat.mod_lt (now - sent) (by decide : 2 ^ 32 > 0)
  omega

variable {s : UtpSocket}

theorem sampled_iff {h : Header} {sent now : Nat} (echo : s.Echo h sent now) :
    sampled h now = some (trueSample sent now h.timestampDiff) ↔ Unwrapped h now := by
  have stamp : h.timestamp = sent % 2 ^ 32 := echo.timestamp
  have past := echo.past
  have earlier : h.timestamp < now := by omega
  unfold sampled trueSample Unwrapped
  rw [if_pos ⟨echo.marked, earlier⟩, Option.some.injEq]
  -- the clock past the echo is the time that has passed, give or take whole turns of the 32-bit clock
  have turns : (now - sent) % 2 ^ 32 = (now - h.timestamp) % 2 ^ 32 := by omega
  rw [turns]
  omega

/-! ### The average -/

/-- The sample of the acknowledgement is the true one, and the new round-trip time lies between the old one and it. -/
def Averages (s : UtpSocket) (h : Header) (sent now : Nat) : Prop :=
  sampled h now = some (trueSample sent now h.timestampDiff) ∧
    min s.rtt (trueSample sent now h.timestampDiff) ≤ (s.onAck h now).rtt ∧
    (s.onAck h now).rtt ≤ max s.rtt (trueSample sent now h.timestampDiff)

instance (s : UtpSocket) (h : Header) (sent now : Nat) : Decidable (s.Averages h sent now) :=
  inferInstanceAs (Decidable (_ ∧ _ ∧ _))

/-- One value is at least about seven times the other. -/
def Lopsided (rtt sample : Nat) : Prop := 7 * min rtt sample ≤ max rtt sample + 7

instance (rtt sample : Nat) : Decidable (Lopsided rtt sample) := inferInstanceAs (Decidable (_ ≤ _))

variable {rtt sample : Nat}

theorem smooth_eq (paced : rtt < 2 ^ 61) (short : sample < 2 ^ 32) : smooth rtt sample = 7 * (rtt + sample) / 8 := by
  have sum : satAdd rtt sample = rtt + sample := by
    unfold satAdd
    omega
  rw [smooth, sum, wmul_of_lt (by omega)]

theorem between_iff (paced : rtt < 2 ^ 61) (short : sample < 2 ^ 32) :
    (min rtt sample ≤ smooth rtt sample ∧ smooth rtt sample ≤ max rtt sample) ↔ Lopsided rtt sample := by
  rw [smooth_eq paced short]
  unfold Lopsided
  omega

theorem averages_iff (paced : s.Paced) {h : Header} {sent now : Nat} (echo : s.Echo h sent now) :
    s.Averages h sent now ↔ Unwrapped h now ∧ Lopsided s.rtt (trueSample sent now h.timestampDiff) := by
  have short := (trueSample_bounds sent now h.timestampDiff).2
  rw [← sampled_iff echo, ← between_iff paced short]
  unfold Averages
  rw [rtt_onAck]
  constructor
  · rintro ⟨sample, between⟩
    rw [sample] at between
    exact ⟨sample, between⟩
  · rintro ⟨sample, between⟩
    rw [sample]
    exact ⟨rfl, between⟩

/-! ### A constant sample -/

def acknowledged (s : UtpSocket) (acks : List (Header × Nat)) : UtpSocket := acks.foldl (fun s a => s.onAck a.1 a.2) s

/-- Enough acknowledgements with this sample bring the round-trip time to it, up to the rounding of eighths. -/
def Converges (s : UtpSocket) (sample : Nat) : Prop :=
  ∃ enough, ∀ acks : List (Header × Nat), (∀ a ∈ acks, sampled a.1 a.2 = some sample) → enough ≤ acks.length →
    (s.acknowledged acks).rtt < sample + 8 ∧ sample < (s.acknowledged acks).rtt + 8

/-- Where a constant sample takes the round-trip time: into the seven numbers below seven times the sample. -/
def settledRtt (rtt sample : Nat) : Nat := max (7 * sample - 7) (min rtt (7 * sample))

theorem rtt_acknowledged (s : UtpSocket) (acks : List (Header × Nat)) (constant : ∀ a ∈ acks, sampled a.1 a.2 = some sample) :
    (s.acknowledged acks).rtt = (fun rtt => smooth rtt sample)^[acks.length] s.rtt := by
  induction acks generalizing s with
  | nil => rfl
  | cons a rest ih =>
    have first : (s.onAck a.1 a.2).rtt = smooth s.rtt sample := by
      rw [rtt_onAck, constant a List.mem_cons_self]
      rfl
    have later := ih (s.onAck a.1 a.2) (fun b member => constant b (List.mem_cons_of_mem a member))
    rw [first] at later
    exact later

theorem smooth_nearer (paced : rtt < 2 ^ 61) (short : sample < 2 ^ 32) :
    settledRtt (smooth rtt sample) sample = settledRtt rtt sample ∧
      (rtt < settledRtt rtt sample → rtt < smooth rtt sample ∧ smooth rtt sample ≤ settledRtt rtt sample) ∧
      (settledRtt rtt sample < rtt → smooth rtt sample < rtt ∧ settledRtt rtt sample ≤ smooth rtt sample) ∧
      (rtt = settledRtt rtt sample → smooth rtt sample = rtt) := by
  rw [smooth_eq paced short]
  unfold settledRtt
  omega

theorem smooth_settles (short : sample < 2 ^ 32) (far : Nat) (paced : rtt < 2 ^ 61)
    (above : rtt ≤ settledRtt rtt sample + far) (below : settledRtt rtt sample ≤ rtt + far) :
    (fun rtt => smooth rtt sample)^[far] rtt = settledRtt rtt sample := by
  induction far generalizing rtt with
  | zero => exact Nat.le_antisymm above below
  | succ far ih =>
    obtain ⟨kept, rises, falls, rests⟩ := smooth_nearer paced short
    rw [Function.iterate_succ_apply, ← kept]
    apply ih (smooth_lt rtt sample)
    · rw [kept]
      rcases Nat.lt_trichotomy rtt (settledRtt rtt sample) with under | here | beyond
      · have nearer := rises under
        omega
      · rw [rests here]
        omega
      · have nearer := falls beyond
        omega
    · rw [kept]
      rcases Nat.lt_trichotomy rtt (settledRtt rtt sample) with under | here | beyond
      · have nearer := rises under
        omega
      · rw [rests here]
        omega
      · have nearer := falls beyond
        omega

def echoing (sample : Nat) : Header × Nat := (⟨ST_STATE, EXT_NONE, 2, 1, 0, RECV_WINDOW, 0, 0⟩, sample + 1)

theorem sampled_echoing (positive : 0 < sample) : sampled (echoing sample).1 (echoing sample).2 = some sample := by
  unfold sampled echoing
  rw [if_pos ⟨Nat.one_ne_zero, Nat.lt_add_of_pos_left positive⟩, Option.some.injEq]
  show max (sample + 1 - 1 - 0) 1 = sample
  omega

theorem converges_iff (paced : s.Paced) (positive : 0 < sample) (short : sample < 2 ^ 32) :
    s.Converges sample ↔ sample = 1 ∨ sample = 2 ∧ s.rtt ≤ 9 := by
  have settled : ∀ acks : List (Header × Nat), (∀ a ∈ acks, sampled a.1 a.2 = some sample) →
      s.rtt + 7 * sample ≤ acks.length → (s.acknowledged acks).rtt = settledRtt s.rtt sample := by
    intro acks constant enough
    rw [rtt_acknowledged s acks constant]
    apply smooth_settles short acks.length paced
    · omega
    · unfold settledRtt
      omega
  have close : (settledRtt s.rtt sample < sample + 8 ∧ sample < settledRtt s.rtt sample + 8) ↔
      sample = 1 ∨ sample = 2 ∧ s.rtt ≤ 9 := by
    unfold settledRtt
    omega
  rw [← close]
  constructor
  · rintro ⟨enough, near⟩
    have constant : ∀ a ∈ List.replicate (enough + (s.rtt + 7 * sample)) (echoing sample), sampled a.1 a.2 = some sample := by
      intro a member
      rw [List.eq_of_mem_replicate member]
      exact sampled_echoing positive
    have reached := settled _ constant (by rw [List.length_replicate]; omega)
    rw [← reached]
    exact near _ constant (by rw [List.length_replicate]; omega)
  · intro near
    refine ⟨s.rtt + 7 * sample, fun acks constant enough => ?_⟩
    rw [settled acks constant enough]
    exact near

end UtpSocket

section Line
variable {H : Type} {host : UdpHost H} {l : Line H}

/-- In every run of a socket, an acknowledgement that echoes a time of the socket gives the true sample and an average
exactly when the clock has not wrapped past the echo and one of the old value and the sample is about seven times the
other; and a constant sample makes the round-trip time converge to it exactly when it is as short as the rounding. -/
theorem rtt_average_iff (born : Born host l) (turns : List (Turn H)) {m : Turn H × Line H} (met : m ∈ lineMoments host turns l)
    {h : Header} {sent now : Nat} (echo : m.2.sock.Echo h sent now) :
    (m.2.sock.Averages h sent now ↔
      UtpSocket.Unwrapped h now ∧ UtpSocket.Lopsided m.2.sock.rtt (UtpSocket.trueSample sent now h.timestampDiff)) ∧
    (m.2.sock.Converges (UtpSocket.trueSample sent now h.timestampDiff) ↔
      UtpSocket.trueSample sent now h.timestampDiff = 1 ∨
        UtpSocket.trueSample sent now h.timestampDiff = 2 ∧ m.2.sock.rtt ≤ 9) := by
  have paced := paced_moments born turns m met
  obtain ⟨positive, short⟩ := UtpSocket.trueSample_bounds sent now h.timestampDiff
  exact ⟨UtpSocket.averages_iff paced echo, UtpSocket.converges_iff paced positive short⟩

end Line

def echoAt (sent : Nat) : Header := ⟨ST_STATE, EXT_NONE, 5, sent % 2 ^ 32, 0, RECV_WINDOW, 0, 0⟩

/-- A round trip of a second, on a socket that starts at 150 milliseconds. -/
theorem rtt_average_iff_second :
    (answered.sock.Averages (echoAt 1) 1 1000001 ↔
      UtpSocket.Unwrapped (echoAt 1) 1000001 ∧ UtpSocket.Lopsided answered.sock.rtt (UtpSocket.trueSample 1 1000001 0)) ∧
    (answered.sock.Converges (UtpSocket.trueSample 1 1000001 0) ↔
      UtpSocket.trueSample 1 1000001 0 = 1 ∨ UtpSocket.trueSample 1 1000001 0 = 2 ∧ answered.sock.rtt ≤ 9) :=
  @rtt_average_iff _ taking _ (.accepted _ _ _ _ _) [.close] (.close, answered) List.mem_cons_self (echoAt 1) 1 1000001
    ⟨by decide, rfl, by decide⟩

/-- A sample equal to the old value raises it by three quarters. -/
theorem equal_sample_raises_rtt : ¬ ∀ (l : Line Unit) (h : Header) (sent now : Nat), Born taking l →
    l.sock.Echo h sent now → l.sock.Averages h sent now := by
  intro always
  have averages := always answered (echoAt 1) 1 150001 (.accepted _ _ _ _ _) ⟨by decide, rfl, by decide⟩
  revert averages
  decide

end TypeBit.Utp
