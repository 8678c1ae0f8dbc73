import TypeBit.Utp.Acking
import TypeBit.Utp.Isolation
import TypeBit.Utp.Sender

/-! The numbers that a socket gives to DATA. A number is given before the host is asked to take the packet, so it is
kept for retransmission only where the host did. -/

namespace TypeBit.Utp
namespace UtpSocket

/-! ### Steps that number no DATA -/

/-- A packet is kept for retransmission under this number. -/
def Kept (s : UtpSocket) (seq : Nat) : Prop := ∃ u, s.unacked.get? seq = some u

def counters (s : UtpSocket) : Nat × Nat × Nat × Bool := (s.synSeq, s.nextSeq, s.synAttempts, s.finSent)

/-- The number after the SYN, or zero where none went out. -/
def firstSeq (s : UtpSocket) : Nat := min s.synAttempts 1

def numbersFrom (first n : Nat) : List Nat := (List.range n).map (fun i => (first + i) % 2 ^ 16)

/-- The numbers given to DATA run from the first one up to the next one without a gap, but for the FIN. -/
structure Numbered (s : UtpSocket) (numbers : List Nat) : Prop where
  gapless : numbers = numbersFrom s.firstSeq numbers.length
  next : s.nextSeq = (s.firstSeq + numbers.length + s.finCount) % 2 ^ 16
  opening : s.state = .synSent → s.synSeq = 0 ∧ numbers = [] ∧ s.finSent = false

/-- A step that gives no number to DATA: it may open the connection or take a number for the FIN. -/
def Unnumbered (s t : UtpSocket) : Prop := ∀ numbers, s.Numbered numbers → t.Numbered numbers

structure Coasts (s t : UtpSocket) : Prop where
  unnumbered : s.Unnumbered t
  kept : ∀ seq, s.Kept seq → t.Kept seq

section Coasting
variable {s t u : UtpSocket}

theorem unnumbered_of_same (same : t.counters = s.counters) (opened : t.state = .synSent → s.state = .synSent) :
    s.Unnumbered t := by
  intro numbers numbered
  have synSeq : t.synSeq = s.synSeq := congrArg Prod.fst same
  have nextSeq : t.nextSeq = s.nextSeq := congrArg (fun known => known.2.1) same
  have synAttempts : t.synAttempts = s.synAttempts := congrArg (fun known => known.2.2.1) same
  have finSent : t.finSent = s.finSent := congrArg (fun known => known.2.2.2) same
  refine ⟨?_, ?_, fun back => ?_⟩
  · rw [firstSeq, synAttempts]
    exact numbered.gapless
  · rw [nextSeq, firstSeq, finCount, synAttempts, finSent]
    exact numbered.next
  · rw [synSeq, finSent]
    exact numbered.opening (opened back)

theorem Coasts.refl (s : UtpSocket) : s.Coasts s := ⟨fun _ numbered => numbered, fun _ kept => kept⟩

theorem Coasts.trans (first : s.Coasts t) (second : t.Coasts u) : s.Coasts u :=
  ⟨fun numbers => second.unnumbered numbers ∘ first.unnumbered numbers,
    fun seq kept => second.kept seq (first.kept seq kept)⟩

theorem coasts_of_same (same : t.counters = s.counters) (unacked : t.unacked = s.unacked)
    (opened : t.state = .synSent → s.state = .synSent) : s.Coasts t := by
  refine ⟨unnumbered_of_same same opened, fun seq kept => ?_⟩
  rw [Kept, unacked]
  exact kept

section Host
variable {H : Type} (host : UdpHost H) (s : UtpSocket) (now : Nat) (w : H)

theorem coasts_sendAck : s.Coasts (s.sendAck host now w).1 := by
  unfold sendAck
  split
  · exact coasts_of_same rfl rfl id
  · exact .refl s

theorem coasts_sendSyn (opening : s.state = .synSent) : s.Coasts (s.sendSyn host now w).1 := by
  unfold sendSyn
  split
  · refine ⟨fun numbers numbered => ?_, fun seq kept => ?_⟩
    · obtain ⟨zero, rfl, streaming⟩ := numbered.opening opening
      have next := numbered.next
      have none_yet : s.finCount = 0 := if_neg (by simp [streaming])
      rw [none_yet, firstSeq] at next
      dsimp only
      split
      next unsent =>
        refine ⟨rfl, ?_, fun _ => ⟨zero, rfl, streaming⟩⟩
        change wadd16 s.synSeq 1 = (min (s.synAttempts + 1) 1 + 0 + s.finCount) % 2 ^ 16
        rw [zero, none_yet, wadd16]
        omega
      next sent =>
        refine ⟨rfl, ?_, fun _ => ⟨zero, rfl, streaming⟩⟩
        change s.nextSeq = (min (s.synAttempts + 1) 1 + 0 + s.finCount) % 2 ^ 16
        change s.nextSeq ≠ s.synSeq at sent
        rw [none_yet]
        simp only [List.length_nil] at next
        omega
    · dsimp only
      split
      · exact kept
      · exact kept
  · exact .refl s

theorem coasts_sendFin : s.Coasts (s.sendFin host now w).1 := by
  unfold sendFin
  split
  · exact .refl s
  next streaming =>
    refine ⟨fun numbers numbered => ⟨numbered.gapless, ?_, fun back => by cases back⟩, fun _ kept => kept⟩
    have none_yet : s.finCount = 0 := if_neg streaming
    have next := numbered.next
    change (s.nextSeq + 1) % 2 ^ 16 = (s.firstSeq + numbers.length + 1) % 2 ^ 16
    omega

theorem coasts_retry (seq : Nat) (u : Unacked) : s.Coasts (s.retry seq u now) := by
  refine ⟨unnumbered_of_same rfl id, ?_⟩
  intro other kept
  unfold Kept retry
  dsimp only
  rw [OrdMap.get?_insert]
  split
  · exact ⟨_, rfl⟩
  · exact kept

theorem coasts_resend (expired : List Nat) (live : s.state ≠ .synSent) : s.Coasts (resend host expired s now w).1 := by
  induction expired generalizing s w with
  | nil => exact .refl s
  | cons seq rest ih =>
    unfold resend
    split
    · exact ih s w live
    next u found =>
      have counted := coasts_retry s now seq u
      dsimp only
      split
      · exact counted.trans (coasts_of_same rfl rfl (fun back => by cases back))
      · exact counted.trans (ih _ _ live)

theorem coasts_retransmit : s.Coasts (s.retransmit host now w).1 := by
  unfold retransmit
  cases state : s.state with
  | synSent =>
    dsimp only
    split
    · split
      · exact coasts_of_same rfl rfl (fun back => by cases back)
      · exact coasts_sendSyn host s now w state
    · exact .refl s
  | connected => exact coasts_resend host s now w _ (fun back => by rw [state] at back; cases back)
  | finSent => exact coasts_resend host s now w _ (fun back => by rw [state] at back; cases back)
  | closed => exact .refl s

theorem coasts_tickRetransmit : s.Coasts (s.tickRetransmit host now w).1 := by
  have resent := coasts_retransmit host s now w
  unfold tickRetransmit
  dsimp only
  split
  · exact resent.trans (coasts_sendAck host _ now _)
  · exact resent

theorem coasts_expire : s.Coasts (UtpManager.expire s now) := by
  unfold UtpManager.expire
  split
  · exact coasts_of_same rfl rfl (fun back => by cases back)
  · exact .refl s

theorem coasts_emit (other : s.state ≠ .connected) : s.Coasts (UtpManager.emit host s now w).1 := by
  have silent : s.transmit host now w = (s, w) := if_pos (Or.inl other)
  unfold UtpManager.emit
  cases state : s.state with
  | synSent =>
    dsimp only
    split
    · exact coasts_sendSyn host s now w state
    · exact .refl s
  | connected => exact absurd state other
  | finSent =>
    rw [silent]
    dsimp only
    split
    · exact coasts_sendFin host s now w
    · exact .refl s
  | closed => exact .refl s

end Host

/-! ### Acknowledgements -/

theorem unacked_drain (fuel : Nat) (s : UtpSocket) : (drain fuel s).unacked = s.unacked := by
  induction fuel generalizing s with
  | zero => rfl
  | succ fuel ih =>
    unfold drain
    dsimp only
    split
    · exact ih _
    · rfl

theorem unacked_onData (s : UtpSocket) (h : Header) (payload : Bytes) : (s.onData h payload).unacked = s.unacked := by
  unfold onData
  split
  · rfl
  split
  · rfl
  split
  · rfl
  split
  · exact unacked_drain _ _
  · dsimp only
    split
    · rfl
    · rfl

theorem kept_onAck {seq : Nat} {h : Header} (kept : s.Kept seq) (uncovered : seqLe seq h.ackNr = false) (now : Nat) :
    (s.onAck h now).Kept seq := by
  have same := flight_onAck s h now
  unfold Kept
  split at same
  · have unacked : (s.onAck h now).unacked =
        ((s.unacked.keys.filter (fun seq => seqLe seq h.ackNr)).foldl release s).unacked := congrArg Prod.fst same
    have spared : seq ∉ s.unacked.keys.filter (fun seq => seqLe seq h.ackNr) := by
      intro member
      have covered := (List.mem_filter.mp member).2
      rw [uncovered] at covered
      cases covered
    rw [unacked, unacked_releases, if_neg spared]
    exact kept
  · have unacked : (s.onAck h now).unacked = s.unacked := congrArg Prod.fst same
    rw [unacked]
    exact kept

end Coasting

def acks (h : Header) : Bool := decide (h.ptype = ST_STATE ∨ h.ptype = ST_DATA ∨ h.ptype = ST_FIN)

theorem kept_absorb {s : UtpSocket} {seq : Nat} {h : Header} (kept : s.Kept seq)
    (uncovered : acks h = true → seqLe seq h.ackNr = false) (payload : Bytes) (now : Nat) :
    (s.absorb h payload now).Kept seq := by
  unfold absorb
  dsimp only
  split
  · split
    · exact kept
    · exact kept
  split
  next isState =>
    exact kept_onAck (s := { s with lastActivity := now }) kept (uncovered (by simp [acks, isState])) now
  split
  next isData =>
    have later := kept_onAck (s := { s with lastActivity := now, lastRecvAt := now, lastDataTs := h.timestamp }) kept
      (uncovered (by simp [acks, isData])) now
    rw [Kept, unacked_onData]
    exact later
  split
  next isFin =>
    exact kept_onAck (s := { s with lastActivity := now, lastRecvAt := now }) kept (uncovered (by simp [acks, isFin])) now
  split
  · exact kept
  · exact kept

theorem kept_onPacket {H : Type} (host : UdpHost H) {s : UtpSocket} {seq : Nat} {h : Header} (kept : s.Kept seq)
    (uncovered : acks h = true → seqLe seq h.ackNr = false) (payload : Bytes) (now : Nat) (w : H) :
    (s.onPacket host h payload now w).1.Kept seq := by
  have taken := kept_absorb kept uncovered payload now
  unfold onPacket
  dsimp only
  split
  · exact (coasts_sendAck host _ now w).kept seq taken
  · exact taken

/-! ### Numbers for DATA -/

def numbersOf (calls : List Call) : List Nat := calls.filterMap fun c => sequenced c.packet

theorem numbersOf_cons {c : Call} {seq : Nat} (number : sequenced c.packet = some seq) (calls : List Call) :
    numbersOf (c :: calls) = seq :: numbersOf calls := List.filterMap_cons_some number

theorem numbersFrom_succ (first n : Nat) :
    numbersFrom first (n + 1) = first % 2 ^ 16 :: numbersFrom (wadd16 first 1) n := by
  unfold numbersFrom
  rw [List.range_succ_eq_map, List.map_cons, List.map_map]
  apply congrArg (first % 2 ^ 16 :: ·)
  apply List.map_congr_left
  intro i _
  change (first + (i + 1)) % 2 ^ 16 = ((first + 1) % 2 ^ 16 + i) % 2 ^ 16
  omega

theorem numbersFrom_append (first n m : Nat) :
    numbersFrom first n ++ numbersFrom (first + n) m = numbersFrom first (n + m) := by
  unfold numbersFrom
  rw [List.range_add, List.map_append, List.map_map]
  apply congrArg ((List.range n).map (fun i => (first + i) % 2 ^ 16) ++ ·)
  apply List.map_congr_left
  intro i _
  change (first + n + i) % 2 ^ 16 = (first + (n + i)) % 2 ^ 16
  rw [Nat.add_assoc]

theorem numbersFrom_congr {first second : Nat} (same : first % 2 ^ 16 = second % 2 ^ 16) (n : Nat) :
    numbersFrom first n = numbersFrom second n := by
  apply List.map_congr_left
  intro i _
  omega

/-- The packets that a transmission hands to the host take the next numbers, one each, and those that the host takes
are kept. -/
structure Transmits (s : UtpSocket) (fresh : List Call) (t : UtpSocket) : Prop where
  numbers : numbersOf fresh = numbersFrom s.nextSeq fresh.length
  next : t.nextSeq = (s.nextSeq + fresh.length) % 2 ^ 16
  first : t.firstSeq = s.firstSeq
  state : t.state = s.state
  finSent : t.finSent = s.finSent
  kept : ∀ seq, s.Kept seq → t.Kept seq
  taken : (∀ c ∈ fresh, c.taken = true) → ∀ seq ∈ numbersOf fresh, t.Kept seq

section Transmit
variable {H : Type} (host : UdpHost H)

theorem transmits_nothing {s : UtpSocket} (narrow : s.nextSeq < 2 ^ 16) : s.Transmits [] s where
  numbers := rfl
  next := (Nat.mod_eq_of_lt narrow).symm
  first := rfl
  state := rfl
  finSent := rfl
  kept := fun _ kept => kept
  taken := fun _ _ member => absurd member List.not_mem_nil

theorem transmitLoop_transmits (fuel : Nat) {s : UtpSocket} (narrow : s.nextSeq < 2 ^ 16) (now : Nat) (w : Recorded H) :
    ∃ fresh, (transmitLoop (recording host) fuel s now w).2.calls = w.calls ++ fresh ∧
      s.Transmits fresh (transmitLoop (recording host) fuel s now w).1 := by
  induction fuel generalizing s w with
  | zero => exact ⟨[], (List.append_nil _).symm, transmits_nothing narrow⟩
  | succ fuel ih =>
    unfold transmitLoop
    split
    · exact ⟨[], (List.append_nil _).symm, transmits_nothing narrow⟩
    split
    · exact ⟨[], (List.append_nil _).symm, transmits_nothing narrow⟩
    have number : sequenced (s.dataPacket now) = some s.nextSeq := by
      have found := sequenced_buildPacket s.cut (.inl rfl : ST_DATA = ST_DATA ∨ ST_DATA = ST_FIN) s.nextSeq s.ackNr
        s.payload now
      rwa [Nat.mod_eq_of_lt narrow] at found
    obtain ⟨answer, inner, sent⟩ := Sender.recorded host w s.addr (s.dataPacket now)
    rw [sent]
    cases answer with
    | ok done =>
      dsimp only [Except.toBool]
      generalize launched : s.cut.launch s.nextSeq (s.dataPacket now) s.payload.length now = t
      have flies : ∀ seq, t.unacked.get? seq = if s.nextSeq = seq then
          some ⟨s.dataPacket now, s.payload.length, now, 0⟩ else s.unacked.get? seq := by
        intro seq
        rw [← launched]
        exact OrdMap.get?_insert ..
      have next : t.nextSeq = wadd16 s.nextSeq 1 := launched ▸ rfl
      have first : t.firstSeq = s.firstSeq := launched ▸ rfl
      have state : t.state = s.state := launched ▸ rfl
      have finSent : t.finSent = s.finSent := launched ▸ rfl
      have own : t.Kept s.nextSeq := by
        rw [Kept, flies, if_pos rfl]
        exact ⟨_, rfl⟩
      have still : ∀ seq, s.Kept seq → t.Kept seq := by
        intro seq kept
        rw [Kept, flies]
        split
        · exact ⟨_, rfl⟩
        · exact kept
      have small : t.nextSeq < 2 ^ 16 := next ▸ Nat.mod_lt _ (by decide)
      obtain ⟨fresh, calls, later⟩ := ih small ⟨inner, w.calls ++ [⟨s.addr, s.dataPacket now, true⟩]⟩
      refine ⟨⟨s.addr, s.dataPacket now, true⟩ :: fresh, ?_, ?_⟩
      · rw [calls, List.append_assoc]
        rfl
      · refine ⟨?_, ?_, later.first.trans first, later.state.trans state, later.finSent.trans finSent,
          fun seq kept => later.kept seq (still seq kept), ?_⟩
        · rw [List.length_cons, numbersFrom_succ, ← next, ← later.numbers, Nat.mod_eq_of_lt narrow]
          exact numbersOf_cons (c := ⟨s.addr, s.dataPacket now, true⟩) number fresh
        · rw [later.next, next, List.length_cons, wadd16]
          omega
        · intro taken seq member
          rw [numbersOf_cons (c := ⟨s.addr, s.dataPacket now, true⟩) number] at member
          rcases List.mem_cons.mp member with rfl | after
          · exact later.kept _ own
          · exact later.taken (fun c inside => taken c (List.mem_cons_of_mem _ inside)) seq after
    | error e =>
      refine ⟨[⟨s.addr, s.dataPacket now, false⟩], rfl, ?_⟩
      refine ⟨?_, rfl, rfl, rfl, rfl, fun _ kept => kept, ?_⟩
      · rw [List.length_singleton, numbersFrom_succ, Nat.mod_eq_of_lt narrow]
        exact numbersOf_cons (c := ⟨s.addr, s.dataPacket now, false⟩) number []
      · intro taken
        exact absurd (taken _ List.mem_cons_self) Bool.false_ne_true

theorem transmit_transmits {s : UtpSocket} (narrow : s.nextSeq < 2 ^ 16) (now : Nat) (w : H) :
    s.Transmits (s.transmit (recording host) now ⟨w, []⟩).2.calls (s.transmit (recording host) now ⟨w, []⟩).1 := by
  unfold transmit
  split
  · exact transmits_nothing narrow
  · obtain ⟨fresh, calls, transmits⟩ := transmitLoop_transmits host s.sendBuf.length narrow now ⟨w, []⟩
    rw [calls]
    exact transmits

theorem transmitLoop_recording (fuel : Nat) (s : UtpSocket) (now : Nat) (w : Recorded H) :
    (transmitLoop (recording host) fuel s now w).1 = (transmitLoop host fuel s now w.inner).1 := by
  induction fuel generalizing s w with
  | zero => rfl
  | succ fuel ih =>
    unfold transmitLoop
    split
    · rfl
    split
    · rfl
    have sent : (recording host).udpSend w s.addr (s.dataPacket now) =
        ((host.udpSend w.inner s.addr (s.dataPacket now)).1, ⟨(host.udpSend w.inner s.addr (s.dataPacket now)).2,
          w.calls ++ [⟨s.addr, s.dataPacket now, (host.udpSend w.inner s.addr (s.dataPacket now)).1.toBool⟩]⟩) := rfl
    rw [sent]
    generalize host.udpSend w.inner s.addr (s.dataPacket now) = answered
    obtain ⟨answer, inner⟩ := answered
    cases answer with
    | ok done => exact ih _ _
    | error e => rfl

theorem transmit_recording (s : UtpSocket) (now : Nat) (w : H) :
    (s.transmit (recording host) now ⟨w, []⟩).1 = (s.transmit host now w).1 := by
  unfold transmit
  split
  · rfl
  · exact transmitLoop_recording host _ s now ⟨w, []⟩

end Transmit
end UtpSocket

/-! ### The life of a socket -/

open UtpSocket

/-- A socket, the numbers it gave to DATA, and those of them that no acknowledgement has covered since. -/
structure Feed where
  sock : UtpSocket
  assigned : List Nat := []
  owing : List Nat := []

section Life
variable {H : Type} (host : UdpHost H)

def Feed.drive (now : Nat) (w : H) (l : Feed) : Feed :=
  let numbers := numbersOf (l.sock.transmit (recording host) now ⟨w, []⟩).2.calls
  ⟨(UtpManager.driveSocket host l.sock now w).1, l.assigned ++ numbers, l.owing ++ numbers⟩

def Feed.packet (h : Header) (payload : Bytes) (now : Nat) (w : H) (l : Feed) : Feed where
  sock := (l.sock.onPacket host h payload now w).1
  assigned := l.assigned
  owing := l.owing.filter (fun seq => !(acks h && seqLe seq h.ackNr))

/-- What happens to a socket from the call of `connect` or the SYN that makes it on, whatever the host does in between.
Only ticks that satisfy `Ok` happen. -/
inductive Life (Ok : UtpSocket → Nat → H → Prop) : Feed → Prop
  | dialed (handle : ConnId) (addr : NetAddr) (sendId now : Nat) :
      Life Ok { sock := { UtpSocket.new handle addr sendId (wadd16 sendId 1) now with ackNr := wsub16 0 1 } }
  | accepted (handle : ConnId) (addr : NetAddr) (h : Header) (now : Nat) (w : H) :
      Life Ok { sock := ((UtpManager.inbound handle addr h now).sendAck host now w).1 }
  | send {l} (before : Life Ok l) (data : Bytes) : Life Ok { l with sock := l.sock.enqueue data }
  | recv {l} (before : Life Ok l) (n : Nat) : Life Ok { l with sock := l.sock.consume n }
  | close {l} (before : Life Ok l) :
      Life Ok { l with sock := { l.sock with state := if l.sock.isConnected then .finSent else .closed } }
  | packet {l} (before : Life Ok l) (h : Header) (payload : Bytes) (now : Nat) (w : H) :
      Life Ok (l.packet host h payload now w)
  | drive {l} (before : Life Ok l) (now : Nat) (w : H) (ok : Ok l.sock now w) : Life Ok (l.drive host now w)

/-- The host takes every packet that the tick transmits. -/
def Taken (s : UtpSocket) (now : Nat) (w : H) : Prop :=
  ∀ c ∈ (s.transmit (recording host) now ⟨w, []⟩).2.calls, c.taken = true

/-- The numbers given to DATA have no gap, and what is not acknowledged is kept for retransmission. -/
structure Contiguous (l : Feed) : Prop where
  kept : ∀ seq ∈ l.owing, l.sock.Kept seq
  numbered : l.sock.Numbered l.assigned

section Steps
variable {host} {l : Feed}

theorem Contiguous.coast {t : UtpSocket} (sound : Contiguous l) (coasts : l.sock.Coasts t) :
    Contiguous { l with sock := t } where
  kept := fun seq member => coasts.kept seq (sound.kept seq member)
  numbered := coasts.unnumbered _ sound.numbered

theorem Contiguous.packet (sound : Contiguous l) (h : Header) (payload : Bytes) (now : Nat) (w : H) :
    Contiguous (l.packet host h payload now w) := by
  have received := (receives_onPacket host l.sock h payload now w).1
  have same : (l.packet host h payload now w).sock.counters = l.sock.counters :=
    congrArg₂ (fun known half => (known.2.2.2.2, half.2.1, half.2.2.2, half.2.2.1)) received.wire received.outbox
  refine ⟨?_, unnumbered_of_same same received.opened _ sound.numbered⟩
  intro seq member
  obtain ⟨owed, uncovered⟩ := List.mem_filter.mp member
  refine kept_onPacket host (sound.kept seq owed) (fun acking => ?_) payload now w
  rwa [acking, Bool.true_and, Bool.not_eq_true'] at uncovered

theorem Contiguous.transmit (sound : Contiguous l) {fresh : List Call} {t : UtpSocket}
    (transmits : l.sock.Transmits fresh t) (taken : ∀ c ∈ fresh, c.taken = true) (connected : l.sock.state = .connected)
    (streaming : fresh ≠ [] → l.sock.finSent = false) :
    Contiguous ⟨t, l.assigned ++ numbersOf fresh, l.owing ++ numbersOf fresh⟩ where
  kept := by
    intro seq member
    rcases List.mem_append.mp member with owed | new
    · exact transmits.kept seq (sound.kept seq owed)
    · exact transmits.taken taken seq new
  numbered := by
    have next := sound.numbered.next
    have length : (numbersOf fresh).length = fresh.length := by
      rw [transmits.numbers]
      simp [numbersFrom]
    have count : t.finCount = l.sock.finCount := by rw [finCount, finCount, transmits.finSent]
    refine ⟨?_, ?_, fun back => ?_⟩
    · have from_next : numbersOf fresh = numbersFrom (l.sock.firstSeq + l.assigned.length) fresh.length := by
        by_cases idle : fresh = []
        · rw [idle]
          rfl
        · have none_yet : l.sock.finCount = 0 := if_neg (by simp [streaming idle])
          rw [transmits.numbers]
          apply numbersFrom_congr
          omega
      rw [List.length_append, length, transmits.first, ← numbersFrom_append, ← sound.numbered.gapless, from_next]
    · rw [List.length_append, length, transmits.next, transmits.first, count, next]
      omega
    · rw [transmits.state, connected] at back
      cases back

theorem Contiguous.drive (sound : Contiguous l) (now : Nat) (w : H) (taken : Taken host l.sock now w) :
    Contiguous (l.drive host now w) := by
  unfold Feed.drive
  dsimp only
  rw [UtpManager.driveSocket_eq]
  dsimp only
  by_cases connected : l.sock.state = .connected
  · have narrow : l.sock.nextSeq < 2 ^ 16 := sound.numbered.next ▸ Nat.mod_lt _ (by decide)
    have transmits := transmit_transmits host narrow now w
    rw [transmit_recording] at transmits
    have sent := sound.transmit transmits taken connected (fun sent => by
      unfold UtpSocket.transmit at sent
      split at sent
      · exact absurd rfl sent
      next able => exact Bool.not_eq_true _ ▸ (not_or.mp able).2)
    have emits : UtpManager.emit host l.sock now w = l.sock.transmit host now w := by
      unfold UtpManager.emit
      rw [connected]
    rw [emits]
    exact sent.coast ((coasts_tickRetransmit host _ now _).trans (coasts_expire _ now))
  · have silent : l.sock.transmit (recording host) now ⟨w, []⟩ = (l.sock, ⟨w, []⟩) := if_pos (Or.inl connected)
    rw [silent]
    have numbers : numbersOf (⟨w, []⟩ : Recorded H).calls = [] := rfl
    rw [numbers, List.append_nil, List.append_nil]
    exact sound.coast (((coasts_emit host l.sock now w connected).trans (coasts_tickRetransmit host _ now _)).trans
      (coasts_expire _ now))

end Steps

/-- While the host takes what is transmitted, no number is lost. -/
theorem contiguous_of_taken {l : Feed} (life : Life host (Taken host) l) : Contiguous l := by
  induction life with
  | dialed handle addr sendId now =>
    refine ⟨fun seq member => ?_, rfl, rfl, fun _ => ⟨rfl, rfl, rfl⟩⟩
    cases member
  | accepted handle addr h now w =>
    have fresh : Contiguous { sock := UtpManager.inbound handle addr h now } := by
      refine ⟨fun seq member => ?_, rfl, rfl, fun back => by cases back⟩
      cases member
    exact fresh.coast (coasts_sendAck host _ now w)
  | send before data ih => exact ih.coast (coasts_of_same rfl rfl id)
  | recv before n ih => exact ih.coast (coasts_of_same rfl rfl id)
  | close before ih =>
    refine ih.coast (coasts_of_same rfl rfl ?_)
    intro back
    dsimp only at back
    split at back
    · cases back
    · cases back
  | packet before h payload now w ih => exact ih.packet h payload now w
  | drive before now w taken ih => exact ih.drive now w taken

/-! ### The sockets of a manager -/

/-- Any tick happens. -/
def Anyhow : UtpSocket → Nat → H → Prop := fun _ _ _ => True

def Lives (conns : OrdMap ConnId UtpSocket) : Prop :=
  ∀ id s, conns.get? id = some s → ∃ l, Life host Anyhow l ∧ l.sock = s

section Manager
variable {host} {conns : OrdMap ConnId UtpSocket}

theorem Lives.insert (lives : Lives host conns) (id : ConnId) {l : Feed} (life : Life host Anyhow l) :
    Lives host (conns.insert id l.sock) := by
  intro other s found
  rw [OrdMap.get?_insert] at found
  split at found
  · cases found
    exact ⟨l, life, rfl⟩
  · exact lives other s found

theorem Lives.erase (lives : Lives host conns) (id : ConnId) : Lives host (conns.erase id) := by
  intro other s found
  exact lives other s (OrdMap.get?_of_erase found)

theorem lives_tickOne (now : Nat) (acc : UtpManager × H) (id : ConnId) (lives : Lives host acc.1.conns) :
    Lives host (UtpManager.tickOne host now acc id).1.conns := by
  unfold UtpManager.tickOne
  split
  · exact lives
  next s found =>
    obtain ⟨l, life, rfl⟩ := lives id s found
    dsimp only
    split
    · exact lives.erase id
    · exact lives.insert id (life.drive now acc.2 trivial)

theorem lives_acceptSyn (m : UtpManager) (addr : NetAddr) (h : Header) (now : Nat) (w : H) (lives : Lives host m.conns) :
    Lives host (UtpManager.acceptSyn host m addr h now w).1.conns := by
  unfold UtpManager.acceptSyn
  split
  · exact lives
  next handle n found =>
    dsimp only
    rw [(UtpManager.allocHandle_spec found).2]
    exact lives.insert handle (.accepted handle addr h now w)

theorem lives_handleDatagram (m : UtpManager) (addr : NetAddr) (payload : Bytes) (now : Nat) (w : H)
    (lives : Lives host m.conns) : Lives host (m.handleDatagram host addr payload now w).2.1.conns := by
  unfold UtpManager.handleDatagram
  split
  · exact lives
  next h read =>
    split
    next _ s found =>
      split
      next t held =>
        obtain ⟨l, life, rfl⟩ := lives _ t held
        exact lives.insert s.handle (life.packet h (payload.drop HDR_LEN) now w)
      next => exact lives
    next =>
      split
      · exact lives_acceptSyn m addr h now w lives
      · exact lives

theorem lives_reachable {m : UtpManager} (reached : UtpManager.Reachable host m) : Lives host m.conns := by
  induction reached with
  | new => intro id s found; cases found
  | connect before addr now dialed ih =>
    unfold UtpManager.connect at dialed
    obtain ⟨⟨handle, held⟩, found, rest⟩ := Option.bind_eq_some_iff.mp dialed
    cases rest
    dsimp only
    rw [(UtpManager.allocHandle_spec found).2]
    exact ih.insert _ (.dialed _ addr held.nextSendId now)
  | @recv m before id n ih =>
    rcases UtpManager.recv_cases m id n with ⟨e, same⟩ | same | ⟨s, k, held, same⟩
    · rw [same]
      exact ih
    · rw [same]
      exact ih
    · obtain ⟨l, life, rfl⟩ := ih id s held
      rw [same]
      exact ih.insert id (life.recv k)
  | @send m before id data ih =>
    rcases UtpManager.send_cases m id data with same | ⟨s, held, same⟩
    · rw [same]
      exact ih
    · obtain ⟨l, life, rfl⟩ := ih id s held
      rw [same]
      exact ih.insert id (life.send data)
  | close before id ih =>
    intro other t found
    unfold UtpManager.close at found
    rw [OrdMap.get?_modify] at found
    split at found
    · obtain ⟨s, held, rfl⟩ := Option.map_eq_some_iff.mp found
      obtain ⟨l, life, rfl⟩ := ih other s held
      exact ⟨_, life.close, rfl⟩
    · exact ih other t found
  | takeAccepted before ih => exact ih
  | takeReaped before ih => exact ih
  | datagram before addr payload now w ih => exact lives_handleDatagram _ addr payload now w ih
  | @tick m before now w ih =>
    apply List.foldlRecOn (motive := fun acc : UtpManager × H => Lives host acc.1.conns) m.conns.keys
      (UtpManager.tickOne host now) ih
    intro acc kept id _
    exact lives_tickOne now acc id kept

end Manager
end Life

/-! ### A host that refuses a packet -/

/-- A socket that accepted a connection, was given one byte to send, and is driven once. -/
def oneByte (host : UdpHost Unit) : Feed :=
  let accepted := ((UtpManager.inbound 1 UtpManager.stranger (plainAck 7) 0).sendAck host 0 ()).1
  Feed.drive host 5 () { sock := accepted.enqueue [1] }

theorem contiguous_of_taken_oneByte : Contiguous (oneByte UtpManager.taking) :=
  contiguous_of_taken UtpManager.taking
    (.drive (.send (.accepted 1 UtpManager.stranger (plainAck 7) 0 ()) [1]) 5 () (by unfold Taken; decide))

def refusing : UdpHost Unit := ⟨fun w _ _ => (.error .io, w)⟩

/-- The number of the refused packet is gone. -/
theorem refused_number_lost : ¬ ∀ (host : UdpHost Unit) (l : Feed), Life host Anyhow l → l.sock.state = .connected →
    Contiguous l := by
  intro always
  have life : Life refusing Anyhow (oneByte refusing) :=
    .drive (.send (.accepted 1 UtpManager.stranger (plainAck 7) 0 ()) [1]) 5 () trivial
  have ends : (oneByte refusing).sock.state = .connected ∧ 0 ∈ (oneByte refusing).owing ∧
      (oneByte refusing).sock.unacked.get? 0 = none := by decide
  obtain ⟨u, found⟩ := (always refusing (oneByte refusing) life ends.1).kept 0 ends.2.1
  rw [ends.2.2] at found
  cases found

end TypeBit.Utp
