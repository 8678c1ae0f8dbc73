import Mathlib.Data.Finset.Card
import TypeBit.Lib.Window
import TypeBit.Utp.Frame

/-! The sending half of a uTP socket. Whatever the host does with the datagrams, the bytes accepted by `send`
are the numbered payloads in order followed by the queue, and each number goes out with one payload only: every payload
that was numbered is in a DATA packet the host took, and the FIN takes the number after the last of them. -/

namespace TypeBit.Utp
open Chunks Finset

/-! ### A host that keeps a record -/

/-- A datagram handed to the host, and whether the host took it. -/
structure Call where
  addr : NetAddr
  packet : Bytes
  taken : Bool

/-- A host state with the record of its datagrams. -/
structure Recorded (H : Type) where
  inner : H
  calls : List Call := []

def recording {H : Type} (host : UdpHost H) : UdpHost (Recorded H) where
  udpSend w addr packet :=
    let (answer, inner) := host.udpSend w.inner addr packet
    (answer, { inner, calls := w.calls ++ [⟨addr, packet, answer.toBool⟩] })

def sequenced (packet : Bytes) : Option Nat := do
  let h ← Header.decode packet
  if h.ptype = ST_DATA ∨ h.ptype = ST_FIN ∨ h.ptype = ST_SYN then some h.seqNr else none

/-- The numbered packets handed to the host; a retransmission is the same packet again. -/
def packetsSent (calls : List Call) : Finset Nat := (calls.filterMap fun c => sequenced c.packet).toFinset

theorem packetsSent_append (calls more : List Call) : packetsSent calls ⊆ packetsSent (calls ++ more) := by
  intro seq used
  simp only [packetsSent, List.filterMap_append, List.toFinset_append, mem_union]
  exact Or.inl used

theorem mem_packetsSent {calls : List Call} {addr : NetAddr} {packet : Bytes} {taken : Bool} {seq : Nat}
    (found : sequenced packet = some seq) : seq ∈ packetsSent (calls ++ [⟨addr, packet, taken⟩]) := by
  simp [packetsSent, found]

theorem lt_of_used {n : Nat} {calls : List Call} (used : ∀ i < n, i % 2 ^ 16 ∈ packetsSent calls)
    (few : (packetsSent calls).card < 2 ^ 15) : n < 2 ^ 15 := by
  by_contra many
  have all : range (2 ^ 15) ⊆ packetsSent calls := by
    intro i below
    have small : i < 2 ^ 15 := mem_range.mp below
    have seen := used i (by omega)
    rwa [Nat.mod_eq_of_lt (by omega)] at seen
  have count := card_le_card all
  rw [card_range] at count
  omega

namespace UtpSocket

/-! ### The packets of a socket -/

theorem buildPacket_head (s : UtpSocket) (ptype seq ack : Nat) (payload : Bytes) (now : Nat) :
    ∃ head : Header, ∃ rest, s.buildPacket ptype seq ack payload now = head.encode ++ rest ∧
      head.ptype = ptype ∧ head.connId = s.sendId ∧ head.seqNr = seq := by
  unfold buildPacket
  dsimp only
  split
  · exact ⟨_, _, List.append_assoc _ _ _, rfl, rfl, rfl⟩
  · exact ⟨_, _, List.append_assoc _ _ _, rfl, rfl, rfl⟩

theorem buildPacket_data (s : UtpSocket) (seq ack : Nat) (payload : Bytes) (now : Nat) :
    s.buildPacket ST_DATA seq ack payload now = (s.hdr ST_DATA seq ack now).encode ++ payload := by
  unfold buildPacket
  have silent : decide (ST_DATA = ST_STATE ∨ ST_DATA = ST_FIN) = false := rfl
  simp only [silent, Bool.false_eq_true, if_false, ne_eq, not_true, List.append_nil]

/-- What a packet of this side may carry, given the chunks numbered so far: DATA carries the chunk of its number,
and only the dialing side sends a SYN, which is its chunk 0. -/
def Honest (dialed : Bool) (chunks : Chunks UInt8) (sendId : Nat) (packet : Bytes) : Prop :=
  ∃ h, Header.decode packet = some h ∧ h.connId = sendId ∧
    (h.ptype = ST_DATA → ∃ i, h.seqNr = i % 2 ^ 16 ∧ chunks[i]? = some (some (packet.drop HDR_LEN))) ∧
    (h.ptype = ST_SYN → dialed = true ∧ h.seqNr = 0 ∧ chunks[0]? = some (some []))

theorem getElem?_extend {chunks : Chunks UInt8} {i : Nat} {c : Option Bytes} (more : Chunks UInt8)
    (here : chunks[i]? = some c) : (chunks ++ more)[i]? = some c := by
  rw [List.getElem?_append_left (List.getElem?_eq_some_iff.mp here).1, here]

theorem Honest.extend {dialed : Bool} {chunks : Chunks UInt8} {sendId : Nat} {packet : Bytes}
    (honest : Honest dialed chunks sendId packet) (more : Chunks UInt8) :
    Honest dialed (chunks ++ more) sendId packet := by
  obtain ⟨h, read, id, data, syn⟩ := honest
  refine ⟨h, read, id, ?_, ?_⟩
  · intro isData
    obtain ⟨i, number, here⟩ := data isData
    exact ⟨i, number, getElem?_extend more here⟩
  · intro isSyn
    obtain ⟨dials, zero, here⟩ := syn isSyn
    exact ⟨dials, zero, getElem?_extend more here⟩

theorem honest_other {s : UtpSocket} (narrow : s.sendId < 2 ^ 16) {ptype : Nat} (small : ptype < 16)
    (notData : ptype ≠ ST_DATA) (notSyn : ptype ≠ ST_SYN) (dialed : Bool) (chunks : Chunks UInt8)
    (seq ack : Nat) (payload : Bytes) (now : Nat) :
    Honest dialed chunks s.sendId (s.buildPacket ptype seq ack payload now) := by
  obtain ⟨head, rest, whole, type, id, -⟩ := buildPacket_head s ptype seq ack payload now
  obtain ⟨h, read, sameType, sameId, -⟩ := Header.decode_encode head rest (type ▸ small)
  rw [type] at sameType
  refine ⟨h, whole ▸ read, ?_, ?_, ?_⟩
  · rw [sameId, id, Nat.mod_eq_of_lt narrow]
  · exact fun isData => absurd (sameType.symm.trans isData) notData
  · exact fun isSyn => absurd (sameType.symm.trans isSyn) notSyn

theorem sequenced_buildPacket (s : UtpSocket) {ptype : Nat} (numbered : ptype = ST_DATA ∨ ptype = ST_FIN)
    (seq ack : Nat) (payload : Bytes) (now : Nat) :
    sequenced (s.buildPacket ptype seq ack payload now) = some (seq % 2 ^ 16) := by
  obtain ⟨head, rest, whole, type, -, number⟩ := buildPacket_head s ptype seq ack payload now
  have small : head.ptype < 16 := by
    rcases numbered with rfl | rfl <;> rw [type] <;> decide
  obtain ⟨h, read, sameType, -, sameSeq⟩ := Header.decode_encode head rest small
  have counts : h.ptype = ST_DATA ∨ h.ptype = ST_FIN ∨ h.ptype = ST_SYN := by
    rw [sameType, type]
    exact numbered.imp id Or.inl
  rw [sequenced, whole, read]
  show (if _ then some h.seqNr else none) = _
  rw [if_pos counts, sameSeq, number]

theorem header_buildPacket (s : UtpSocket) {ptype : Nat} (small : ptype < 16) (seq ack : Nat) (payload : Bytes)
    (now : Nat) {h : Header} (read : Header.decode (s.buildPacket ptype seq ack payload now) = some h) :
    h.ptype = ptype ∧ h.seqNr = seq % 2 ^ 16 := by
  obtain ⟨head, rest, whole, type, -, number⟩ := buildPacket_head s ptype seq ack payload now
  obtain ⟨g, again, sameType, -, sameSeq⟩ := Header.decode_encode head rest (type ▸ small)
  rw [whole, again] at read
  cases read
  exact ⟨sameType.trans type, by rw [sameSeq, number]⟩

def Shipped (calls : List Call) (i : Nat) (p : Bytes) : Prop :=
  ∃ c ∈ calls, c.taken = true ∧ ∃ h, Header.decode c.packet = some h ∧ h.ptype = ST_DATA ∧ h.seqNr = i % 2 ^ 16 ∧
    c.packet.drop HDR_LEN = p

theorem Shipped.mono {calls more : List Call} {i : Nat} {p : Bytes} (shipped : Shipped calls i p) :
    Shipped (calls ++ more) i p := by
  obtain ⟨c, listed, took⟩ := shipped
  exact ⟨c, List.mem_append_left _ listed, took⟩

def Plain (packet : Bytes) : Prop := ∀ h, Header.decode packet = some h → h.ptype ≠ ST_FIN

theorem plain_buildPacket (s : UtpSocket) {ptype : Nat} (small : ptype < 16) (other : ptype ≠ ST_FIN)
    (seq ack : Nat) (payload : Bytes) (now : Nat) : Plain (s.buildPacket ptype seq ack payload now) := by
  intro h read
  rw [(header_buildPacket s small seq ack payload now read).1]
  exact other

/-! ### The invariant of the sending half -/

def finCount (s : UtpSocket) : Nat := if s.finSent then 1 else 0

structure Sender (dialed : Bool) (chunks : Chunks UInt8) (s : UtpSocket) (given : Bytes) (calls : List Call) : Prop where
  narrow : s.sendId < 2 ^ 16
  syn : s.synSeq = 0
  numbered : s.nextSeq = (chunks.length + s.finCount) % 2 ^ 16
  conserved : given = joined chunks ++ s.sendBuf
  flight : ∀ seq u, s.unacked.get? seq = some u → Honest dialed chunks s.sendId u.packet
  honest : ∀ c ∈ calls, c.taken = true → Honest dialed chunks s.sendId c.packet
  used : ∀ i < chunks.length + s.finCount, i % 2 ^ 16 ∈ packetsSent calls
  opening : s.state = .synSent → dialed = true ∧ chunks.length ≤ 1 ∧ s.finSent = false
  unopened : dialed = true → chunks = [] → s.state = .synSent ∨ s.state = .closed
  opened : dialed = true → chunks ≠ [] → chunks[0]? = some (some [])
  shipped : ∀ i p, chunks[i]? = some (some p) → p ≠ [] → Shipped calls i p
  fins : ∀ c ∈ calls, ∀ h, Header.decode c.packet = some h → h.ptype = ST_FIN →
    s.finSent = true ∧ h.seqNr = chunks.length % 2 ^ 16
  flights : ∀ seq u, s.unacked.get? seq = some u → Plain u.packet

namespace Sender
variable {dialed : Bool} {chunks : Chunks UInt8} {s t : UtpSocket} {given : Bytes} {calls : List Call}

theorem call (sender : Sender dialed chunks s given calls) {c : Call}
    (fair : c.taken = true → Honest dialed chunks s.sendId c.packet) (plain : Plain c.packet) :
    Sender dialed chunks s given (calls ++ [c]) where
  __ := sender
  honest := by
    intro d listed taken
    rcases List.mem_append.mp listed with before | last
    · exact sender.honest d before taken
    · cases List.mem_singleton.mp last
      exact fair taken
  used i below := packetsSent_append calls [c] (sender.used i below)
  shipped i p here filled := (sender.shipped i p here filled).mono
  fins := by
    intro d listed h read isFin
    rcases List.mem_append.mp listed with before | last
    · exact sender.fins d before h read isFin
    · cases List.mem_singleton.mp last
      exact absurd isFin (plain h read)

theorem keep (sender : Sender dialed chunks s given calls) (received : s.Receives t)
    (stays : dialed = true → chunks = [] → t.state = .synSent ∨ t.state = .closed) : Sender dialed chunks t given calls := by
  have sendId : t.sendId = s.sendId := congrArg (fun known => known.2.2.1) received.wire
  have synSeq : t.synSeq = s.synSeq := congrArg (fun known => known.2.2.2.2) received.wire
  have sendBuf : t.sendBuf = s.sendBuf := congrArg Prod.fst received.outbox
  have nextSeq : t.nextSeq = s.nextSeq := congrArg (fun half => half.2.1) received.outbox
  have finSent : t.finSent = s.finSent := congrArg (fun half => half.2.2.1) received.outbox
  have finCount : t.finCount = s.finCount := by rw [UtpSocket.finCount, finSent, UtpSocket.finCount]
  refine ⟨sendId ▸ sender.narrow, synSeq.trans sender.syn, ?_, ?_, ?_, ?_, ?_, ?_, stays, sender.opened, sender.shipped, ?_, ?_⟩
  · rw [nextSeq, finCount, sender.numbered]
  · rw [sendBuf, ← sender.conserved]
  · intro seq u found
    obtain ⟨v, before, same⟩ := received.flies seq u found
    rw [sendId, ← same]
    exact sender.flight seq v before
  · rw [sendId]
    exact sender.honest
  · rw [finCount]
    exact sender.used
  · intro opening
    rw [finSent]
    exact sender.opening (received.opened opening)
  · rw [finSent]
    exact sender.fins
  · intro seq u found
    obtain ⟨v, before, same⟩ := received.flies seq u found
    rw [← same]
    exact sender.flights seq v before

theorem fins_of_streaming (sender : Sender dialed chunks s given calls) (streaming : s.finSent = false) {P : Header → Prop}
    {c : Call} (plain : Plain c.packet) : ∀ d ∈ calls ++ [c], ∀ h, Header.decode d.packet = some h → h.ptype = ST_FIN → P h := by
  intro d listed h read isFin
  rcases List.mem_append.mp listed with before | last
  · have sent := (sender.fins d before h read isFin).1
    rw [streaming] at sent
    cases sent
  · cases List.mem_singleton.mp last
    exact absurd isFin (plain h read)

theorem few (sender : Sender dialed chunks s given calls) (few : (packetsSent calls).card < 2 ^ 15) :
    chunks.length < 2 ^ 15 := by
  have below := lt_of_used sender.used few
  omega

/-! ### What the socket sends -/

section Host
variable {H : Type} {host : UdpHost H} {w : Recorded H}

theorem recorded (host : UdpHost H) (w : Recorded H) (addr : NetAddr) (packet : Bytes) :
    ∃ answer inner, (recording host).udpSend w addr packet =
      (answer, ⟨inner, w.calls ++ [⟨addr, packet, answer.toBool⟩]⟩) := ⟨_, _, rfl⟩

theorem sendAck (sender : Sender dialed chunks s given w.calls) (now : Nat) :
    Sender dialed chunks (s.sendAck (recording host) now w).1 given (s.sendAck (recording host) now w).2.calls := by
  obtain ⟨answer, inner, sent⟩ := recorded host w s.addr (s.buildPacket ST_STATE s.nextSeq s.ackNr [] now)
  have fair := honest_other sender.narrow (by decide : ST_STATE < 16) (by decide) (by decide) dialed chunks
    s.nextSeq s.ackNr [] now
  have plain := plain_buildPacket s (by decide : ST_STATE < 16) (by decide) s.nextSeq s.ackNr [] now
  have logged := sender.call (c := ⟨s.addr, _, answer.toBool⟩) (fun _ => fair) plain
  unfold UtpSocket.sendAck
  rw [sent]
  cases answer with
  | ok done => exact logged.keep ⟨rfl, rfl, .of_eq rfl, id⟩ sender.unopened
  | error e => exact logged

theorem numbered_cut (sender : Sender dialed chunks s given calls) (streaming : s.finSent = false) (c : Option Bytes) :
    s.cut.nextSeq = ((chunks ++ [c]).length + s.cut.finCount) % 2 ^ 16 := by
  have number := sender.numbered
  have none_yet : s.finCount = 0 := by rw [finCount, streaming]; rfl
  have none_after : s.cut.finCount = 0 := none_yet
  rw [none_yet] at number
  rw [none_after, List.length_append, List.length_singleton]
  show (s.nextSeq + 1) % 2 ^ 16 = _
  omega

theorem nextSeq_of_streaming (sender : Sender dialed chunks s given calls) (streaming : s.finSent = false) :
    s.nextSeq = chunks.length % 2 ^ 16 := by
  rw [sender.numbered, finCount, streaming]
  rfl

theorem payload_append_cut (s : UtpSocket) : s.payload ++ s.cut.sendBuf = s.sendBuf := List.take_append_drop _ _

theorem honest_dataPacket (sender : Sender dialed chunks s given calls) (streaming : s.finSent = false) (now : Nat) :
    Honest dialed (chunks ++ [some s.payload]) s.sendId (s.dataPacket now) := by
  have whole : s.dataPacket now = (s.cut.hdr ST_DATA s.nextSeq s.ackNr now).encode ++ s.payload :=
    buildPacket_data s.cut s.nextSeq s.ackNr s.payload now
  obtain ⟨h, read, type, id, number⟩ := Header.decode_encode (s.cut.hdr ST_DATA s.nextSeq s.ackNr now) s.payload
    (by decide : ST_DATA < 16)
  refine ⟨h, whole ▸ read, id.trans (Nat.mod_eq_of_lt sender.narrow), ?_, ?_⟩
  · intro _
    refine ⟨chunks.length, ?_, ?_⟩
    · rw [number]
      show s.nextSeq % 2 ^ 16 = _
      rw [sender.nextSeq_of_streaming streaming, Nat.mod_mod]
    · have body : (s.dataPacket now).drop HDR_LEN = s.payload := by
        rw [whole]
        exact List.drop_left' (Header.length_encode _)
      rw [body, List.getElem?_append_right (Nat.le_refl _), Nat.sub_self]
      rfl
  · intro isSyn
    rw [type] at isSyn
    exact absurd isSyn (by decide : ST_DATA ≠ ST_SYN)

theorem used_cut (sender : Sender dialed chunks s given calls) (streaming : s.finSent = false) (now : Nat)
    (c : Option Bytes) (taken : Bool) : ∀ i < (chunks ++ [c]).length + s.cut.finCount,
      i % 2 ^ 16 ∈ packetsSent (calls ++ [⟨s.addr, s.dataPacket now, taken⟩]) := by
  intro i below
  have none_yet : s.finCount = 0 := by rw [finCount, streaming]; rfl
  have none_after : s.cut.finCount = 0 := none_yet
  rw [none_after, List.length_append, List.length_singleton] at below
  rcases Nat.lt_succ_iff_lt_or_eq.mp below with earlier | last
  · exact packetsSent_append _ _ (sender.used i (by omega))
  · have number := sequenced_buildPacket s.cut (Or.inl rfl) s.nextSeq s.ackNr s.payload now
    have used : sequenced (s.dataPacket now) = some (i % 2 ^ 16) := by
      rw [dataPacket, number, sender.nextSeq_of_streaming streaming, Nat.mod_mod, last]
    exact mem_packetsSent used

theorem grow_ne_nil (sender : Sender dialed chunks s given calls) (live : s.state = .connected)
    (dials : dialed = true) : chunks ≠ [] := by
  intro none_yet
  have before := sender.unopened dials none_yet
  rw [live] at before
  rcases before with wrong | wrong <;> cases wrong

theorem plain_dataPacket (s : UtpSocket) (now : Nat) : Plain (s.dataPacket now) :=
  plain_buildPacket s.cut (by decide : ST_DATA < 16) (by decide) s.nextSeq s.ackNr s.payload now

theorem launched (sender : Sender dialed chunks s given calls) (streaming : s.finSent = false)
    (live : s.state = .connected) (now : Nat) :
    Sender dialed (chunks ++ [some s.payload]) (s.cut.launch s.nextSeq (s.dataPacket now) s.payload.length now) given
      (calls ++ [⟨s.addr, s.dataPacket now, true⟩]) where
  narrow := sender.narrow
  syn := sender.syn
  numbered := sender.numbered_cut streaming _
  conserved := by
    have whole := payload_append_cut s
    show given = joined (chunks ++ [some s.payload]) ++ s.cut.sendBuf
    rw [joined_append, joined_some, List.append_assoc, whole, sender.conserved]
  flight := by
    intro seq u found
    have placed : (s.unacked.insert s.nextSeq ⟨s.dataPacket now, s.payload.length, now, 0⟩).get? seq = some u := found
    rw [OrdMap.get?_insert] at placed
    split at placed
    · cases placed
      exact sender.honest_dataPacket streaming now
    · exact (sender.flight seq u placed).extend _
  honest := by
    intro c listed taken
    rcases List.mem_append.mp listed with before | last
    · exact (sender.honest c before taken).extend _
    · cases List.mem_singleton.mp last
      exact sender.honest_dataPacket streaming now
  used := sender.used_cut streaming now _ true
  opening isOpening := by cases live.symm.trans isOpening
  unopened _ empty := by simp at empty
  opened dials _ := getElem?_extend _ (sender.opened dials (sender.grow_ne_nil live dials))
  shipped := by
    intro i p here filled
    rcases Nat.lt_or_ge i chunks.length with old | new
    · rw [List.getElem?_append_left old] at here
      exact (sender.shipped i p here filled).mono
    · have last : i = chunks.length := by
        have bound := (List.getElem?_eq_some_iff.mp here).1
        rw [List.length_append, List.length_singleton] at bound
        omega
      rw [last, List.getElem?_append_right (Nat.le_refl _), Nat.sub_self] at here
      have payload : s.payload = p := Option.some.inj (Option.some.inj here)
      have whole : s.dataPacket now = (s.cut.hdr ST_DATA s.nextSeq s.ackNr now).encode ++ s.payload :=
        buildPacket_data s.cut s.nextSeq s.ackNr s.payload now
      obtain ⟨h, read, type, -, number⟩ := Header.decode_encode (s.cut.hdr ST_DATA s.nextSeq s.ackNr now) s.payload
        (by decide : ST_DATA < 16)
      refine ⟨_, List.mem_append_right _ (List.mem_singleton.mpr rfl), rfl, h, whole ▸ read, type, ?_, ?_⟩
      · rw [number]
        show s.nextSeq % 2 ^ 16 = _
        rw [sender.nextSeq_of_streaming streaming, Nat.mod_mod, last]
      · rw [whole, ← payload]
        exact List.drop_left' (Header.length_encode _)
  fins := sender.fins_of_streaming streaming (plain_dataPacket s now)
  flights := by
    intro seq u found
    have placed : (s.unacked.insert s.nextSeq ⟨s.dataPacket now, s.payload.length, now, 0⟩).get? seq = some u := found
    rw [OrdMap.get?_insert] at placed
    split at placed
    · cases placed
      exact plain_dataPacket s now
    · exact sender.flights seq u placed

theorem refused (sender : Sender dialed chunks s given calls) (streaming : s.finSent = false)
    (live : s.state = .connected) (now : Nat) :
    Sender dialed (chunks ++ [none]) (s.cut.requeue s.payload) given (calls ++ [⟨s.addr, s.dataPacket now, false⟩]) where
  narrow := sender.narrow
  syn := sender.syn
  numbered := sender.numbered_cut streaming _
  conserved := by
    have whole := payload_append_cut s
    show given = joined (chunks ++ [none]) ++ (s.payload ++ s.cut.sendBuf)
    rw [joined_append, joined_none, List.append_nil, whole, sender.conserved]
  flight seq u found := (sender.flight seq u found).extend _
  honest := by
    intro c listed taken
    rcases List.mem_append.mp listed with before | last
    · exact (sender.honest c before taken).extend _
    · cases List.mem_singleton.mp last
      cases taken
  used := sender.used_cut streaming now _ false
  opening isOpening := by cases live.symm.trans isOpening
  unopened _ empty := by simp at empty
  opened dials _ := getElem?_extend _ (sender.opened dials (sender.grow_ne_nil live dials))
  shipped := by
    intro i p here filled
    rcases Nat.lt_or_ge i chunks.length with old | new
    · rw [List.getElem?_append_left old] at here
      exact (sender.shipped i p here filled).mono
    · rw [List.getElem?_append_right new] at here
      have none_there := List.mem_singleton.mp (List.mem_of_getElem? here)
      cases none_there
  fins := sender.fins_of_streaming streaming (plain_dataPacket s now)
  flights := sender.flights

def Grown (dialed : Bool) (chunks : Chunks UInt8) (given : Bytes) (after : UtpSocket × Recorded H) : Prop :=
  ∃ more, Sender dialed (chunks ++ more) after.1 given after.2.calls

theorem grown {after : UtpSocket × Recorded H} (sender : Sender dialed chunks after.1 given after.2.calls) :
    Grown dialed chunks given after := ⟨[], by rwa [List.append_nil]⟩

theorem Grown.more {more : Chunks UInt8} {after : UtpSocket × Recorded H}
    (grown : Grown dialed (chunks ++ more) given after) : Grown dialed chunks given after := by
  obtain ⟨rest, sender⟩ := grown
  exact ⟨more ++ rest, by rwa [← List.append_assoc]⟩

theorem transmitLoop (fuel : Nat) (sender : Sender dialed chunks s given w.calls) (streaming : s.finSent = false)
    (live : s.state = .connected) (now : Nat) :
    Grown dialed chunks given (transmitLoop (recording host) fuel s now w) := by
  induction fuel generalizing chunks s w with
  | zero => exact grown sender
  | succ fuel ih =>
    unfold UtpSocket.transmitLoop
    split
    · exact grown sender
    split
    · exact grown sender
    obtain ⟨answer, inner, sent⟩ := recorded host w s.addr (s.dataPacket now)
    rw [sent]
    cases answer with
    | ok done =>
      have later := @ih _ _ ⟨inner, _⟩ (sender.launched streaming live now) streaming live
      exact later.more
    | error e => exact ⟨_, sender.refused streaming live now⟩

theorem transmit (sender : Sender dialed chunks s given w.calls) (now : Nat) :
    Grown dialed chunks given (s.transmit (recording host) now w) := by
  unfold UtpSocket.transmit
  split
  · exact grown sender
  next able =>
    have live : s.state = .connected := by
      by_contra other
      exact able (Or.inl other)
    have streaming : s.finSent = false := by
      by_contra other
      exact able (Or.inr (by simpa using other))
    exact sender.transmitLoop _ streaming live now

theorem sequenced_syn (s : UtpSocket) (now : Nat) : sequenced (s.hdr ST_SYN s.synSeq 0 now).encode = some (s.synSeq % 2 ^ 16) := by
  obtain ⟨h, read, type, -, number⟩ := Header.decode_encode (s.hdr ST_SYN s.synSeq 0 now) [] (by decide : ST_SYN < 16)
  rw [List.append_nil] at read
  rw [sequenced, read]
  show (if _ then some h.seqNr else none) = _
  have counts : h.ptype = ST_DATA ∨ h.ptype = ST_FIN ∨ h.ptype = ST_SYN := Or.inr (Or.inr type)
  rw [if_pos counts, number]
  rfl

theorem honest_syn (narrow : s.sendId < 2 ^ 16) (zero : s.synSeq = 0) (dials : dialed = true)
    (first : chunks[0]? = some (some [])) (now : Nat) :
    Honest dialed chunks s.sendId (s.hdr ST_SYN s.synSeq 0 now).encode := by
  obtain ⟨h, read, type, id, number⟩ := Header.decode_encode (s.hdr ST_SYN s.synSeq 0 now) [] (by decide : ST_SYN < 16)
  rw [List.append_nil] at read
  refine ⟨h, read, id.trans (Nat.mod_eq_of_lt narrow), ?_, ?_⟩
  · intro isData
    rw [type] at isData
    exact absurd isData (by decide : ST_SYN ≠ ST_DATA)
  · intro _
    refine ⟨dials, ?_, first⟩
    rw [number]
    show s.synSeq % 2 ^ 16 = 0
    rw [zero]
    rfl

theorem plain_syn (s : UtpSocket) (now : Nat) : Plain (s.hdr ST_SYN s.synSeq 0 now).encode := by
  intro h read
  obtain ⟨g, again, type, -⟩ := Header.decode_encode (s.hdr ST_SYN s.synSeq 0 now) [] (by decide : ST_SYN < 16)
  rw [List.append_nil] at again
  cases read.symm.trans again
  rw [type]
  exact (by decide : ST_SYN ≠ ST_FIN)

theorem sendSyn (sender : Sender dialed chunks s given w.calls) (opening : s.state = .synSent) (now : Nat) :
    Grown dialed chunks given (s.sendSyn (recording host) now w) := by
  obtain ⟨dials, short, streaming⟩ := sender.opening opening
  obtain ⟨answer, inner, sent⟩ := recorded host w s.addr (s.hdr ST_SYN s.synSeq 0 now).encode
  unfold UtpSocket.sendSyn
  rw [sent]
  cases answer with
  | error e =>
    have logged := sender.call (c := ⟨s.addr, (s.hdr ST_SYN s.synSeq 0 now).encode, false⟩) (fun taken => by cases taken)
      (plain_syn s now)
    exact grown logged
  | ok done =>
    dsimp only
    have number := sender.nextSeq_of_streaming streaming
    by_cases first : chunks = []
    · subst first
      have zero : s.nextSeq = s.synSeq := by rw [number, sender.syn]; rfl
      have conserved := sender.conserved
      have none_yet : s.finCount = 0 := by rw [finCount, streaming]; rfl
      rw [if_pos zero]
      refine ⟨[some []], sender.narrow, sender.syn, ?_, ?_, ?_, ?_, ?_, ?_, ?_, fun _ _ => rfl, ?_,
        sender.fins_of_streaming streaming (plain_syn s now), sender.flights⟩
      · show wadd16 s.synSeq 1 = (1 + s.finCount) % 2 ^ 16
        rw [sender.syn, none_yet]
        rfl
      · exact conserved
      · exact fun seq u found => (sender.flight seq u found).extend _
      · intro c listed taken
        rcases List.mem_append.mp listed with before | last
        · exact (sender.honest c before taken).extend _
        · cases List.mem_singleton.mp last
          exact honest_syn sender.narrow sender.syn dials rfl now
      · intro i below
        have bound : i < 1 + s.finCount := below
        have only : i = s.synSeq := by
          rw [sender.syn]
          omega
        rw [only]
        exact mem_packetsSent (sequenced_syn s now)
      · exact fun _ => ⟨dials, Nat.le_refl 1, streaming⟩
      · intro _ empty
        cases empty
      · intro i p here filled
        have blank := List.mem_singleton.mp (List.mem_of_getElem? here)
        exact absurd (Option.some.inj blank) filled
    · have later : s.nextSeq ≠ s.synSeq := by
        have some_chunk := List.length_pos_iff.mpr first
        rw [number, sender.syn]
        omega
      rw [if_neg later]
      have fair := honest_syn sender.narrow sender.syn dials (sender.opened dials first) now
      have logged := sender.call (c := ⟨s.addr, _, true⟩) (fun _ => fair) (plain_syn s now)
      exact grown ⟨logged.narrow, logged.syn, logged.numbered, logged.conserved, logged.flight, logged.honest, logged.used,
        logged.opening, logged.unopened, logged.opened, logged.shipped, logged.fins, logged.flights⟩

theorem sendFin (sender : Sender dialed chunks s given w.calls)
    (begun : dialed = true → chunks ≠ []) (now : Nat) :
    Sender dialed chunks (s.sendFin (recording host) now w).1 given (s.sendFin (recording host) now w).2.calls := by
  unfold UtpSocket.sendFin
  split
  · exact sender
  next streaming =>
    have streaming : s.finSent = false := by simpa using streaming
    obtain ⟨answer, inner, sent⟩ := recorded host w s.addr (s.finPacket now)
    have number := sender.nextSeq_of_streaming streaming
    have fair : Honest dialed chunks s.sendId (s.finPacket now) :=
      @honest_other s.finish sender.narrow ST_FIN (by decide) (by decide) (by decide) dialed chunks s.nextSeq s.ackNr [] now
    rw [sent]
    refine ⟨sender.narrow, sender.syn, ?_, sender.conserved, sender.flight, ?_, ?_, ?_, ?_, sender.opened,
      fun i p here filled => (sender.shipped i p here filled).mono, ?_, sender.flights⟩
    · show (s.nextSeq + 1) % 2 ^ 16 = (chunks.length + 1) % 2 ^ 16
      omega
    · intro c listed taken
      rcases List.mem_append.mp listed with before | last
      · exact sender.honest c before taken
      · cases List.mem_singleton.mp last
        exact fair
    · intro i below
      have bound : i < chunks.length + 1 := below
      rcases Nat.lt_succ_iff_lt_or_eq.mp bound with earlier | last
      · exact packetsSent_append _ _ (sender.used i (by omega))
      · have used : sequenced (s.finPacket now) = some (i % 2 ^ 16) := by
          rw [finPacket, sequenced_buildPacket s.finish (Or.inr rfl), number, Nat.mod_mod, last]
        exact mem_packetsSent used
    · intro opening
      cases opening
    · intro dials empty
      exact absurd empty (begun dials)
    · intro c listed h read isFin
      refine ⟨rfl, ?_⟩
      rcases List.mem_append.mp listed with before | last
      · exact absurd (sender.fins c before h read isFin).1 (by rw [streaming]; exact Bool.false_ne_true)
      · cases List.mem_singleton.mp last
        rw [(header_buildPacket s.finish (by decide : ST_FIN < 16) s.nextSeq s.ackNr [] now read).2, number, Nat.mod_mod]

theorem flies_retry {seq : Nat} {u : Unacked} (found : s.unacked.get? seq = some u) (now : Nat) :
    s.FliesIn (s.retry seq u now) := by
  intro other v held
  have placed : (s.unacked.insert seq { u with attempts := u.attempts + 1, sentAt := now }).get? other = some v := held
  rw [OrdMap.get?_insert] at placed
  split at placed
  next same =>
    cases placed
    exact ⟨u, same ▸ found, rfl⟩
  next => exact ⟨v, placed, rfl⟩

theorem resend (expired : List Nat) (sender : Sender dialed chunks s given w.calls) (now : Nat) :
    Sender dialed chunks (resend (recording host) expired s now w).1 given
      (resend (recording host) expired s now w).2.calls := by
  induction expired generalizing s w with
  | nil => exact sender
  | cons seq rest ih =>
    unfold UtpSocket.resend
    split
    · exact ih sender
    next u found =>
      have flies := flies_retry found now
      split
      · exact sender.keep ⟨rfl, rfl, flies, fun closed => by cases closed⟩ (fun _ _ => Or.inr rfl)
      · obtain ⟨answer, inner, sent⟩ := recorded host w s.addr u.packet
        have logged := sender.call (c := ⟨s.addr, u.packet, answer.toBool⟩) (fun _ => sender.flight seq u found)
          (sender.flights seq u found)
        have retried : s.Receives (s.retry seq u now) := ⟨rfl, rfl, flies, id⟩
        have counted := logged.keep retried sender.unopened
        rw [sent]
        have later := @ih _ ⟨inner, _⟩ counted
        exact later

theorem retransmit (sender : Sender dialed chunks s given w.calls) (now : Nat) :
    Grown dialed chunks given (s.retransmit (recording host) now w) := by
  unfold UtpSocket.retransmit
  cases state : s.state with
  | synSent =>
    dsimp only
    split
    · split
      · exact grown (sender.keep ⟨rfl, rfl, .of_eq rfl, fun closed => by cases closed⟩ (fun _ _ => Or.inr rfl))
      · exact sender.sendSyn state now
    · exact grown sender
  | connected => exact grown (sender.resend _ now)
  | finSent => exact grown (sender.resend _ now)
  | closed => exact grown sender

theorem tickRetransmit (sender : Sender dialed chunks s given w.calls) (now : Nat) :
    Grown dialed chunks given (s.tickRetransmit (recording host) now w) := by
  obtain ⟨more, resent⟩ : Grown dialed chunks given (s.retransmit (recording host) now w) := sender.retransmit now
  unfold UtpSocket.tickRetransmit
  dsimp only
  split
  · exact ⟨more, resent.sendAck now⟩
  · exact ⟨more, resent⟩

theorem emit (sender : Sender dialed chunks s given w.calls) (now : Nat) :
    Grown dialed chunks given (UtpManager.emit (recording host) s now w) := by
  unfold UtpManager.emit
  cases state : s.state with
  | synSent =>
    dsimp only
    split
    · exact sender.sendSyn state now
    · exact grown sender
  | connected => exact sender.transmit now
  | finSent =>
    have still : s.transmit (recording host) now w = (s, w) := by
      unfold UtpSocket.transmit
      rw [if_pos (Or.inl (by rw [state]; decide))]
    have begun : dialed = true → chunks ≠ [] := by
      intro dials empty
      have before := sender.unopened dials empty
      rw [state] at before
      rcases before with wrong | wrong <;> cases wrong
    dsimp only
    rw [still]
    dsimp only
    split
    · exact grown (sender.sendFin begun now)
    · exact grown sender
  | closed => exact grown sender

theorem expire (sender : Sender dialed chunks s given calls) (now : Nat) :
    Sender dialed chunks (UtpManager.expire s now) given calls := by
  unfold UtpManager.expire
  split
  · exact sender.keep ⟨rfl, rfl, .of_eq rfl, fun closed => by cases closed⟩ (fun _ _ => Or.inr rfl)
  · exact sender

theorem driveSocket (sender : Sender dialed chunks s given w.calls) (now : Nat) :
    Grown dialed chunks given (UtpManager.driveSocket (recording host) s now w) := by
  rw [UtpManager.driveSocket_eq]
  obtain ⟨first, emitted⟩ : Grown dialed chunks given (UtpManager.emit (recording host) s now w) := sender.emit now
  generalize UtpManager.emit (recording host) s now w = sent at emitted ⊢
  obtain ⟨second, ticked⟩ : Grown dialed (chunks ++ first) given (sent.1.tickRetransmit (recording host) now sent.2) :=
    emitted.tickRetransmit now
  rw [List.append_assoc] at ticked
  exact ⟨first ++ second, ticked.expire now⟩

theorem heard (sender : Sender dialed chunks s given w.calls)
    (begun : dialed = true → chunks ≠ []) (h : Header) (payload : Bytes) (now : Nat) : Sender dialed chunks (s.onPacket (recording host) h payload now w).1 given
      (s.onPacket (recording host) h payload now w).2.calls := by
  have taken := sender.keep (receives_absorb s h payload now).1 (fun dials empty => absurd empty (begun dials))
  unfold UtpSocket.onPacket
  dsimp only
  split
  · exact taken.sendAck now
  · exact taken

theorem close (sender : Sender dialed chunks s given calls) :
    Sender dialed chunks { s with state := if s.isConnected then .finSent else .closed } given calls := by
  have changed : s.Receives { s with state := if s.isConnected then .finSent else .closed } := by
    refine ⟨rfl, rfl, .of_eq rfl, ?_⟩
    dsimp only
    split
    · exact fun wrong => by cases wrong
    · exact fun wrong => by cases wrong
  apply sender.keep changed
  intro dials empty
  have joining : s.isConnected = false := by
    unfold isConnected
    rcases sender.unopened dials empty with early | closed
    · rw [early]; rfl
    · rw [closed]; rfl
  dsimp only
  rw [joining]
  exact Or.inr rfl

end Host
end Sender

theorem sender_dialed (handle : ConnId) (addr : NetAddr) {sendId : Nat} (narrow : sendId < 2 ^ 16) (recvId now : Nat) :
    Sender true [] { new handle addr sendId recvId now with ackNr := wsub16 0 1 } [] [] where
  narrow := narrow
  syn := rfl
  numbered := rfl
  conserved := rfl
  flight _ _ none_yet := by cases none_yet
  honest := by simp
  used _ below := absurd below (Nat.not_lt_zero _)
  opening _ := ⟨rfl, Nat.zero_le 1, rfl⟩
  unopened _ _ := Or.inl rfl
  opened _ wrong := absurd rfl wrong
  shipped _ _ here := by simp at here
  fins := by simp
  flights _ _ none_yet := by cases none_yet

theorem sender_inbound (handle : ConnId) (addr : NetAddr) (h : Header) (now : Nat) :
    Sender false [] (UtpManager.inbound handle addr h now) [] [] where
  narrow := Nat.mod_lt _ (by decide)
  syn := rfl
  numbered := rfl
  conserved := rfl
  flight _ _ none_yet := by cases none_yet
  honest := by simp
  used _ below := absurd below (Nat.not_lt_zero _)
  opening wrong := by cases wrong
  unopened wrong := by cases wrong
  opened wrong := by cases wrong
  shipped _ _ here := by simp at here
  fins := by simp
  flights _ _ none_yet := by cases none_yet

end UtpSocket
end TypeBit.Utp
