import TypeBit.Utp.Isolation
import TypeBit.Utp.Sender

/-! Reading back what a uTP socket frames. BEP-29 announces the first extension of a packet in its header, and every
extension announces the next. `build_packet` appends a selective acknowledgement without announcing it, and the
receiver takes all that follows the header for the payload. -/

namespace TypeBit.Utp
open Wire

/-! ### A packet as BEP-29 reads it -/

/-- The chain of extensions that starts with one of this type, and what follows it. Every extension says which comes next
and how long it is; each takes two bytes at least, so the length of the packet is fuel enough. -/
def readChain : Nat → Nat → Bytes → Option (List (Nat × Bytes) × Bytes)
  | fuel, ext, b =>
      if ext = EXT_NONE then some ([], b)
      else
        match fuel, b with
        | fuel + 1, next :: len :: rest =>
            if rest.length < len.toNat then none
            else (readChain fuel next.toNat (rest.drop len.toNat)).map fun more => ((ext, rest.take len.toNat) :: more.1, more.2)
        | _, _ => none

structure Frame where
  header : Header
  extensions : List (Nat × Bytes)
  payload : Bytes
  deriving DecidableEq

def Frame.parse (packet : Bytes) : Option Frame := do
  let header ← Header.decode packet
  let (extensions, payload) ← readChain packet.length header.extension (packet.drop HDR_LEN)
  return { header, extensions, payload }

def body (packet : Bytes) : Bytes := packet.drop HDR_LEN

theorem parse_plain {h : Header} (plain : h.sized.extension = EXT_NONE) (rest : Bytes) :
    Frame.parse (h.encode ++ rest) = some { header := h.sized, extensions := [], payload := rest } := by
  have unchained : readChain (h.encode ++ rest).length h.sized.extension rest = some ([], rest) := by
    unfold readChain
    exact if_pos plain
  have dropped : (h.encode ++ rest).drop HDR_LEN = rest := List.drop_left' h.length_encode
  unfold Frame.parse
  rw [Header.decode_encode_sized, dropped]
  simp only [Option.bind_eq_bind, Option.bind_some, unchained]
  rfl

namespace UtpSocket

/-! ### What a socket frames -/

/-- The packet acknowledges, and so carries the echo and the selective acknowledgement. -/
def Acknowledges (ptype : Nat) : Prop := ptype = ST_STATE ∨ ptype = ST_FIN

instance (ptype : Nat) : Decidable (Acknowledges ptype) := inferInstanceAs (Decidable (_ ∨ _))

def packetHeader (s : UtpSocket) (ptype seq ack now : Nat) : Header :=
  if Acknowledges ptype then
    { s.hdr ptype seq ack now with
      timestamp := s.lastDataTs
      timestampDiff := if s.lastRecvAt ≠ 0 then min (now - s.lastRecvAt) (2 ^ 32 - 1) else 0 }
  else s.hdr ptype seq ack now

def selective (s : UtpSocket) (ptype : Nat) : List (Nat × Bytes) :=
  if Acknowledges ptype ∧ s.sackMask.1 ≠ EXT_NONE then [s.sackMask] else []

def extensionBytes (extensions : List (Nat × Bytes)) : Bytes :=
  extensions.flatMap fun e => e.1.toUInt8 :: e.2.length.toUInt8 :: e.2

theorem buildPacket_eq (s : UtpSocket) (ptype seq ack : Nat) (payload : Bytes) (now : Nat) :
    s.buildPacket ptype seq ack payload now =
      (s.packetHeader ptype seq ack now).encode ++ (extensionBytes (s.selective ptype) ++ payload) := by
  unfold buildPacket packetHeader selective
  by_cases acking : Acknowledges ptype
  · have test : decide (ptype = ST_STATE ∨ ptype = ST_FIN) = true := decide_eq_true acking
    by_cases masked : s.sackMask.1 ≠ EXT_NONE
    · simp [test, acking, masked, extensionBytes]
    · simp [test, acking, masked, extensionBytes]
  · have test : decide (ptype = ST_STATE ∨ ptype = ST_FIN) = false := decide_eq_false acking
    simp [test, acking, extensionBytes]

theorem packetHeader_extension (s : UtpSocket) (ptype seq ack now : Nat) :
    (s.packetHeader ptype seq ack now).sized.extension = EXT_NONE := by
  unfold packetHeader
  split
  · rfl
  · rfl

def Beyond (ackNr seq : Nat) : Prop := 256 ≤ wsub16 (wsub16 seq ackNr) 1

instance (ackNr seq : Nat) : Decidable (Beyond ackNr seq) := inferInstanceAs (Decidable (_ ≤ _))

theorem markSack_flag (ackNr : Nat) (mask : Bytes × Bool) (seq : Nat) :
    (markSack ackNr mask seq).2 = true ↔ mask.2 = true ∨ ¬ Beyond ackNr seq := by
  rw [markSack, Beyond]
  generalize wsub16 (wsub16 seq ackNr) 1 = off
  split
  next beyond => simp [beyond]
  next near => simp [near]

theorem foldl_markSack (ackNr : Nat) (seqs : List Nat) (mask : Bytes × Bool) :
    (seqs.foldl (markSack ackNr) mask).2 = true ↔ mask.2 = true ∨ ∃ seq ∈ seqs, ¬ Beyond ackNr seq := by
  induction seqs generalizing mask with
  | nil => simp
  | cons seq rest ih => rw [List.foldl_cons, ih, markSack_flag, List.exists_mem_cons_iff, or_assoc]

theorem sackMask_ne_none_iff (s : UtpSocket) : s.sackMask.1 ≠ EXT_NONE ↔ ∃ seq ∈ s.oob.keys, ¬ Beyond s.ackNr seq := by
  have marked := foldl_markSack s.ackNr s.oob.keys (List.replicate 32 0, false)
  unfold sackMask
  by_cases empty : s.oob.isEmpty = true
  · have keys : s.oob.keys = [] := by
      rw [OrdMap.keys, List.isEmpty_iff.mp empty, List.map_nil]
    simp [keys, empty]
  · rw [if_neg empty]
    generalize s.oob.keys.foldl (markSack s.ackNr) (List.replicate 32 0, false) = outcome at marked
    obtain ⟨mask, any⟩ := outcome
    cases any with
    | true => exact ⟨fun _ => (marked.mp rfl).resolve_left Bool.false_ne_true, fun _ => Nat.one_ne_zero⟩
    | false => exact ⟨fun wrong => absurd rfl wrong, fun near => absurd (marked.mpr (.inr near)) Bool.false_ne_true⟩

/-- The packet carries no selective acknowledgement: it is not of an acknowledging type, or no packet received out of order
is among the 256 after the acknowledged one. -/
def Unreported (s : UtpSocket) (ptype : Nat) : Prop := Acknowledges ptype → ∀ seq ∈ s.oob.keys, Beyond s.ackNr seq

instance (s : UtpSocket) (ptype : Nat) : Decidable (s.Unreported ptype) := inferInstanceAs (Decidable (_ → _))

theorem selective_eq_nil_iff (s : UtpSocket) (ptype : Nat) : s.selective ptype = [] ↔ s.Unreported ptype := by
  have near := s.sackMask_ne_none_iff
  unfold selective Unreported
  split
  next appended =>
    obtain ⟨seq, member, close⟩ := near.mp appended.2
    exact ⟨fun wrong => (List.cons_ne_nil _ _ wrong).elim, fun plain => absurd (plain appended.1 seq member) close⟩
  next none =>
    refine ⟨fun _ acking seq member => ?_, fun _ => rfl⟩
    by_contra close
    exact none ⟨acking, near.mpr ⟨seq, member, close⟩⟩

theorem extension_append_iff (s : UtpSocket) (ptype : Nat) (payload : Bytes) :
    extensionBytes (s.selective ptype) ++ payload = payload ↔ s.Unreported ptype := by
  rw [← selective_eq_nil_iff, List.append_left_eq_self]
  constructor
  · intro empty
    by_contra appended
    obtain ⟨e, rest, listed⟩ := List.exists_cons_of_ne_nil appended
    rw [listed] at empty
    cases empty
  · intro empty
    rw [empty]
    rfl

/-- Read as BEP-29 prescribes, the packet has the header that was filled, the selective acknowledgement that was built, and
the payload. -/
def RoundTrips (s : UtpSocket) (ptype seq ack : Nat) (payload : Bytes) (now : Nat) : Prop :=
  Frame.parse (s.buildPacket ptype seq ack payload now) =
    some { header := (s.packetHeader ptype seq ack now).sized, extensions := s.selective ptype, payload }

instance (s : UtpSocket) (ptype seq ack : Nat) (payload : Bytes) (now : Nat) : Decidable (s.RoundTrips ptype seq ack payload now) :=
  inferInstanceAs (Decidable (_ = _))

/-- A packet reads back, and its payload reaches the receiving socket, exactly when it carries no selective
acknowledgement. -/
theorem framing_iff (s : UtpSocket) (ptype seq ack : Nat) (payload : Bytes) (now : Nat) :
    (s.RoundTrips ptype seq ack payload now ↔ s.Unreported ptype) ∧
    (body (s.buildPacket ptype seq ack payload now) = payload ↔ s.Unreported ptype) ∧
    ∀ (H : Type) (host : UdpHost H) (m : UtpManager), UtpManager.Keyed m.conns → ∀ id t,
      m.expecting (s.packetHeader ptype seq ack now).sized.connId = some (id, t) → ∀ addr later w,
      (m.handleDatagram host addr (s.buildPacket ptype seq ack payload now) later w).2.1.conns =
        m.conns.insert id (t.onPacket host (s.packetHeader ptype seq ack now).sized
          (body (s.buildPacket ptype seq ack payload now)) later w).1 := by
  rw [RoundTrips, buildPacket_eq]
  refine ⟨?_, ?_, ?_⟩
  · rw [parse_plain (s.packetHeader_extension ptype seq ack now), Option.some.injEq, Frame.mk.injEq, ← selective_eq_nil_iff]
    constructor
    · exact fun same => same.2.1.symm
    · intro empty
      rw [empty]
      exact ⟨rfl, rfl, rfl⟩
  · exact s.extension_append_iff ptype payload
  · intro H host m keyed id t found addr later w
    exact UtpManager.handleDatagram_expected host keyed (Header.decode_encode_sized _ _) found addr later w

def gapped : UtpSocket :=
  { UtpSocket.new 1 NetAddr.unspecified 1 2 0 with state := .connected, oob := (∅ : OrdMap Nat Bytes).insert 2 [9] }

/-- The selective acknowledgement is read, and handed on, as payload. -/
theorem sack_read_as_payload : ¬ (∀ (s : UtpSocket) (ptype seq ack : Nat) (payload : Bytes) (now : Nat),
    s.RoundTrips ptype seq ack payload now ∧ body (s.buildPacket ptype seq ack payload now) = payload) := by
  intro always
  have handed := (always gapped ST_STATE 1 0 [] 7).2
  rw [buildPacket_eq] at handed
  have unreported : gapped.Unreported ST_STATE := (gapped.extension_append_iff ST_STATE []).mp handed
  exact absurd unreported (by decide)

end UtpSocket
end TypeBit.Utp
