import TypeBit.Basic

/-! The peer wire protocol (`wire.rs`): the handshake frame, the message codec and the streaming
message parser. A `u32` field is a natural, written and read as four big-endian bytes. -/

namespace TypeBit.Wire

def PROTOCOL : Bytes := ascii "BitTorrent protocol"
def HANDSHAKE_LEN : Nat := 68

structure Handshake where
  reserved : Bytes
  infoHash : Bytes
  peerId : Bytes
  reserved_length : reserved.length = 8
  infoHash_length : infoHash.length = 20
  peerId_length : peerId.length = 20
  deriving DecidableEq

namespace Handshake

def encode (h : Handshake) : Bytes :=
  PROTOCOL.length.toUInt8 :: PROTOCOL ++ h.reserved ++ h.infoHash ++ h.peerId

def parse (buf : Bytes) : Result Handshake :=
  if full : buf.length = HANDSHAKE_LEN then
    if (buf.headD 0).toNat ≠ PROTOCOL.length ∨ (buf.drop 1).take PROTOCOL.length ≠ PROTOCOL then .error .handshake
    else
      .ok ⟨(buf.drop 20).take 8, (buf.drop 28).take 20, buf.drop 48,
        by simp [full, HANDSHAKE_LEN], by simp [full, HANDSHAKE_LEN], by simp [full, HANDSHAKE_LEN]⟩
  else .error .handshake

theorem length_encode (h : Handshake) : h.encode.length = HANDSHAKE_LEN := by
  have protocol : PROTOCOL.length = 19 := by decide
  simp [encode, h.reserved_length, h.infoHash_length, h.peerId_length, protocol, HANDSHAKE_LEN]

def has (h : Handshake) (byte : Nat) (mask : UInt8) : Bool := decide (h.reserved.getD byte 0 &&& mask ≠ 0)

def hasExtension (h : Handshake) : Bool := h.has 5 0x10
def hasDht (h : Handshake) : Bool := h.has 7 0x01
def hasFast (h : Handshake) : Bool := h.has 7 0x04
def hasV2 (h : Handshake) : Bool := h.has 7 0x80

end Handshake

inductive Message where
  | keepAlive
  | choke
  | unchoke
  | interested
  | notInterested
  | haves (piece : Nat)
  | bitfield (bytes : Bytes)
  | request (index start length : Nat)
  | piece (index start : Nat) (data : Bytes)
  | cancel (index start length : Nat)
  | port (p : Nat)
  | extended (id : UInt8) (payload : Bytes)
  | suggest (piece : Nat)
  | haveAll
  | haveNone
  | reject (index start length : Nat)
  | allowedFast (piece : Nat)
  deriving DecidableEq, Repr

def toBe32 (n : Nat) : Bytes := [(n / 2 ^ 24).toUInt8, (n / 2 ^ 16).toUInt8, (n / 2 ^ 8).toUInt8, n.toUInt8]

def toBe16 (n : Nat) : Bytes := [(n / 2 ^ 8).toUInt8, n.toUInt8]

def be32 (b : Bytes) : Nat :=
  (b.getD 0 0).toNat * 2 ^ 24 + (b.getD 1 0).toNat * 2 ^ 16 + (b.getD 2 0).toNat * 2 ^ 8 + (b.getD 3 0).toNat

def be16 (b : Bytes) : Nat := (b.getD 0 0).toNat * 2 ^ 8 + (b.getD 1 0).toNat

namespace Message

def body : Message → Bytes
  | keepAlive => []
  | choke => [0]
  | unchoke => [1]
  | interested => [2]
  | notInterested => [3]
  | haves p => 4 :: toBe32 p
  | bitfield b => 5 :: b
  | request index start length => 6 :: toBe32 index ++ toBe32 start ++ toBe32 length
  | piece index start data => 7 :: toBe32 index ++ toBe32 start ++ data
  | cancel index start length => 8 :: toBe32 index ++ toBe32 start ++ toBe32 length
  | port p => 9 :: toBe16 p
  | extended id payload => 20 :: id :: payload
  | suggest p => 0x0D :: toBe32 p
  | haveAll => [0x0E]
  | haveNone => [0x0F]
  | reject index start length => 0x10 :: toBe32 index ++ toBe32 start ++ toBe32 length
  | allowedFast p => 0x11 :: toBe32 p

def encode (m : Message) : Bytes := toBe32 m.body.length ++ m.body

def triple (payload : Bytes) (make : Nat → Nat → Nat → Message) : Result Message :=
  if payload.length ≠ 12 then .error .protocol
  else .ok (make (be32 payload) (be32 (payload.drop 4)) (be32 (payload.drop 8)))

def single (payload : Bytes) (make : Nat → Message) : Result Message :=
  if payload.length ≠ 4 then .error .protocol else .ok (make (be32 payload))

def decode (id : UInt8) (payload : Bytes) : Result Message :=
  match id.toNat with
  | 0 => .ok choke
  | 1 => .ok unchoke
  | 2 => .ok interested
  | 3 => .ok notInterested
  | 4 => single payload haves
  | 5 => .ok (bitfield payload)
  | 6 => triple payload request
  | 7 =>
      if payload.length < 8 then .error .protocol
      else .ok (piece (be32 payload) (be32 (payload.drop 4)) (payload.drop 8))
  | 8 => triple payload cancel
  | 9 => if payload.length ≠ 2 then .error .protocol else .ok (port (be16 payload))
  | 20 =>
      match payload with
      | [] => .error .protocol
      | sub :: tail => .ok (extended sub tail)
  | 0x0D => single payload suggest
  | 0x0E => .ok haveAll
  | 0x0F => .ok haveNone
  | 0x10 => triple payload reject
  | 0x11 => single payload allowedFast
  | _ => .error .protocol

end Message

structure MessageStream where
  buf : Bytes
  maxFrame : Nat
  deriving DecidableEq, Repr

namespace MessageStream

def new : MessageStream := ⟨[], 4 * 1024 * 1024⟩

def feed (s : MessageStream) (data : Bytes) : MessageStream := { s with buf := s.buf ++ data }

def poll (s : MessageStream) : Result (Option Message) × MessageStream :=
  if s.buf.length < 4 then (.ok none, s)
  else
    let len := be32 s.buf
    if len = 0 then (.ok (some .keepAlive), { s with buf := s.buf.drop 4 })
    else if len > s.maxFrame then (.error .tooLarge, s)
    else if s.buf.length < 4 + len then (.ok none, s)
    else
      ((Message.decode (s.buf.getD 4 0) ((s.buf.take (4 + len)).drop 5)).map some,
        { s with buf := s.buf.drop (4 + len) })

end MessageStream

/-! ### Messages never look like a handshake -/

def encodeAll (messages : List Message) : Bytes := messages.flatMap Message.encode

theorem Handshake.parse_ok_head {buf : Bytes} {h : Handshake} (parsed : parse buf = .ok h) :
    buf[0]? = some 19 ∧ buf[4]? = some 84 := by
  unfold parse at parsed
  split_ifs at parsed with full mismatch
  obtain ⟨pstrlen, protocol⟩ := not_or.mp mismatch
  cases buf with
  | nil => cases full
  | cons first tail =>
    constructor
    · have value : first.toNat = 19 := not_not.mp pstrlen
      have same : first = 19 := UInt8.toNat_inj.mp value
      simp [same]
    · have text : tail.take PROTOCOL.length = PROTOCOL := not_not.mp protocol
      have letter : (tail.take PROTOCOL.length)[3]? = some 84 := by rw [text]; decide
      rwa [List.getElem?_take_of_lt (by decide)] at letter

theorem Message.encode_head (m : Message) (rest : Bytes) :
    (m.encode ++ rest)[0]? = some 0 ∨ ∃ id, (m.encode ++ rest)[4]? = some id ∧ id.toNat ≤ 20 := by
  cases m with
  | keepAlive => exact Or.inl rfl
  | _ => exact Or.inr ⟨_, rfl, by decide⟩

theorem Handshake.parse_messages {buf rest : Bytes} {messages : List Message} (start : buf ++ rest = encodeAll messages)
    (h : Handshake) : parse buf ≠ .ok h := by
  intro parsed
  obtain ⟨first, fifth⟩ := parse_ok_head parsed
  have shown : ∀ {i : Nat} {c : UInt8}, buf[i]? = some c → (encodeAll messages)[i]? = some c := by
    intro i c found
    obtain ⟨bound, _⟩ := List.getElem?_eq_some_iff.mp found
    rw [← start, List.getElem?_append_left bound, found]
  have head := shown first
  have letter := shown fifth
  cases messages with
  | nil => cases head
  | cons m tail =>
    have frames : encodeAll (m :: tail) = m.encode ++ encodeAll tail := rfl
    rw [frames] at head letter
    rcases m.encode_head (encodeAll tail) with zero | ⟨id, place, small⟩
    · rw [zero] at head
      cases head
    · rw [place] at letter
      cases letter
      exact absurd small (by decide)

end TypeBit.Wire
