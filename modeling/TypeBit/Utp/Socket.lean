import TypeBit.Lib.OrdMap
import TypeBit.Platform
import TypeBit.Wire.Message

/-! One uTP connection (`utp.rs`): the 20-byte header, the socket with its congestion control, what a
received packet does to it, and what it sends. Times are microseconds; sequence numbers are 16 bits wide. -/

namespace TypeBit

structure UdpHost (H : Type) where
  udpSend : H → NetAddr → Bytes → Result Unit × H

namespace Utp
open Wire

def UTP_VERSION : Nat := 1
def HDR_LEN : Nat := 20
def MAX_PAYLOAD : Nat := 1400
def RECV_WINDOW : Nat := 512 * 1024
def TARGET_DELAY_US : Nat := 100000
def GAIN_DENOM : Nat := 16
def MIN_WINDOW : Nat := 2 * MAX_PAYLOAD
def MAX_WINDOW : Nat := 1024 * 1024
def INIT_WINDOW : Nat := 4 * MAX_PAYLOAD
def BASE_DELAY_RESET_US : Nat := 10000000
def IDLE_TIMEOUT_US : Nat := 90000000
def MAX_SYN_RETRIES : Nat := 5
def MAX_DATA_RETRIES : Nat := 8
def RTO_MIN_US : Nat := 150000
def RTO_MAX_US : Nat := 4000000

/-! ### Packet types and extensions -/

def ST_DATA : Nat := 0
def ST_FIN : Nat := 1
def ST_STATE : Nat := 2
def ST_RESET : Nat := 3
def ST_SYN : Nat := 4
def EXT_NONE : Nat := 0
def EXT_SACK : Nat := 1

def wadd16 (a b : Nat) : Nat := (a + b) % 2 ^ 16

def wsub16 (a b : Nat) : Nat := (a + (2 ^ 16 - b % 2 ^ 16)) % 2 ^ 16

/-- Whether `a` is at or before `b` in 16-bit sequence space (half-window). -/
def seqLe (a b : Nat) : Bool := decide (wsub16 b a < 0x8000)

structure Header where
  ptype : Nat
  extension : Nat
  connId : Nat
  timestamp : Nat
  timestampDiff : Nat
  wndSize : Nat
  seqNr : Nat
  ackNr : Nat
  deriving DecidableEq

namespace Header

def encode (h : Header) : Bytes :=
  [((h.ptype <<< 4) ||| UTP_VERSION).toUInt8, h.extension.toUInt8] ++ toBe16 h.connId ++ toBe32 h.timestamp
    ++ toBe32 h.timestampDiff ++ toBe32 h.wndSize ++ toBe16 h.seqNr ++ toBe16 h.ackNr

def decode (b : Bytes) : Option Header :=
  if b.length < HDR_LEN then none
  else if (b.getD 0 0).toNat &&& 0x0F ≠ UTP_VERSION then none
  else some {
    ptype := (b.getD 0 0).toNat >>> 4
    extension := (b.getD 1 0).toNat
    connId := be16 (b.drop 2)
    timestamp := be32 (b.drop 4)
    timestampDiff := be32 (b.drop 8)
    wndSize := be32 (b.drop 12)
    seqNr := be16 (b.drop 16)
    ackNr := be16 (b.drop 18) }

end Header

structure Unacked where
  packet : Bytes
  payloadLen : Nat
  sentAt : Nat
  attempts : Nat
  deriving DecidableEq

inductive UtpState where
  | synSent
  | connected
  | finSent
  | closed
  deriving DecidableEq, Repr

structure UtpSocket where
  handle : ConnId
  addr : NetAddr
  sendId : Nat
  recvId : Nat
  state : UtpState := .synSent
  synSeq : Nat := 0
  nextSeq : Nat := 0
  ackNr : Nat := 0
  recvBuf : Bytes := []
  oob : OrdMap Nat Bytes := ∅
  sendBuf : Bytes := []
  unacked : OrdMap Nat Unacked := ∅
  inFlight : Nat := 0
  peerWnd : Nat := RECV_WINDOW
  cwnd : Nat := INIT_WINDOW
  baseDelay : Nat := 2 ^ 64 - 1
  ourDelay : Nat := 0
  rtt : Nat := RTO_MIN_US
  rto : Nat := RTO_MIN_US
  baseDelayResetAt : Nat
  nextWindowUpdate : Nat := 0
  ackPending : Bool := false
  lastRecvAt : Nat := 0
  lastDataTs : Nat := 0
  lastActivity : Nat
  synSentAt : Nat := 0
  finSentAt : Nat := 0
  synAttempts : Nat := 0
  peerFin : Bool := false
  finSent : Bool := false
  deriving DecidableEq

namespace UtpSocket

def new (handle : ConnId) (addr : NetAddr) (sendId recvId now : Nat) : UtpSocket :=
  { handle, addr, sendId, recvId, baseDelayResetAt := satAdd now BASE_DELAY_RESET_US, lastActivity := now }

def isConnected (s : UtpSocket) : Bool := decide (s.state = .connected)

def advertisedWindow (s : UtpSocket) : Nat :=
  min (RECV_WINDOW - satAdd s.recvBuf.length (s.oob.size * MAX_PAYLOAD)) (2 ^ 32 - 1)

def hdr (s : UtpSocket) (ptype seq ack now : Nat) : Header where
  ptype := ptype
  extension := EXT_NONE
  connId := s.sendId
  timestamp := now % 2 ^ 32
  timestampDiff := 0
  wndSize := s.advertisedWindow
  seqNr := seq
  ackNr := ack

def markSack (ackNr : Nat) (mask : Bytes × Bool) (seq : Nat) : Bytes × Bool :=
  let off := wsub16 (wsub16 seq ackNr) 1
  if 256 ≤ off then mask
  else (mask.1.modify (off / 8) (fun b => b ||| (1 <<< (off % 8)).toUInt8), true)

def sackMask (s : UtpSocket) : Nat × Bytes :=
  if s.oob.isEmpty then (EXT_NONE, [])
  else
    match s.oob.keys.foldl (markSack s.ackNr) (List.replicate 32 0, false) with
    | (mask, true) => (EXT_SACK, mask)
    | (_, false) => (EXT_NONE, [])

/-- Serialise one outgoing packet: header, selective acknowledgement, payload. -/
def buildPacket (s : UtpSocket) (ptype seq ack : Nat) (payload : Bytes) (now : Nat) : Bytes :=
  let acks := decide (ptype = ST_STATE ∨ ptype = ST_FIN)
  let base := s.hdr ptype seq ack now
  -- Acknowledgements echo the last DATA timestamp and the holding time.
  let head := if acks then
      { base with
        timestamp := s.lastDataTs
        timestampDiff := if s.lastRecvAt ≠ 0 then min (now - s.lastRecvAt) (2 ^ 32 - 1) else 0 }
    else base
  let (ext, mask) := if acks then s.sackMask else (EXT_NONE, [])
  let extension := if ext ≠ EXT_NONE then ext.toUInt8 :: mask.length.toUInt8 :: mask else []
  head.encode ++ extension ++ payload

def enqueue (s : UtpSocket) (data : Bytes) : UtpSocket := { s with sendBuf := s.sendBuf ++ data }

def consume (s : UtpSocket) (n : Nat) : UtpSocket := { s with recvBuf := s.recvBuf.drop n }

/-! ### Receiving -/

def maybeUpdateWindow (s : UtpSocket) (now : Nat) : UtpSocket :=
  if now < s.nextWindowUpdate then s
  else
    let off : Int := (TARGET_DELAY_US : Int) - s.ourDelay
    let product := (s.cwnd : Int) * off
    -- `checked_mul`: no change when the product leaves the 64-bit range.
    let delta := if -2 ^ 63 ≤ product ∧ product < 2 ^ 63 then product.tdiv (TARGET_DELAY_US * GAIN_DENOM) else 0
    { s with
      nextWindowUpdate := satAdd now (max s.rtt RTO_MIN_US)
      cwnd := (max (MIN_WINDOW : Int) (min (s.cwnd + delta) MAX_WINDOW)).toNat }

def measure (s : UtpSocket) (h : Header) (now : Nat) : UtpSocket :=
  if h.timestamp ≠ 0 ∧ h.timestamp < now then
    let sample := max (now - h.timestamp - h.timestampDiff) 1
    let rtt := wmul 7 (satAdd s.rtt sample) / 8
    let delay := now - h.timestamp
    let base := if delay < s.baseDelay then delay else s.baseDelay
    let reset := decide (s.baseDelayResetAt ≤ now)
    let base := if reset then delay else base
    { s with
      rtt := rtt
      rto := max RTO_MIN_US (min (wmul rtt 2) RTO_MAX_US)
      baseDelay := base
      baseDelayResetAt := if reset then satAdd now BASE_DELAY_RESET_US else s.baseDelayResetAt
      ourDelay := wmul 7 (satAdd s.ourDelay (delay - base)) / 8 }
  else s

def release (s : UtpSocket) (seq : Nat) : UtpSocket :=
  match s.unacked.get? seq with
  | some u => { s with unacked := s.unacked.erase seq, inFlight := s.inFlight - u.payloadLen }
  | none => s

/-- Free the packets that a cumulative acknowledgement covers, if it covers the first of the map. -/
def freeAcked (s : UtpSocket) (h : Header) (now : Nat) : UtpSocket :=
  match s.unacked.keys with
  | [] => s
  | first :: _ =>
      if seqLe first h.ackNr then
        let acked := s.unacked.keys.filter (fun seq => seqLe seq h.ackNr)
        let freed : UtpSocket := { acked.foldl release s with peerWnd := h.wndSize }
        let updated := freed.maybeUpdateWindow now
        if updated.state = .finSent ∧ updated.unacked.isEmpty then { updated with state := .closed } else updated
      else s

def onAck (s : UtpSocket) (h : Header) (now : Nat) : UtpSocket :=
  let timed := s.measure h now
  -- Handshake: an acknowledgement that covers our SYN connects.
  let joined := if timed.state = .synSent ∧ seqLe timed.synSeq h.ackNr then { timed with state := .connected } else timed
  joined.freeAcked h now

def drain : Nat → UtpSocket → UtpSocket
  | 0, s => s
  | fuel + 1, s =>
      let next := wadd16 s.ackNr 1
      match s.oob.get? next with
      | some p => drain fuel { s with oob := s.oob.erase next, ackNr := next, recvBuf := s.recvBuf ++ p }
      | none => s

def onData (s : UtpSocket) (h : Header) (payload : Bytes) : UtpSocket :=
  if s.state = .closed ∨ payload = [] then s
  -- Beyond our buffer the packet is dropped unacknowledged.
  else if RECV_WINDOW ≤ satAdd s.recvBuf.length s.oob.size then s
  else if seqLe h.seqNr s.ackNr then s
  else if h.seqNr = wadd16 s.ackNr 1 then
    let appended := { s with ackNr := h.seqNr, recvBuf := s.recvBuf ++ payload }
    { drain s.oob.size appended with ackPending := true }
  else
    let stored := if s.oob.size < 1024 then { s with oob := s.oob.insert h.seqNr payload } else s
    { stored with ackPending := true }

variable {H : Type} (host : UdpHost H)

def sendAck (s : UtpSocket) (now : Nat) (w : H) : UtpSocket × H :=
  match host.udpSend w s.addr (s.buildPacket ST_STATE s.nextSeq s.ackNr [] now) with
  | (.ok (), w) => ({ s with ackPending := false, lastActivity := now }, w)
  | (.error _, w) => (s, w)

def absorb (s : UtpSocket) (h : Header) (payload : Bytes) (now : Nat) : UtpSocket :=
  let s := { s with lastActivity := now }
  if h.ptype = ST_SYN then
    if s.state ≠ .closed then { s with state := .connected, ackPending := true } else s
  else if h.ptype = ST_STATE then s.onAck h now
  else if h.ptype = ST_DATA then
    (UtpSocket.onAck { s with lastRecvAt := now, lastDataTs := h.timestamp } h now).onData h payload
  else if h.ptype = ST_FIN then
    { UtpSocket.onAck { s with lastRecvAt := now } h now with peerFin := true, ackPending := true }
  else if h.ptype = ST_RESET then { s with state := .closed }
  else s

def onPacket (s : UtpSocket) (h : Header) (payload : Bytes) (now : Nat) (w : H) : UtpSocket × H :=
  let t := s.absorb h payload now
  if t.state = .connected ∧ t.ackPending = true ∧ h.ptype = ST_SYN then t.sendAck host now w else (t, w)

/-! ### Sending -/

def payload (s : UtpSocket) : Bytes := s.sendBuf.take (min s.sendBuf.length MAX_PAYLOAD)

def cut (s : UtpSocket) : UtpSocket :=
  { s with sendBuf := s.sendBuf.drop (min s.sendBuf.length MAX_PAYLOAD), nextSeq := wadd16 s.nextSeq 1 }

def launch (s : UtpSocket) (seq : Nat) (packet : Bytes) (payloadLen now : Nat) : UtpSocket :=
  { s with
    unacked := s.unacked.insert seq { packet, payloadLen, sentAt := now, attempts := 0 }
    inFlight := satAdd s.inFlight payloadLen
    lastActivity := now }

def requeue (s : UtpSocket) (payload : Bytes) : UtpSocket := { s with sendBuf := payload ++ s.sendBuf }

def dataPacket (s : UtpSocket) (now : Nat) : Bytes := s.cut.buildPacket ST_DATA s.nextSeq s.ackNr s.payload now

def transmitLoop : Nat → UtpSocket → Nat → H → UtpSocket × H
  | 0, s, _, w => (s, w)
  | fuel + 1, s, now, w =>
      if min s.cwnd s.peerWnd < s.inFlight + MAX_PAYLOAD then (s, w)
      else if s.payload = [] then (s, w)
      else
        match host.udpSend w s.addr (s.dataPacket now) with
        | (.ok (), w) => transmitLoop fuel (s.cut.launch s.nextSeq (s.dataPacket now) s.payload.length now) now w
        -- The payload is requeued; the sequence number is not given back.
        | (.error _, w) => (s.cut.requeue s.payload, w)

def transmit (s : UtpSocket) (now : Nat) (w : H) : UtpSocket × H :=
  if s.state ≠ .connected ∨ s.finSent = true then (s, w) else transmitLoop host s.sendBuf.length s now w

def sendSyn (s : UtpSocket) (now : Nat) (w : H) : UtpSocket × H :=
  match host.udpSend w s.addr (s.hdr ST_SYN s.synSeq 0 now).encode with
  | (.ok (), w) =>
      let sent := { s with synSentAt := now, synAttempts := s.synAttempts + 1, lastActivity := now }
      -- The SYN consumes its sequence number; the first DATA takes the next.
      (if sent.nextSeq = sent.synSeq then { sent with nextSeq := wadd16 sent.synSeq 1 } else sent, w)
  | (.error _, w) => (s, w)

def finish (s : UtpSocket) : UtpSocket := { s with finSent := true, nextSeq := wadd16 s.nextSeq 1 }

def finPacket (s : UtpSocket) (now : Nat) : Bytes := s.finish.buildPacket ST_FIN s.nextSeq s.ackNr [] now

def sendFin (s : UtpSocket) (now : Nat) (w : H) : UtpSocket × H :=
  if s.finSent then (s, w)
  else
    match host.udpSend w s.addr (s.finPacket now) with
    | (_, w) => ({ s.finish with state := .finSent, finSentAt := now, lastActivity := now }, w)

def retry (s : UtpSocket) (seq : Nat) (u : Unacked) (now : Nat) : UtpSocket :=
  { s with unacked := s.unacked.insert seq { u with attempts := u.attempts + 1, sentAt := now } }

def resend : List Nat → UtpSocket → Nat → H → UtpSocket × H
  | [], s, _, w => (s, w)
  | seq :: rest, s, now, w =>
      match s.unacked.get? seq with
      | none => resend rest s now w
      | some u =>
          if MAX_DATA_RETRIES ≤ u.attempts + 1 then ({ s.retry seq u now with state := .closed }, w)
          else
            match host.udpSend w s.addr u.packet with
            | (_, w) => resend rest (s.retry seq u now) now w

def retransmit (s : UtpSocket) (now : Nat) (w : H) : UtpSocket × H :=
  match s.state with
  | .synSent =>
      if s.rto ≤ now - s.synSentAt then
        if MAX_SYN_RETRIES ≤ s.synAttempts then ({ s with state := .closed }, w) else s.sendSyn host now w
      else (s, w)
  | .connected | .finSent =>
      let expired := (s.unacked.entries.filter (fun e => decide (s.rto ≤ now - e.2.sentAt))).map Prod.fst
      resend host expired s now w
  | .closed => (s, w)

def tickRetransmit (s : UtpSocket) (now : Nat) (w : H) : UtpSocket × H :=
  let (s, w) := s.retransmit host now w
  -- A socket that gave up is closed, which also rules the acknowledgement out.
  if s.ackPending = true ∧ s.state ≠ .closed ∧ (s.sendBuf = [] ∨ 25000 < now - s.lastActivity) then s.sendAck host now w
  else (s, w)

end UtpSocket
end Utp
end TypeBit
