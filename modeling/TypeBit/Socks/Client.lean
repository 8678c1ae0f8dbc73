import TypeBit.Platform

/-! The SOCKS5 client of `socks.rs`: a phase, the frame being sent with a cursor into it, and the bytes of the reply
received so far. One call of `pump` makes passes over the socket until a pass moves nothing. -/

namespace TypeBit.Socks

def SOCKS5 : UInt8 := 0x05
def CMD_CONNECT : UInt8 := 0x01
def ATYP_IPV4 : UInt8 := 0x01
def ATYP_DOMAIN : UInt8 := 0x03
def ATYP_IPV6 : UInt8 := 0x04
def METHOD_NOAUTH : UInt8 := 0x00
def METHOD_USERPASS : UInt8 := 0x02
def AUTH_VER : UInt8 := 0x01
def MAX_SOCKS_FRAME : Nat := 1024
def MAX_SOCKS_READ_PER_PUMP : Nat := 8 * 1024

inductive SocksTarget where
  | ip (addr : NetAddr)
  | domain (host : Bytes) (port : Nat)

structure ProxyConfig where
  username : Option Bytes
  password : Option Bytes
  handshakeTimeoutMs : Nat

inductive SocksStatus where
  | inProgress
  | done
  deriving DecidableEq, Repr

inductive SocksPhase where
  | sendGreeting
  | recvMethod
  | sendAuth
  | recvAuth
  | sendConnect
  | recvReply
  | done
  deriving DecidableEq, Repr

structure Socks5Client where
  target : SocksTarget
  cfg : ProxyConfig
  phase : SocksPhase
  out : Bytes
  outOff : Nat
  rx : Bytes
  deadline : Nat

/-! ### Frames -/

def greeting (cfg : ProxyConfig) : Bytes :=
  let methods := METHOD_NOAUTH :: if cfg.username.isSome then [METHOD_USERPASS] else []
  [SOCKS5, methods.length.toUInt8] ++ methods

def authFrame (cfg : ProxyConfig) : Bytes :=
  let user := (cfg.username.getD []).take 255
  let pass := (cfg.password.getD []).take 255
  [AUTH_VER, user.length.toUInt8] ++ user ++ [pass.length.toUInt8] ++ pass

def portBytes (port : Nat) : Bytes := [(port / 2 ^ 8).toUInt8, port.toUInt8]

def connectFrame : SocksTarget → Bytes
  | .ip (.v4 ip port) => [SOCKS5, CMD_CONNECT, 0, ATYP_IPV4] ++ ip.val ++ portBytes port
  | .ip (.v6 ip port) => [SOCKS5, CMD_CONNECT, 0, ATYP_IPV6] ++ ip.val ++ portBytes port
  | .domain host port =>
      let host := host.take 255
      [SOCKS5, CMD_CONNECT, 0, ATYP_DOMAIN, host.length.toUInt8] ++ host ++ portBytes port

def replyExtra (atyp : UInt8) (addr : Bytes) : Result (Option Nat) :=
  if atyp = ATYP_IPV4 then .ok (some 6)
  else if atyp = ATYP_IPV6 then .ok (some 18)
  else if atyp = ATYP_DOMAIN then .ok (addr.head?.map fun n => 1 + n.toNat + 2)
  else .error .protocol

namespace Socks5Client

def new (target : SocksTarget) (cfg : ProxyConfig) (now : Nat) : Socks5Client where
  target := target
  cfg := cfg
  phase := .sendGreeting
  out := greeting cfg
  outOff := 0
  rx := []
  deadline := satAdd now cfg.handshakeTimeoutMs

def done (c : Socks5Client) : Bool := c.phase = .done

def timedOut (c : Socks5Client) (now : Nat) : Bool := c.deadline < now

def afterSend (c : Socks5Client) : Socks5Client :=
  { c with
    phase := match c.phase with
      | .sendGreeting => .recvMethod
      | .sendAuth => .recvAuth
      | .sendConnect => .recvReply
      | phase => phase
    out := []
    outOff := 0 }

def buildAuth (c : Socks5Client) : Socks5Client := { c with out := authFrame c.cfg, outOff := 0, phase := .sendAuth }

def buildConnect (c : Socks5Client) : Socks5Client := { c with out := connectFrame c.target, outOff := 0, phase := .sendConnect }

def consumeFrame (c : Socks5Client) : Result (Bool × Socks5Client) :=
  match c.phase with
  | .recvMethod =>
      match c.rx with
      | version :: method :: rest =>
          if version ≠ SOCKS5 then .error .protocol
          else if method = METHOD_NOAUTH then .ok (false, { c.buildConnect with rx := rest })
          else if method = METHOD_USERPASS ∧ c.cfg.username.isSome then .ok (false, { c.buildAuth with rx := rest })
          else .error .handshake
      | _ => .ok (false, c)
  | .recvAuth =>
      match c.rx with
      | version :: status :: rest =>
          if version ≠ AUTH_VER ∨ status ≠ 0 then .error .handshake
          else .ok (false, { c.buildConnect with rx := rest })
      | _ => .ok (false, c)
  | .recvReply =>
      match c.rx with
      | version :: code :: _ :: atyp :: addr =>
          if version ≠ SOCKS5 then .error .protocol
          else if code ≠ 0 then .error .handshake
          else match replyExtra atyp addr with
            | .error e => .error e
            | .ok none => .ok (false, c)
            | .ok (some extra) =>
                if addr.length < extra then .ok (false, c)
                else .ok (true, { c with rx := addr.drop extra, phase := .done })
      | _ => .ok (false, c)
  | _ => .ok (false, c)

def flushed (c : Socks5Client) : Result (Bool × Socks5Client) :=
  if c.out ≠ [] ∧ c.out.length ≤ c.outOff then c.afterSend.consumeFrame else .ok (false, c)

end Socks5Client

/-- The connection to the proxy: sends take a prefix, receives are at most as long as asked. -/
structure Socket (H : Type) where
  tcpSend : Bytes → H → Result Nat × H
  tcpRecv : Nat → H → Result Bytes × H

inductive Progress where
  | idle
  | moved
  | done
  deriving DecidableEq, Repr

section Pump
variable {H : Type} (socket : Socket H)

/-- Offer the rest of the frame until the socket takes no more; the first argument bounds the bytes left. -/
def sendLoop : Nat → Bool → Socks5Client → H → Result Bool × Socks5Client × H
  | 0, sentAny, c, h => (.ok sentAny, c, h)
  | n + 1, sentAny, c, h =>
      if c.outOff < c.out.length then
        match socket.tcpSend (c.out.drop c.outOff) h with
        | (.ok 0, h) => (.ok sentAny, c, h)
        | (.error .wouldBlock, h) => (.ok sentAny, c, h)
        | (.ok k, h) => sendLoop n true { c with outOff := c.outOff + k } h
        | (.error e, h) => (.error e, c, h)
      else (.ok sentAny, c, h)

/-- Receive within the budget, taking off a reply after every read; the first argument bounds the reads. -/
def recvLoop : Nat → Nat → Progress → Socks5Client → H → Result Progress × Socks5Client × H
  | 0, _, progress, c, h => (.ok progress, c, h)
  | n + 1, budget, progress, c, h =>
      if 0 < budget then
        match socket.tcpRecv (min 512 budget) h with
        | (.ok [], h) => (.ok progress, c, h)
        | (.ok b, h) =>
            if MAX_SOCKS_FRAME < c.rx.length + b.length then (.error .protocol, c, h)
            else match { c with rx := c.rx ++ b }.consumeFrame with
              | .error e => (.error e, c, h)
              | .ok (true, c) => (.ok .done, c, h)
              | .ok (false, c) => recvLoop n (budget - b.length) .moved c h
        | (.error .wouldBlock, h) => (.ok progress, c, h)
        | (.error e, h) => (.error e, c, h)
      else (.ok progress, c, h)

def pass (c : Socks5Client) (h : H) : Result Progress × Socks5Client × H :=
  match sendLoop socket (c.out.length - c.outOff) false c h with
  | (.error e, c, h) => (.error e, c, h)
  | (.ok sentAny, sent, h) =>
      match sent.flushed with
      | .error e => (.error e, sent, h)
      | .ok (true, c) => (.ok .done, c, h)
      | .ok (false, told) =>
          match recvLoop socket MAX_SOCKS_READ_PER_PUMP MAX_SOCKS_READ_PER_PUMP .idle told h with
          | (.ok .idle, last, h) => (.ok (if sentAny = false ∧ last.phase = c.phase then .idle else .moved), last, h)
          | stopped => stopped

def pumpLoop (now : Nat) : Nat → Socks5Client → H → Option (Result SocksStatus × Socks5Client × H)
  | 0, _, _ => none
  | n + 1, c, h =>
      if c.timedOut now then some (.error .timeout, c, h)
      else match pass socket c h with
        | (.error e, c, h) => some (.error e, c, h)
        | (.ok .done, c, h) => some (.ok .done, c, h)
        | (.ok .idle, c, h) => some (.ok .inProgress, c, h)
        | (.ok .moved, c, h) => if c.done then some (.ok .done, c, h) else pumpLoop now n c h

def pump (fuel now : Nat) (c : Socks5Client) (h : H) : Option (Result SocksStatus × Socks5Client × H) :=
  if c.done then some (.ok .done, c, h)
  else if c.timedOut now then some (.error .timeout, c, h)
  else pumpLoop socket now fuel c h

def pumps (fuel : Nat) (clock : Nat → Nat) : Nat → Socks5Client → H → Option (Result SocksStatus × Socks5Client × H)
  | 0, c, h => some (.ok .inProgress, c, h)
  | n + 1, c, h =>
      match pumps fuel clock n c h with
      | some (.ok _, c, h) => pump socket fuel (clock n) c h
      | stopped => stopped

end Pump
end TypeBit.Socks
