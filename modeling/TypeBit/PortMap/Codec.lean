import TypeBit.Socks.Http

/-! What the port mapper puts on the wire and reads from it (`portmap.rs`): NAT-PMP requests and responses, SSDP discovery, the device
description, and SOAP bodies. -/

namespace TypeBit.PortMap
open Bencode Trackers Link Wire Socks

def NAT_PMP_PORT : Nat := 5351
def SSDP_ADDR : NetAddr := .ofOctets 239 255 255 250 1900
def NAT_PMP_VERSION : UInt8 := 0
def NAT_PMP_PUBLIC_ADDR : UInt8 := 0
def NAT_PMP_MAP_UDP : UInt8 := 1
def NAT_PMP_MAP_TCP : UInt8 := 2
def NAT_PMP_OK : Nat := 0
def NAT_PMP_UNSUPPORTED : Nat := 1
def MAX_SSDP_SIZE : Nat := 16 * 1024
def MAX_XML_SCAN : Nat := 256 * 1024

/-! ### NAT-PMP -/

structure NatPmpRequest where
  opcode : UInt8
  internalPort : Nat
  externalPort : Nat
  lifetimeSec : Nat

namespace NatPmpRequest

def publicAddr : NatPmpRequest := ⟨NAT_PMP_PUBLIC_ADDR, 0, 0, 0⟩

def map (opcode : UInt8) (internalPort externalPort lifetimeSec : Nat) : NatPmpRequest :=
  ⟨opcode, internalPort, externalPort, lifetimeSec⟩

def encode (r : NatPmpRequest) : Bytes :=
  [NAT_PMP_VERSION, r.opcode, 0, 0] ++ toBe16 r.internalPort ++ toBe16 r.externalPort ++ toBe32 r.lifetimeSec

end NatPmpRequest

structure NatPmpResponse where
  opcode : UInt8
  result : Nat
  epochSec : Nat
  publicIp : Option Bytes
  internalPort : Option Nat
  externalPort : Option Nat
  lifetimeSec : Option Nat

def NatPmpResponse.parse (data : Bytes) : Result NatPmpResponse :=
  if data.length < 8 ∨ data.getD 0 0 ≠ NAT_PMP_VERSION then .error .protocol
  else
    let opcode := data.getD 1 0
    let result := be16 (data.drop 2)
    let epoch := be32 (data.drop 4)
    if opcode = NAT_PMP_PUBLIC_ADDR then
      if data.length ≠ 12 then .error .protocol
      else .ok ⟨opcode, result, epoch, some (data.drop 8), none, none, none⟩
    else if opcode = NAT_PMP_MAP_UDP ∨ opcode = NAT_PMP_MAP_TCP then
      if data.length ≠ 16 then .error .protocol
      else .ok ⟨opcode, result, epoch, none, some (be16 (data.drop 8)), some (be16 (data.drop 10)), some (be32 (data.drop 12))⟩
    else .error .protocol

/-! ### Text -/

def whiteSpaces : List Bytes :=
  [[0x09], [0x0A], [0x0B], [0x0C], [0x0D], [0x20], [0xC2, 0x85], [0xC2, 0xA0], [0xE1, 0x9A, 0x80], [0xE2, 0x80, 0x80],
    [0xE2, 0x80, 0x81], [0xE2, 0x80, 0x82], [0xE2, 0x80, 0x83], [0xE2, 0x80, 0x84], [0xE2, 0x80, 0x85], [0xE2, 0x80, 0x86],
    [0xE2, 0x80, 0x87], [0xE2, 0x80, 0x88], [0xE2, 0x80, 0x89], [0xE2, 0x80, 0x8A], [0xE2, 0x80, 0xA8], [0xE2, 0x80, 0xA9],
    [0xE2, 0x80, 0xAF], [0xE2, 0x81, 0x9F], [0xE3, 0x80, 0x80]]

def dropParts (parts : List Bytes) : Nat → Bytes → Bytes
  | 0, s => s
  | n + 1, s =>
      match parts.findSome? fun p => stripPrefix p s with
      | some rest => dropParts parts n rest
      | none => s

def trim (s : Bytes) : Bytes :=
  let front := dropParts whiteSpaces s.length s
  (dropParts (whiteSpaces.map List.reverse) front.length front.reverse).reverse

def splitCrlf : Bytes → List Bytes
  | [] => [[]]
  | [c] => [[c]]
  | c :: d :: tail =>
      if c = ch '\r' ∧ d = ch '\n' then [] :: splitCrlf tail
      else match splitCrlf (d :: tail) with
        | line :: others => (c :: line) :: others
        | [] => [[c]]

def writeU16Hex (v : Nat) : Bytes :=
  [v / 2 ^ 12 % 16, v / 2 ^ 8 % 16, v / 2 ^ 4 % 16, v % 16].map fun d => ch d.digitChar

def toAllocString : NetAddr → Bytes
  | .v4 ip port => joined (ch '.') (ip.val.map fun o => decimal o.toNat) ++ ch ':' :: decimal port
  | .v6 ip port =>
      ch '[' :: joined (ch ':') ((List.range 8).map fun i => writeU16Hex (be16 (ip.val.drop (2 * i)))) ++ ch ']' :: ch ':' ::
        decimal port

/-! ### UPnP -/

def buildMSearch : Bytes :=
  ascii "M-SEARCH * HTTP/1.1\r\n" ++ ascii "HOST: 239.255.255.250:1900\r\n" ++ ascii "MAN: \"ssdp:discover\"\r\n" ++
    ascii "MX: 2\r\n" ++ ascii "ST: urn:schemas-upnp-org:device:InternetGatewayDevice:1\r\n" ++ crlf

def headerValue (text name : Bytes) : Option Bytes :=
  (splitCrlf text).findSome? fun line =>
    match splitOnce (ch ':') line with
    | none => none
    | some (k, v) => if (trim k).map lower = name.map lower then some (trim v) else none

def parseSsdpResponse (data : Bytes) : Option Bytes :=
  if MAX_SSDP_SIZE < data.length then none
  else if !utf8Valid data.length data then none
  else if !(ascii "HTTP/").isPrefixOf data then none
  else headerValue data (ascii "location")

def joinUrl (base rel : Bytes) : Bytes :=
  if (ascii "http://").isPrefixOf rel ∨ (ascii "https://").isPrefixOf rel then rel
  else match rsplitOnce (ch '/') base with
    | some (front, _) => if (ascii "/").isPrefixOf rel then front ++ rel else front ++ ch '/' :: rel
    | none => rel

def controlUrlAfter (s : Bytes) : Option Bytes := do
  let start ← findSubslice (ascii "<controlURL>") s
  let rest := s.drop (start + (ascii "<controlURL>").length)
  let stop ← findSubslice (ascii "</controlURL>") rest
  let url := trim (rest.take stop)
  if url = [] then none else some url

def findWanControlUrl (xml : Bytes) : Option Bytes :=
  let s := xml.take (min xml.length MAX_XML_SCAN)
  if !utf8Valid s.length s then none
  else [ascii "urn:schemas-upnp-org:service:WANIPConnection:1", ascii "urn:schemas-upnp-org:service:WANPPPConnection:1"].findSome?
    fun st => (findSubslice st s).bind fun idx => controlUrlAfter (s.drop idx)

inductive SoapAction where
  | add
  | delete
  deriving DecidableEq

def envelope : Bytes :=
  ascii "<?xml version=\"1.0\"?>\r\n" ++
    ascii "<s:Envelope xmlns:s=\"http://schemas.xmlsoap.org/soap/envelope/\" " ++
    ascii "s:encodingStyle=\"http://schemas.xmlsoap.org/soap/encoding/\">"

def buildSoapAddMapping (protocol : Bytes) (internalPort externalPort leaseSec : Nat) (description internalClient : Bytes) : Bytes :=
  envelope ++ ascii "<s:Body><u:AddPortMapping xmlns:u=\"urn:schemas-upnp-org:service:WANIPConnection:1\">" ++
    ascii "<NewRemoteHost></NewRemoteHost>" ++
    ascii "<NewExternalPort>" ++ decimal externalPort ++ ascii "</NewExternalPort>" ++
    ascii "<NewProtocol>" ++ protocol ++ ascii "</NewProtocol>" ++
    ascii "<NewInternalPort>" ++ decimal internalPort ++ ascii "</NewInternalPort>" ++
    ascii "<NewInternalClient>" ++ internalClient ++ ascii "</NewInternalClient>" ++
    ascii "<NewEnabled>1</NewEnabled>" ++
    ascii "<NewPortMappingDescription>" ++ description ++ ascii "</NewPortMappingDescription>" ++
    ascii "<NewLeaseDuration>" ++ decimal leaseSec ++ ascii "</NewLeaseDuration>" ++
    ascii "</u:AddPortMapping></s:Body></s:Envelope>\r\n"

def buildSoapDeleteMapping (protocol : Bytes) (externalPort : Nat) : Bytes :=
  envelope ++ ascii "<s:Body><u:DeletePortMapping xmlns:u=\"urn:schemas-upnp-org:service:WANIPConnection:1\">" ++
    ascii "<NewRemoteHost></NewRemoteHost>" ++
    ascii "<NewExternalPort>" ++ decimal externalPort ++ ascii "</NewExternalPort>" ++
    ascii "<NewProtocol>" ++ protocol ++ ascii "</NewProtocol>" ++
    ascii "</u:DeletePortMapping></s:Body></s:Envelope>\r\n"

def soapSucceeded (response : Bytes) (action : SoapAction) : Bool :=
  let holds := fun needle : Bytes => (findSubslice needle response).isSome
  if !utf8Valid response.length response then false
  else if holds (ascii "<s:Fault") || holds (ascii "<soap:Fault") then false
  else match action with
    | .add => holds (ascii "<u:AddPortMappingResponse")
    | .delete => holds (ascii "<u:DeletePortMappingResponse")

end TypeBit.PortMap
