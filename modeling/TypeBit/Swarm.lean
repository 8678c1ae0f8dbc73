import TypeBit.Bitfield
import TypeBit.Leech
import TypeBit.Wire.Message

/-! Per-connection peer state (`swarm.rs`). The stored copy of the extended handshake, the PEX clock
and the optimistic flag, which nothing reads, are left out, as are the sampled rates. -/

namespace TypeBit
open Leech Wire

inductive PeerPhase where
  | connecting
  | handshake
  | ready
  | closed
  deriving DecidableEq, Repr

structure Peer where
  id : ConnId
  addr : NetAddr
  phase : PeerPhase
  peerId : Option Bytes
  reserved : Bytes
  amChoking : Bool
  amInterested : Bool
  peerChoking : Bool
  peerInterested : Bool
  /-- Their piece availability. -/
  haveBits : Bitfield
  haveAll : Bool
  haveNone : Bool
  /-- Their `ut_metadata` and `ut_pex` extended ids. -/
  extMetadata : Option UInt8
  extPex : Option UInt8
  isSeed : Bool
  fast : Bool
  supportsDht : Bool
  supportsV2 : Bool
  downTotal : Nat
  upTotal : Nat
  lastActive : Nat
  lastDataIn : Nat
  lastRealAt : Nat
  connectedAt : Nat
  metadataServedPieces : Nat
  metadataTotalPieces : Nat
  metadataServed : Bool
  metadataServedAt : Nat
  snubbed : Bool
  requestsInFlight : Nat
  requestsTimedOut : Nat
  maxPipeline : Nat
  currentPiece : Option Nat
  lastRequestAt : Nat
  servedRequests : Nat
  spuriousCancels : Nat
  invalidRequests : Nat
  out : Bytes
  msgs : MessageStream
  handshakeBuf : Bytes
  source : DiscoverySource
  rep : PeerReputation
  deriving DecidableEq

namespace Peer

def new (id : ConnId) (addr : NetAddr) (pieceCount : Nat) (source : DiscoverySource) (maxPipeline : Nat) : Peer where
  id := id
  addr := addr
  phase := .connecting
  peerId := none
  reserved := List.replicate 8 0
  amChoking := true
  amInterested := false
  peerChoking := true
  peerInterested := false
  haveBits := Bitfield.new pieceCount
  haveAll := false
  haveNone := false
  extMetadata := none
  extPex := none
  isSeed := false
  fast := false
  supportsDht := false
  supportsV2 := false
  downTotal := 0
  upTotal := 0
  lastActive := 0
  lastDataIn := 0
  lastRealAt := 0
  connectedAt := 0
  metadataServedPieces := 0
  metadataTotalPieces := 0
  metadataServed := false
  metadataServedAt := 0
  snubbed := false
  requestsInFlight := 0
  requestsTimedOut := 0
  maxPipeline := max maxPipeline 1
  currentPiece := none
  lastRequestAt := 0
  servedRequests := 0
  spuriousCancels := 0
  invalidRequests := 0
  out := []
  msgs := MessageStream.new
  handshakeBuf := []
  source := source
  rep := PeerReputation.default

def shouldBeInterested (p : Peer) (ourHave : Bitfield) (priorities : List Int) : Bool :=
  if p.haveNone then false
  else if p.haveAll then
    (List.range (min ourHave.len priorities.length)).any (fun i => decide (0 < priorities.getD i 0) && !ourHave.get i)
  else
    (p.haveBits.setBits.takeWhile (fun i => decide (i < min p.haveBits.len ourHave.len))).any
      (fun i => decide (0 < priorities.getD i 1) && !ourHave.get i)

def sendRaw (p : Peer) (data : Bytes) : Peer := { p with out := p.out ++ data }

def send (p : Peer) (m : Message) : Peer := p.sendRaw m.encode

def onDataIn (p : Peer) (n now : Nat) : Peer :=
  { p with downTotal := wadd p.downTotal n, lastActive := now, lastDataIn := now, snubbed := false }

def refreshSnub (p : Peer) (now timeoutMs : Nat) : Peer :=
  { p with snubbed :=
      decide (p.phase = .ready ∧ p.peerChoking = false ∧ 0 < p.requestsInFlight ∧ timeoutMs < now - p.lastDataIn) }

def onDataOut (p : Peer) (n now : Nat) : Peer := { p with upTotal := wadd p.upTotal n, lastActive := now }

end Peer
end TypeBit
