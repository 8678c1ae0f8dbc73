import TypeBit.PortMap.Codec

/-! The port mapper (`portmap.rs`): its state, what it asks of its host in one tick, and what a datagram changes. -/

namespace TypeBit.PortMap

inductive PortMapPhase where
  | idle
  | natPmpProbe
  | natPmpMapping
  | upnpDiscover
  | upnpFetching
  | upnpMapping
  | mapped
  | unmapping
  | done
  | failed
  deriving DecidableEq

inductive MapProtocol where
  | udp
  | tcp
  deriving DecidableEq

namespace MapProtocol

def natPmpOpcode : MapProtocol → UInt8
  | udp => NAT_PMP_MAP_UDP
  | tcp => NAT_PMP_MAP_TCP

def upnpName : MapProtocol → Bytes
  | udp => ascii "UDP"
  | tcp => ascii "TCP"

end MapProtocol

structure PortMapConfig where
  enabled : Bool := false
  udpPort : Nat := 0
  tcpPort : Nat := 0
  leaseSec : Nat := 3600
  stepTimeoutMs : Nat := 3000
  retryIntervalMs : Nat := 300000
  description : Bytes := ascii "TypeBit"

def refreshInterval (leaseSec : Nat) : Nat := min (max (leaseSec / 2) 60) 3600 * 1000

structure PortMapManager where
  cfg : PortMapConfig
  phase : PortMapPhase
  protocol : Option MapProtocol
  gateway : Option NetAddr
  sentAt : Option Nat
  externalPort : Option Nat
  location : Option Bytes
  controlUrl : Option Bytes
  usingUpnp : Bool
  mappedUdp : Bool
  mappedTcp : Bool
  manualUnmap : Bool
  next : Nat
  error : Option String

/-- What the host answers during one call of the mapper. -/
structure Host where
  defaultGateway : Option NetAddr
  localIp : Option NetAddr
  udpSend : NetAddr → Bytes → Result Unit
  udpMulticastSend : NetAddr → Bytes → Result Unit
  httpGet : Bytes → Nat → Result Bytes
  httpPost : Bytes → Bytes → Nat → Result Bytes

/-- What the mapper sends. -/
inductive Call where
  | send (target : NetAddr) (data : Bytes)
  | multicast (target : NetAddr) (data : Bytes)
  | get (url : Bytes)
  | post (url body : Bytes)
  deriving DecidableEq

def withPort (a : NetAddr) (port : Nat) : NetAddr :=
  match a with
  | .v4 ip _ => .v4 ip port
  | .v6 ip _ => .v6 ip port

def portOf : NetAddr → Nat
  | .v4 _ port => port
  | .v6 _ port => port

namespace PortMapManager

def new (cfg : PortMapConfig) : PortMapManager where
  cfg := cfg
  phase := .idle
  protocol := none
  gateway := none
  sentAt := none
  externalPort := none
  location := none
  controlUrl := none
  usingUpnp := false
  mappedUdp := false
  mappedTcp := false
  manualUnmap := false
  next := 0
  error := none

def start (m : PortMapManager) (now : Nat) : PortMapManager :=
  if m.phase ≠ .idle ∧ m.phase ≠ .done then m
  else
    { m with
      protocol := some .udp
      mappedUdp := false
      mappedTcp := false
      manualUnmap := false
      externalPort := none
      location := none
      controlUrl := none
      error := none
      sentAt := none
      next := now
      phase := .natPmpProbe }

def unmap (m : PortMapManager) (now : Nat) : PortMapManager :=
  if m.phase = .mapped then
    { m with phase := .unmapping, protocol := some .udp, manualUnmap := true, sentAt := none, next := now }
  else m

def gatewayOf (m : PortMapManager) (host : Host) : Option NetAddr × PortMapManager :=
  match m.gateway with
  | some gw => (some gw, m)
  | none => (host.defaultGateway, { m with gateway := host.defaultGateway })

def portFor (m : PortMapManager) : MapProtocol → Nat
  | .udp => m.cfg.udpPort
  | .tcp => m.cfg.tcpPort

def enterUpnpDiscover (m : PortMapManager) (now : Nat) (why : String) : PortMapManager :=
  { m with error := some why, phase := .upnpDiscover, sentAt := none, next := now }

def fail (m : PortMapManager) (why : String) : PortMapManager :=
  { m with error := some why, phase := .failed, sentAt := none, next := 0 }

def onMappingSuccess (m : PortMapManager) (now external : Nat) : PortMapManager :=
  let m := { m with
    error := none
    externalPort := some external
    mappedUdp := m.mappedUdp || m.protocol == some MapProtocol.udp
    mappedTcp := m.mappedTcp || m.protocol == some MapProtocol.tcp }
  if m.mappedUdp && m.mappedTcp then
    { m with phase := .mapped, sentAt := none, next := now + refreshInterval m.cfg.leaseSec }
  else
    { m with
      protocol := some .tcp
      sentAt := none
      next := now
      phase := if m.usingUpnp then .upnpMapping else .natPmpMapping }

/-! ### Steps of a tick -/

def request (m : PortMapManager) (host : Host) (now : Nat) (gw : NetAddr) (req : NatPmpRequest) (why : String) :
    PortMapManager × List Call :=
  let target := withPort gw NAT_PMP_PORT
  match host.udpSend target req.encode with
  | .ok () => ({ m with sentAt := some now, next := now + m.cfg.stepTimeoutMs }, [.send target req.encode])
  | .error _ => (m.enterUpnpDiscover now why, [.send target req.encode])

def stepProbe (m : PortMapManager) (host : Host) (now : Nat) : PortMapManager × List Call :=
  if m.sentAt = none then
    match m.gatewayOf host with
    | (some gw, m) => m.request host now gw .publicAddr "nat-pmp send failed"
    | (none, m) => (m.enterUpnpDiscover now "no default gateway", [])
  else (m.enterUpnpDiscover now "nat-pmp probe timeout", [])

def stepMapping (m : PortMapManager) (host : Host) (now : Nat) : PortMapManager × List Call :=
  if m.sentAt = none then
    match m.gatewayOf host, m.protocol with
    | (some gw, m), some proto =>
        m.request host now gw (.map proto.natPmpOpcode (m.portFor proto) (m.portFor proto) m.cfg.leaseSec)
          "nat-pmp map send failed"
    | (_, m), _ => (m.enterUpnpDiscover now "no gateway for mapping", [])
  else (m.enterUpnpDiscover now "nat-pmp mapping timeout", [])

def stepDiscover (m : PortMapManager) (host : Host) (now : Nat) : PortMapManager × List Call :=
  if m.sentAt = none then
    match host.udpMulticastSend SSDP_ADDR buildMSearch with
    | .ok () => ({ m with sentAt := some now, next := now + m.cfg.stepTimeoutMs }, [.multicast SSDP_ADDR buildMSearch])
    | .error _ => (m.fail "upnp multicast send failed", [.multicast SSDP_ADDR buildMSearch])
  else (m.fail "upnp discovery timeout", [])

def stepUpnpFetch (m : PortMapManager) (host : Host) (now : Nat) : PortMapManager × List Call :=
  match m.location with
  | none => (m.fail "upnp: missing location", [])
  | some loc =>
      match host.httpGet loc m.cfg.stepTimeoutMs with
      | .error _ => (m.fail "upnp: device description fetch failed", [.get loc])
      | .ok xml =>
          match findWanControlUrl xml with
          | some rel => ({ m with controlUrl := some (joinUrl loc rel), phase := .upnpMapping, next := now }, [.get loc])
          | none => (m.fail "upnp: no WAN IP connection service", [.get loc])

def stepUpnpMap (m : PortMapManager) (host : Host) (now : Nat) : PortMapManager × List Call :=
  match host.localIp, m.controlUrl, m.protocol with
  | none, _, _ => (m.fail "upnp: host cannot report LAN IP", [])
  | some addr, some url, some proto =>
      let port := m.portFor proto
      let body := buildSoapAddMapping proto.upnpName port port m.cfg.leaseSec m.cfg.description (toAllocString addr)
      match host.httpPost url body m.cfg.stepTimeoutMs with
      | .ok resp =>
          if soapSucceeded resp .add then ({ m with usingUpnp := true }.onMappingSuccess now port, [.post url body])
          else (m.fail "upnp: AddPortMapping rejected", [.post url body])
      | .error .notSupported => (m.fail "upnp: host lacks http_post", [.post url body])
      | .error _ => (m.fail "upnp: AddPortMapping request failed", [.post url body])
  | some _, _, _ => (m.fail "upnp: missing control URL", [])

def sendDelete (m : PortMapManager) (host : Host) : PortMapManager × List Call :=
  let proto := m.protocol.getD .udp
  let port := m.portFor proto
  if m.usingUpnp then
    match m.controlUrl with
    | some url => (m, [.post url (buildSoapDeleteMapping proto.upnpName port)])
    | none => (m, [])
  else
    match m.gatewayOf host with
    | (some gw, m) => (m, [.send (withPort gw NAT_PMP_PORT) (NatPmpRequest.map proto.natPmpOpcode port port 0).encode])
    | (none, m) => (m, [])

def stepUnmapping (m : PortMapManager) (host : Host) (now : Nat) : PortMapManager × List Call :=
  let (m', calls) := m.sendDelete host
  if m.protocol.getD .udp = .udp then ({ m' with protocol := some .tcp, sentAt := none, next := now }, calls)
  else ({ m' with phase := .done, next := now }, calls)

/-- The lease is about to end: map both again by the transport that succeeded last. -/
def refresh (m : PortMapManager) (now : Nat) : PortMapManager :=
  { m with
    sentAt := none
    next := now
    mappedUdp := false
    mappedTcp := false
    protocol := some .udp
    phase := if m.usingUpnp then .upnpMapping else .natPmpMapping }

def retry (m : PortMapManager) (now : Nat) : PortMapManager :=
  if m.manualUnmap then m else { m with phase := .natPmpProbe, sentAt := none, next := now + m.cfg.retryIntervalMs }

def stepPhase (m : PortMapManager) (host : Host) (now : Nat) : PortMapManager × List Call :=
  match m.phase with
  | .idle => (m, [])
  | .natPmpProbe => m.stepProbe host now
  | .natPmpMapping => m.stepMapping host now
  | .upnpDiscover => m.stepDiscover host now
  | .upnpFetching => m.stepUpnpFetch host now
  | .upnpMapping => m.stepUpnpMap host now
  | .mapped => (m.refresh now, [])
  | .unmapping => m.stepUnmapping host now
  | .done => (m.retry now, [])
  | .failed => (m.retry now, [])

def tick (m : PortMapManager) (host : Host) (now : Nat) : PortMapManager × List Call :=
  if !m.cfg.enabled then (m, [])
  else if now < m.next then (m, [])
  else m.stepPhase host now

/-! ### Datagrams -/

def onNatPmpReply (m : PortMapManager) (data : Bytes) (now : Nat) : Bool × PortMapManager :=
  match NatPmpResponse.parse data with
  | .error _ => (false, m)
  | .ok resp =>
      if resp.opcode = NAT_PMP_PUBLIC_ADDR then
        if m.phase ≠ .natPmpProbe then (false, m)
        else if resp.result = NAT_PMP_OK then (true, { m with phase := .natPmpMapping, sentAt := none, next := now })
        else (true, m.enterUpnpDiscover now "nat-pmp unsupported")
      else if resp.opcode = NAT_PMP_MAP_UDP ∨ resp.opcode = NAT_PMP_MAP_TCP then
        if m.phase ≠ .natPmpMapping ∨ resp.opcode ≠ (m.protocol.map MapProtocol.natPmpOpcode).getD 0xFF then (false, m)
        else if resp.result = NAT_PMP_OK then
          let external := resp.externalPort.getD (m.portFor (m.protocol.getD .udp))
          (true, { m with usingUpnp := false }.onMappingSuccess now external)
        else if resp.result = NAT_PMP_UNSUPPORTED then (true, m.enterUpnpDiscover now "nat-pmp mapping unsupported")
        else (true, m.fail "nat-pmp mapping rejected")
      else (false, m)

def onSsdp (m : PortMapManager) (location : Bytes) (now : Nat) : Bool × PortMapManager :=
  if m.phase ≠ .upnpDiscover then (false, m)
  else (true, { m with location := some location, phase := .upnpFetching, sentAt := none, next := now })

def isNatPmp (addr : NetAddr) (data : Bytes) : Bool :=
  8 ≤ data.length && data.getD 0 0 == NAT_PMP_VERSION && portOf addr == NAT_PMP_PORT

def handleDatagram (m : PortMapManager) (addr : NetAddr) (data : Bytes) (now : Nat) : Bool × PortMapManager :=
  if isNatPmp addr data then m.onNatPmpReply data now
  else if 5 ≤ data.length ∧ (ascii "HTTP/").isPrefixOf data then
    match parseSsdpResponse data with
    | some location => m.onSsdp location now
    | none => (false, m)
  else (false, m)

end PortMapManager

end TypeBit.PortMap
