import TypeBit.PortMap.Manager

/-! Runs of the port mapper: what one event can change, and with it when each mapping was granted, by which transport, how long it
lasts, and which request is on its way. -/

namespace TypeBit.PortMap

inductive Event where
  | tick (host : Host)
  | datagram (addr : NetAddr) (data : Bytes)
  | start
  | unmap

/-- A mapping the gateway granted: its transport, when it ends, if it does, and the control URL and the gateway that the mapper had. -/
structure Grant where
  upnp : Bool
  ends : Option Nat
  url : Option Bytes
  gateway : Option NetAddr

/-- What is known stays known. -/
def Keeps {α : Type} (before after : Option α) : Prop := ∀ a, before = some a → after = some a

namespace PortMapManager

def apply (m : PortMapManager) (now : Nat) : Event → PortMapManager × List Call
  | .tick host => m.tick host now
  | .datagram addr data => ((m.handleDatagram addr data now).2, [])
  | .start => (m.start now, [])
  | .unmap => (m.unmap now, [])

def upnpAgrees (m : PortMapManager) (host : Host) : Bool :=
  match host.localIp, m.controlUrl, m.protocol with
  | some addr, some url, some proto =>
      let port := m.portFor proto
      let body := buildSoapAddMapping proto.upnpName port port m.cfg.leaseSec m.cfg.description (toAllocString addr)
      match host.httpPost url body m.cfg.stepTimeoutMs with
      | .ok resp => soapSucceeded resp .add
      | .error _ => false
  | _, _, _ => false

def granting (m : PortMapManager) (addr : NetAddr) (data : Bytes) : Option NatPmpResponse :=
  if isNatPmp addr data ∧ m.phase = .natPmpMapping then
    match NatPmpResponse.parse data with
    | .ok resp =>
        if m.protocol.map MapProtocol.natPmpOpcode = some resp.opcode ∧ resp.result = NAT_PMP_OK then some resp else none
    | .error _ => none
  else none

/-- What an event grants for the current protocol: a NAT-PMP reply tells its lifetime, a UPnP device keeps to the lease it was asked for
(a lease of zero does not end). -/
def grantOf (m : PortMapManager) (now : Nat) : Event → Option Grant
  | .tick host =>
      if m.cfg.enabled ∧ m.next ≤ now ∧ m.phase = .upnpMapping ∧ m.upnpAgrees host then
        some ⟨true, if m.cfg.leaseSec = 0 then none else some (now + m.cfg.leaseSec * 1000), m.controlUrl, m.gateway⟩
      else none
  | .datagram addr data =>
      (m.granting addr data).map fun resp => ⟨false, some (now + resp.lifetimeSec.getD 0 * 1000), m.controlUrl, m.gateway⟩
  | .start => none
  | .unmap => none

end PortMapManager

/-! ### One event -/

/-- A request that the phase sends. -/
def PortMapManager.Asked (m : PortMapManager) (req : NatPmpRequest) : Prop :=
  (m.phase = .natPmpProbe ∧ req = .publicAddr) ∨
    (m.phase = .natPmpMapping ∧ ∃ p, m.protocol = some p ∧ req = .map p.natPmpOpcode (m.portFor p) (m.portFor p) m.cfg.leaseSec)

inductive Moved (m : PortMapManager) (now : Nat) (e : Event) : PortMapManager → Prop where
  | kept : (m.apply now e).2 = [] → Moved m now e m
  | asked (gw : NetAddr) (req : NatPmpRequest) (host : Host) : m.Asked req → Keeps m.gateway (some gw) →
      (m.apply now e).2 = [.send (withPort gw NAT_PMP_PORT) req.encode] →
      Moved m now e { m with gateway := some gw, sentAt := some now, next := now + m.cfg.stepTimeoutMs }
  | fallback (gw : Option NetAddr) (why : String) : Keeps m.gateway gw →
      m.phase = .natPmpProbe ∨ m.phase = .natPmpMapping → Moved m now e ({ m with gateway := gw }.enterUpnpDiscover now why)
  | searching : m.phase = .upnpDiscover → Moved m now e { m with sentAt := some now, next := now + m.cfg.stepTimeoutMs }
  | failed (why : String) :
      m.phase = .natPmpMapping ∨ m.phase = .upnpDiscover ∨ m.phase = .upnpFetching ∨ m.phase = .upnpMapping → Moved m now e (m.fail why)
  | described (url : Bytes) :
      m.phase = .upnpFetching → Moved m now e { m with controlUrl := some url, phase := .upnpMapping, next := now }
  | granted (p : MapProtocol) (g : Grant) (external : Nat) :
      m.protocol = some p → m.phase = .natPmpMapping ∨ m.phase = .upnpMapping → (g.upnp = true → m.controlUrl.isSome) →
      m.grantOf now e = some g → Moved m now e ({ m with usingUpnp := g.upnp }.onMappingSuccess now external)
  | refreshed (host : Host) : e = .tick host → m.phase = .mapped → m.next ≤ now → Moved m now e (m.refresh now)
  | deleted (host : Host) : e = .tick host → m.phase = .unmapping → Moved m now e (m.stepUnmapping host now).1
  | retried : m.phase = .done ∨ m.phase = .failed → m.manualUnmap = false →
      Moved m now e { m with phase := .natPmpProbe, sentAt := none, next := now + m.cfg.retryIntervalMs }
  | answered : m.phase = .natPmpProbe → Moved m now e { m with phase := .natPmpMapping, sentAt := none, next := now }
  | located (location : Bytes) : m.phase = .upnpDiscover →
      Moved m now e { m with location := some location, phase := .upnpFetching, sentAt := none, next := now }
  | started : m.phase = .idle ∨ m.phase = .done → Moved m now e (m.start now)
  | unmapped : e = .unmap → m.phase = .mapped → Moved m now e (m.unmap now)

namespace PortMapManager
variable {m : PortMapManager} {now : Nat} {host : Host}

theorem tick_idle (host : Host) (idle : m.cfg.enabled = false ∨ now < m.next) : m.tick host now = (m, []) := by
  unfold tick
  rcases idle with off | soon
  · rw [off]
    rfl
  · cases m.cfg.enabled
    · rfl
    · exact if_pos soon

theorem tick_due (host : Host) (on : m.cfg.enabled = true) (due : m.next ≤ now) : m.tick host now = m.stepPhase host now := by
  unfold tick
  rw [on, if_neg (by decide), if_neg (not_lt.mpr due)]

theorem gatewayOf_eq (m : PortMapManager) (host : Host) :
    m.gatewayOf host = (m.gateway.or host.defaultGateway, { m with gateway := m.gateway.or host.defaultGateway }) := by
  unfold gatewayOf
  cases known : m.gateway with
  | some gw =>
    change (some gw, m) = (some gw, { m with gateway := some gw })
    rw [← known]
  | none => rfl

theorem keeps_or (m : PortMapManager) (host : Host) : Keeps m.gateway (m.gateway.or host.defaultGateway) := by
  intro gw known
  rw [known]
  rfl

theorem keeps_same (gateway : Option NetAddr) : Keeps gateway gateway := fun _ known => known

theorem request_moved {gw : NetAddr} {req : NatPmpRequest} {why : String} {e : Event}
    (kind : m.Asked req) (keeps : Keeps m.gateway (some gw))
    (calls : (m.apply now e).2 = ({ m with gateway := some gw }.request host now gw req why).2) :
    Moved m now e ({ m with gateway := some gw }.request host now gw req why).1 := by
  have phase : m.phase = .natPmpProbe ∨ m.phase = .natPmpMapping := Or.imp And.left And.left kind
  unfold request at calls ⊢
  cases sent : host.udpSend (withPort gw NAT_PMP_PORT) req.encode with
  | ok u =>
    simp only [sent] at calls ⊢
    exact Moved.asked gw req host kind keeps calls
  | error e =>
    simp only [sent]
    exact Moved.fallback (some gw) why keeps phase

theorem stepProbe_moved (phase : m.phase = .natPmpProbe) (step : m.tick host now = m.stepProbe host now) :
    Moved m now (.tick host) (m.tick host now).1 := by
  have calls : (m.apply now (.tick host)).2 = (m.stepProbe host now).2 := congrArg Prod.snd step
  rw [step]
  unfold stepProbe at calls ⊢
  rw [gatewayOf_eq] at calls ⊢
  have keeps := m.keeps_or host
  split_ifs at calls ⊢ with idle
  · cases known : m.gateway.or host.defaultGateway with
    | some gw =>
      rw [known] at calls keeps
      exact request_moved (.inl ⟨phase, rfl⟩) keeps calls
    | none =>
      rw [known] at keeps
      exact Moved.fallback none "no default gateway" keeps (.inl phase)
  · exact Moved.fallback m.gateway "nat-pmp probe timeout" (keeps_same _) (.inl phase)

theorem stepMapping_request {gw : NetAddr} {p : MapProtocol} (idle : m.sentAt = none)
    (known : m.gateway.or host.defaultGateway = some gw) (proto : m.protocol = some p) :
    m.stepMapping host now =
      { m with gateway := some gw }.request host now gw (.map p.natPmpOpcode (m.portFor p) (m.portFor p) m.cfg.leaseSec)
        "nat-pmp map send failed" := by
  unfold stepMapping
  rw [if_pos idle, gatewayOf_eq, known]
  simp only [proto]
  rfl

theorem stepMapping_moved (phase : m.phase = .natPmpMapping) (step : m.tick host now = m.stepMapping host now) :
    Moved m now (.tick host) (m.tick host now).1 := by
  have calls : (m.apply now (.tick host)).2 = (m.stepMapping host now).2 := congrArg Prod.snd step
  rw [step]
  have keeps := m.keeps_or host
  by_cases idle : m.sentAt = none
  · cases known : m.gateway.or host.defaultGateway with
    | none =>
      rw [known] at keeps
      unfold stepMapping
      rw [if_pos idle, gatewayOf_eq, known]
      exact Moved.fallback none "no gateway for mapping" keeps (.inr phase)
    | some gw =>
      rw [known] at keeps
      cases proto : m.protocol with
      | none =>
        unfold stepMapping
        rw [if_pos idle, gatewayOf_eq, known]
        have moved : Moved m now (.tick host) _ := Moved.fallback (some gw) "no gateway for mapping" keeps (.inr phase)
        simp only [proto] at moved ⊢
        exact moved
      | some p =>
        rw [stepMapping_request idle known proto] at calls ⊢
        exact request_moved (.inr ⟨phase, p, proto, rfl⟩) keeps calls
  · unfold stepMapping
    rw [if_neg idle]
    exact Moved.fallback m.gateway "nat-pmp mapping timeout" (keeps_same _) (.inr phase)

theorem stepDiscover_moved (phase : m.phase = .upnpDiscover) (step : m.tick host now = m.stepDiscover host now) :
    Moved m now (.tick host) (m.tick host now).1 := by
  rw [step]
  unfold stepDiscover
  split_ifs
  · cases host.udpMulticastSend SSDP_ADDR buildMSearch with
    | ok u => exact Moved.searching phase
    | error e => exact Moved.failed _ (.inr (.inl phase))
  · exact Moved.failed _ (.inr (.inl phase))

theorem stepUpnpFetch_moved (phase : m.phase = .upnpFetching) (step : m.tick host now = m.stepUpnpFetch host now) :
    Moved m now (.tick host) (m.tick host now).1 := by
  have failed : ∀ why, Moved m now (.tick host) (m.fail why) := fun why => Moved.failed why (.inr (.inr (.inl phase)))
  rw [step]
  unfold stepUpnpFetch
  cases place : m.location with
  | none => exact failed _
  | some loc =>
    cases got : host.httpGet loc m.cfg.stepTimeoutMs with
    | error e => simpa only [got] using failed _
    | ok xml =>
      cases found : findWanControlUrl xml with
      | none => simpa only [got, found] using failed _
      | some rel => simpa only [got, found, place] using @Moved.described m now (.tick host) (joinUrl loc rel) phase

theorem stepUpnpMap_agreed (now : Nat) (agrees : m.upnpAgrees host = true) :
    ∃ p, m.protocol = some p ∧ m.controlUrl.isSome = true ∧
      (m.stepUpnpMap host now).1 = { m with usingUpnp := true }.onMappingSuccess now (m.portFor p) := by
  unfold upnpAgrees at agrees
  unfold stepUpnpMap
  cases addr : host.localIp with
  | none => simp [addr] at agrees
  | some ip =>
    cases place : m.controlUrl with
    | none => simp [addr, place] at agrees
    | some url =>
      cases proto : m.protocol with
      | none => simp [addr, place, proto] at agrees
      | some p =>
        refine ⟨p, rfl, rfl, ?_⟩
        simp only [addr, place, proto] at agrees ⊢
        cases answer : host.httpPost url
            (buildSoapAddMapping p.upnpName (m.portFor p) (m.portFor p) m.cfg.leaseSec m.cfg.description (toAllocString ip))
            m.cfg.stepTimeoutMs with
        | error e => simp [answer] at agrees
        | ok resp =>
          simp only [answer] at agrees ⊢
          rw [if_pos agrees]

theorem stepUpnpMap_refused (now : Nat) (refuses : m.upnpAgrees host = false) : ∃ why, (m.stepUpnpMap host now).1 = m.fail why := by
  unfold upnpAgrees at refuses
  unfold stepUpnpMap
  cases addr : host.localIp with
  | none => exact ⟨_, rfl⟩
  | some ip =>
    cases place : m.controlUrl with
    | none => exact ⟨"upnp: missing control URL", by simp only [fail, place]⟩
    | some url =>
      cases proto : m.protocol with
      | none => exact ⟨"upnp: missing control URL", by simp only [fail, place, proto]⟩
      | some p =>
        simp only [addr, place, proto] at refuses ⊢
        cases answer : host.httpPost url
            (buildSoapAddMapping p.upnpName (m.portFor p) (m.portFor p) m.cfg.leaseSec m.cfg.description (toAllocString ip))
            m.cfg.stepTimeoutMs with
        | error e =>
          cases e
          all_goals exact ⟨_, rfl⟩
        | ok resp =>
          simp only [answer] at refuses ⊢
          rw [refuses]
          exact ⟨_, rfl⟩

theorem stepUpnpMap_moved (on : m.cfg.enabled = true) (due : m.next ≤ now) (phase : m.phase = .upnpMapping)
    (step : m.tick host now = m.stepUpnpMap host now) : Moved m now (.tick host) (m.tick host now).1 := by
  rw [step]
  cases agrees : m.upnpAgrees host with
  | false =>
    obtain ⟨why, failed⟩ := stepUpnpMap_refused now agrees
    rw [failed]
    exact Moved.failed why (.inr (.inr (.inr phase)))
  | true =>
    obtain ⟨p, proto, url, mapped⟩ := stepUpnpMap_agreed now agrees
    have grant : m.grantOf now (.tick host) =
        some ⟨true, if m.cfg.leaseSec = 0 then none else some (now + m.cfg.leaseSec * 1000), m.controlUrl, m.gateway⟩ :=
      if_pos ⟨on, due, phase, agrees⟩
    rw [mapped]
    exact Moved.granted p _ (m.portFor p) proto (.inr phase) (fun _ => url) grant

theorem retry_moved (rests : m.phase = .done ∨ m.phase = .failed) (step : m.tick host now = (m.retry now, [])) :
    Moved m now (.tick host) (m.tick host now).1 := by
  have calls : (m.apply now (.tick host)).2 = [] := congrArg Prod.snd step
  rw [step]
  unfold retry
  cases manual : m.manualUnmap with
  | true => exact Moved.kept calls
  | false =>
    have moved : Moved m now (.tick host) _ := Moved.retried rests manual
    rw [manual] at moved
    exact moved

theorem tick_moved (m : PortMapManager) (now : Nat) (host : Host) : Moved m now (.tick host) (m.tick host now).1 := by
  by_cases idle : m.cfg.enabled = false ∨ now < m.next
  · have nothing := tick_idle host idle
    rw [nothing]
    exact Moved.kept (congrArg Prod.snd nothing)
  · obtain ⟨on, due⟩ := not_or.mp idle
    have step := tick_due host (Bool.eq_true_of_not_eq_false on) (not_lt.mp due)
    unfold stepPhase at step
    cases phase : m.phase with
    | idle =>
      simp only [phase] at step
      rw [step]
      exact Moved.kept (congrArg Prod.snd step)
    | natPmpProbe => exact stepProbe_moved phase (by simpa only [phase] using step)
    | natPmpMapping => exact stepMapping_moved phase (by simpa only [phase] using step)
    | upnpDiscover => exact stepDiscover_moved phase (by simpa only [phase] using step)
    | upnpFetching => exact stepUpnpFetch_moved phase (by simpa only [phase] using step)
    | upnpMapping =>
      exact stepUpnpMap_moved (Bool.eq_true_of_not_eq_false on) (not_lt.mp due) phase (by simpa only [phase] using step)
    | mapped =>
      simp only [phase] at step
      rw [step]
      exact Moved.refreshed host rfl phase (not_lt.mp due)
    | unmapping =>
      simp only [phase] at step
      rw [step]
      exact Moved.deleted host rfl phase
    | done => exact retry_moved (.inl phase) (by simpa only [phase] using step)
    | failed => exact retry_moved (.inr phase) (by simpa only [phase] using step)

theorem onNatPmpReply_moved (addr : NetAddr) (data : Bytes) (here : isNatPmp addr data = true) :
    Moved m now (.datagram addr data) (m.onNatPmpReply data now).2 := by
  have kept : Moved m now (.datagram addr data) m := Moved.kept rfl
  unfold onNatPmpReply
  cases parsed : NatPmpResponse.parse data with
  | error e => exact kept
  | ok resp =>
    simp only
    split_ifs with addressed other good mapping foreign fine unsupported
    · exact kept
    · exact Moved.answered (not_not.mp other)
    · exact Moved.fallback m.gateway "nat-pmp unsupported" (keeps_same _) (.inl (not_not.mp other))
    · exact kept
    · obtain ⟨phase, same⟩ := not_or.mp foreign
      have phase := not_not.mp phase
      have same := not_not.mp same
      cases proto : m.protocol with
      | none =>
        rw [proto] at same
        rw [same] at mapping
        exact absurd mapping (by decide)
      | some p =>
        rw [proto] at same
        have grants : m.granting addr data = some resp := by
          unfold granting
          rw [if_pos ⟨here, phase⟩, parsed, proto]
          exact if_pos ⟨congrArg some same.symm, fine⟩
        have grant : m.grantOf now (.datagram addr data) =
            some ⟨false, some (now + resp.lifetimeSec.getD 0 * 1000), m.controlUrl, m.gateway⟩ := by
          change (m.granting addr data).map _ = _
          rw [grants]
          rfl
        have moved := Moved.granted p _ (resp.externalPort.getD (m.portFor (m.protocol.getD .udp))) proto (.inl phase)
          (fun upnp => (by cases upnp)) grant
        rw [proto] at moved
        exact moved
    · exact Moved.fallback m.gateway "nat-pmp mapping unsupported" (keeps_same _) (.inr (not_not.mp (not_or.mp foreign).1))
    · exact Moved.failed "nat-pmp mapping rejected" (.inl (not_not.mp (not_or.mp foreign).1))
    · exact kept

theorem handleDatagram_moved (m : PortMapManager) (now : Nat) (addr : NetAddr) (data : Bytes) :
    Moved m now (.datagram addr data) (m.handleDatagram addr data now).2 := by
  have kept : Moved m now (.datagram addr data) m := Moved.kept rfl
  unfold handleDatagram
  split_ifs with here text
  · exact onNatPmpReply_moved addr data here
  · cases parseSsdpResponse data with
    | none => exact kept
    | some location =>
      simp only [onSsdp]
      split_ifs with other
      · exact kept
      · exact Moved.located location (not_not.mp other)
  · exact kept

theorem start_moved (m : PortMapManager) (now : Nat) : Moved m now .start (m.start now) := by
  by_cases begins : m.phase = .idle ∨ m.phase = .done
  · exact Moved.started begins
  · have same : m.start now = m := if_pos (not_or.mp begins)
    rw [same]
    exact Moved.kept rfl

theorem unmap_moved (m : PortMapManager) (now : Nat) : Moved m now .unmap (m.unmap now) := by
  by_cases mapped : m.phase = .mapped
  · exact Moved.unmapped rfl mapped
  · have same : m.unmap now = m := if_neg mapped
    rw [same]
    exact Moved.kept rfl

theorem apply_moved (m : PortMapManager) (now : Nat) (e : Event) : Moved m now e (m.apply now e).1 := by
  cases e with
  | tick host => exact tick_moved m now host
  | datagram addr data => exact handleDatagram_moved m now addr data
  | start => exact start_moved m now
  | unmap => exact unmap_moved m now

theorem grantOf_phase {e : Event} {g : Grant} (grant : m.grantOf now e = some g) :
    m.phase = .natPmpMapping ∨ m.phase = .upnpMapping := by
  cases e with
  | tick host =>
    have agrees : m.cfg.enabled ∧ m.next ≤ now ∧ m.phase = .upnpMapping ∧ m.upnpAgrees host := by
      by_contra other
      have none : m.grantOf now (.tick host) = none := if_neg other
      rw [none] at grant
      cases grant
    exact .inr agrees.2.2.1
  | datagram addr data =>
    change (m.granting addr data).map _ = some g at grant
    obtain ⟨resp, grants, -⟩ := Option.map_eq_some_iff.mp grant
    unfold granting at grants
    split_ifs at grants with here
    exact .inl here.2
  | start => cases grant
  | unmap => cases grant

theorem grantOf_place {e : Event} {g : Grant}
    (grant : m.grantOf now e = some g) : g.url = m.controlUrl ∧ g.gateway = m.gateway := by
  cases e with
  | tick host =>
    change (if _ then _ else _) = _ at grant
    split_ifs at grant
    all_goals
      cases grant
      exact ⟨rfl, rfl⟩
  | datagram addr data =>
    change (m.granting addr data).map _ = some g at grant
    obtain ⟨resp, -, rfl⟩ := Option.map_eq_some_iff.mp grant
    exact ⟨rfl, rfl⟩
  | start => cases grant
  | unmap => cases grant

theorem onMappingSuccess_place (external : Nat) :
    (m.onMappingSuccess now external).controlUrl = m.controlUrl ∧ (m.onMappingSuccess now external).gateway = m.gateway := by
  unfold onMappingSuccess
  simp only
  split_ifs <;> exact ⟨rfl, rfl⟩

theorem onMappingSuccess_udp (proto : m.protocol = some .udp) (single : m.mappedTcp = false) (external : Nat) :
    m.onMappingSuccess now external =
      { m with
        error := none
        externalPort := some external
        mappedUdp := true
        protocol := some .tcp
        sentAt := none
        next := now
        phase := if m.usingUpnp then .upnpMapping else .natPmpMapping } := by
  unfold onMappingSuccess
  simp [proto, single]

theorem onMappingSuccess_tcp (proto : m.protocol = some .tcp) (first : m.mappedUdp = true) (external : Nat) :
    m.onMappingSuccess now external =
      { m with
        error := none
        externalPort := some external
        mappedTcp := true
        phase := .mapped
        sentAt := none
        next := now + refreshInterval m.cfg.leaseSec } := by
  unfold onMappingSuccess
  simp [proto, first]

def gatewayAfter (m : PortMapManager) (host : Host) : Option NetAddr :=
  if m.usingUpnp then m.gateway else m.gateway.or host.defaultGateway

theorem sendDelete_fst (m : PortMapManager) (host : Host) : (m.sendDelete host).1 = { m with gateway := m.gatewayAfter host } := by
  unfold sendDelete gatewayAfter
  rw [gatewayOf_eq]
  split_ifs with upnp
  · split <;> rfl
  · cases m.gateway.or host.defaultGateway <;> rfl

theorem stepUnmapping_fst (m : PortMapManager) (host : Host) (now : Nat) :
    (m.stepUnmapping host now).1 =
      if m.protocol.getD .udp = .udp then
        { m with gateway := m.gatewayAfter host, protocol := some .tcp, sentAt := none, next := now }
      else { m with gateway := m.gatewayAfter host, phase := .done, next := now } := by
  unfold stepUnmapping
  simp only [sendDelete_fst]
  split_ifs <;> rfl

structure Ordered (m : PortMapManager) : Prop where
  begun : m.protocol = none → m.phase = .idle
  second : m.protocol = some .tcp → m.mappedUdp = true
  held : m.phase = .mapped ∨ m.phase = .unmapping → m.mappedUdp = true ∧ m.mappedTcp = true
  last : m.mappedTcp = true → m.phase = .mapped ∨ (m.phase = .unmapping ∨ m.phase = .done) ∧ m.manualUnmap = true

theorem Ordered.new (cfg : PortMapConfig) : Ordered (.new cfg) where
  begun _ := rfl
  second no := by cases no
  held no := by rcases no with no | no <;> cases no
  last no := by cases no

abbrev Working (phase : PortMapPhase) : Prop := phase ≠ .idle ∧ phase ≠ .mapped ∧ phase ≠ .unmapping ∧ phase ≠ .done

namespace Ordered

theorem single (ordered : Ordered m) (works : Working m.phase) : m.mappedTcp = false := by
  by_contra both
  rcases ordered.last (Bool.eq_true_of_not_eq_false both) with rests | ⟨ends | ends, -⟩
  · exact works.2.1 rests
  · exact works.2.2.1 ends
  · exact works.2.2.2 ends

theorem work {m' : PortMapManager} (ordered : Ordered m) (works : Working m.phase) {b : PortMapPhase} (next : Working b)
    (phase : m'.phase = b) (protocol : m'.protocol = m.protocol) (udp : m'.mappedUdp = m.mappedUdp)
    (tcp : m'.mappedTcp = m.mappedTcp) : Ordered m' where
  begun no := absurd (ordered.begun (protocol ▸ no)) works.1
  second proto := udp ▸ ordered.second (protocol ▸ proto)
  held rests := by
    rw [phase] at rests
    rcases rests with rests | ends
    · exact absurd rests next.2.1
    · exact absurd ends next.2.2.1
  last both := by
    rw [tcp, ordered.single works] at both
    cases both

theorem working {a b : PortMapPhase} (same : a = b) (works : Working b) : Working a := same ▸ works

theorem moved {m' : PortMapManager} {e : Event} (ordered : Ordered m) (moved : Moved m now e m') : Ordered m' := by
  have ⟨begun, second, held, last⟩ := ordered
  have discover : Working .upnpDiscover := by decide
  have mapping : Working .natPmpMapping := by decide
  have upnp : Working .upnpMapping := by decide
  have fetching : Working .upnpFetching := by decide
  have probe : Working .natPmpProbe := by decide
  have failing : Working .failed := by decide
  cases moved with
  | kept calls => exact ordered
  | asked gw req host kind keeps calls => exact ⟨begun, second, held, last⟩
  | fallback gw why keeps phase =>
    have works : Working m.phase := by
      rcases phase with phase | phase <;> exact working phase (by decide)
    exact ordered.work works discover rfl rfl rfl rfl
  | searching phase => exact ⟨begun, second, held, last⟩
  | failed why phase =>
    have works : Working m.phase := by
      rcases phase with phase | phase | phase | phase <;> exact working phase (by decide)
    exact ordered.work works failing rfl rfl rfl rfl
  | described url phase => exact ordered.work (working phase fetching) upnp rfl rfl rfl rfl
  | granted p g external proto phase url grant =>
    have works : Working m.phase := by
      rcases phase with phase | phase <;> exact working phase (by decide)
    have single := ordered.single works
    cases p with
    | udp =>
      have mapped := @onMappingSuccess_udp { m with usingUpnp := g.upnp } now proto single external
      have next : Working (if g.upnp then .upnpMapping else .natPmpMapping) := by
        cases g.upnp <;> decide
      rw [mapped]
      constructor
      · exact fun no => by cases no
      · exact fun _ => rfl
      · intro rests
        rcases rests with rests | ends
        · exact absurd rests next.2.1
        · exact absurd ends next.2.2.1
      · intro both
        rw [show m.mappedTcp = false from single] at both
        cases both
    | tcp =>
      have first := ordered.second proto
      have mapped := @onMappingSuccess_tcp { m with usingUpnp := g.upnp } now proto first external
      rw [mapped]
      constructor
      · intro no
        rw [proto] at no
        cases no
      · exact fun _ => first
      · exact fun _ => ⟨first, rfl⟩
      · exact fun _ => .inl rfl
  | refreshed host tick phase due =>
    have next : Working (if m.usingUpnp then .upnpMapping else .natPmpMapping) := by
      cases m.usingUpnp <;> decide
    constructor
    · exact fun no => by cases no
    · exact fun no => by cases no
    · intro rests
      rcases rests with rests | ends
      · exact absurd rests next.2.1
      · exact absurd ends next.2.2.1
    · exact fun no => by cases no
  | deleted host tick phase =>
    have step := stepUnmapping_fst m host now
    obtain ⟨first, both⟩ := held (.inr phase)
    have manual : m.manualUnmap = true := by
      rcases last both with rests | ⟨-, manual⟩
      · rw [phase] at rests
        cases rests
      · exact manual
    rw [step]
    split_ifs with proto
    · exact ⟨fun no => (by cases no), fun _ => first, fun _ => ⟨first, both⟩, fun _ => .inr ⟨.inl phase, manual⟩⟩
    · refine ⟨?_, fun _ => first, fun _ => ⟨first, both⟩, fun _ => .inr ⟨.inr rfl, manual⟩⟩
      intro no
      have none : m.protocol.getD .udp = .udp := by
        rw [show m.protocol = none from no]
        rfl
      exact absurd none proto
  | retried phase manual =>
    have single : m.mappedTcp = false := by
      rcases phase with ends | fails
      · by_contra both
        rcases last (Bool.eq_true_of_not_eq_false both) with rests | ⟨-, yes⟩
        · rw [ends] at rests
          cases rests
        · rw [manual] at yes
          cases yes
      · exact ordered.single (working fails failing)
    constructor
    · intro no
      have idle := begun no
      rcases phase with ends | fails
      · rw [ends] at idle
        cases idle
      · rw [fails] at idle
        cases idle
    · exact second
    · intro no
      rcases no with no | no <;> cases no
    · intro both
      rw [show m.mappedTcp = false from single] at both
      cases both
  | answered phase => exact ordered.work (working phase probe) mapping rfl rfl rfl rfl
  | located location phase => exact ordered.work (working phase discover) fetching rfl rfl rfl rfl
  | started phase =>
    have begins : ¬ (m.phase ≠ .idle ∧ m.phase ≠ .done) := by
      intro both
      exact phase.elim both.1 both.2
    unfold start
    rw [if_neg begins]
    constructor
    · exact fun no => by cases no
    · exact fun no => by cases no
    · intro no
      rcases no with no | no <;> cases no
    · exact fun no => by cases no
  | unmapped unmap phase =>
    obtain ⟨first, both⟩ := held (.inl phase)
    unfold PortMapManager.unmap
    rw [if_pos phase]
    exact ⟨fun no => (by cases no), fun _ => first, fun _ => ⟨first, both⟩, fun _ => .inr ⟨.inl rfl, rfl⟩⟩

end Ordered

end PortMapManager

namespace Moved
variable {m m' : PortMapManager} {now : Nat} {e : Event}

theorem cfg (moved : Moved m now e m') : m'.cfg = m.cfg := by
  cases moved with
  | granted p g external proto phase url grant =>
    unfold PortMapManager.onMappingSuccess
    simp only
    split_ifs
    all_goals rfl
  | deleted host tick phase =>
    have step := m.stepUnmapping_fst host now
    rw [step]
    split_ifs <;> rfl
  | started phase =>
    unfold PortMapManager.start
    split_ifs <;> rfl
  | unmapped unmap phase =>
    unfold PortMapManager.unmap
    rw [if_pos phase]
  | _ => rfl

theorem gateway (moved : Moved m now e m') : Keeps m.gateway m'.gateway := by
  cases moved with
  | asked gw req host kind keeps calls => exact keeps
  | fallback gw why keeps phase => exact keeps
  | granted p g external proto phase url grant =>
    rw [(PortMapManager.onMappingSuccess_place external).2]
    exact PortMapManager.keeps_same _
  | deleted host tick phase =>
    have keeps : Keeps m.gateway (m.gatewayAfter host) := by
      unfold PortMapManager.gatewayAfter
      split_ifs
      · exact PortMapManager.keeps_same _
      · exact m.keeps_or host
    rw [m.stepUnmapping_fst host now]
    split_ifs <;> exact keeps
  | started phase =>
    unfold PortMapManager.start
    split_ifs <;> exact PortMapManager.keeps_same _
  | unmapped unmap phase =>
    unfold PortMapManager.unmap
    rw [if_pos phase]
    exact PortMapManager.keeps_same _
  | _ => exact PortMapManager.keeps_same _

theorem rests (moved : Moved m now e m') (ordered : m.Ordered) (rests : m'.phase = .mapped) :
    m' = m ∨ m.protocol = some .tcp ∧ m'.next = now + refreshInterval m.cfg.leaseSec ∧
      ∃ g, m.grantOf now e = some g ∧ m'.usingUpnp = g.upnp ∧ m'.controlUrl = g.url ∧
        (g.upnp = true → m'.controlUrl.isSome = true) := by
  cases moved with
  | kept calls => exact .inl rfl
  | asked gw req host kind keeps calls =>
    have phase : m.phase = .mapped := rests
    rcases kind with ⟨other, -⟩ | ⟨other, -⟩
    all_goals
      rw [phase] at other
      cases other
  | searching phase =>
    have other : m.phase = .mapped := rests
    rw [phase] at other
    cases other
  | granted p g external proto phase url grant =>
    cases p with
    | udp =>
      have works : PortMapManager.Working m.phase := by
        rcases phase with phase | phase <;> exact PortMapManager.Ordered.working phase (by decide)
      have mapped := @PortMapManager.onMappingSuccess_udp { m with usingUpnp := g.upnp } now proto (ordered.single works) external
      rw [mapped] at rests
      cases upnp : g.upnp <;> simp [upnp] at rests
    | tcp =>
      have mapped := @PortMapManager.onMappingSuccess_tcp { m with usingUpnp := g.upnp } now proto (ordered.second proto) external
      rw [mapped]
      exact .inr ⟨proto, rfl, g, grant, rfl, (PortMapManager.grantOf_place grant).1.symm, url⟩
  | refreshed host tick phase due =>
    have next : (m.refresh now).phase = if m.usingUpnp then .upnpMapping else .natPmpMapping := rfl
    rw [next] at rests
    cases upnp : m.usingUpnp <;> simp [upnp] at rests
  | deleted host tick phase =>
    have step := m.stepUnmapping_fst host now
    rw [step] at rests
    split_ifs at rests
    have other : m.phase = .mapped := rests
    rw [phase] at other
    cases other
  | started phase =>
    have begins : ¬ (m.phase ≠ .idle ∧ m.phase ≠ .done) := fun both => phase.elim both.1 both.2
    unfold PortMapManager.start at rests
    rw [if_neg begins] at rests
    cases rests
  | unmapped unmap phase =>
    unfold PortMapManager.unmap at rests
    rw [if_pos phase] at rests
    cases rests
  | _ => cases rests

theorem settled (moved : Moved m now e m') (holds : m.phase = .mapped ∨ m.phase = .unmapping) :
    m' = m ∨ (m.phase = .mapped ∧ (e = .unmap ∨ m' = m.refresh now)) ∨ (m.phase = .unmapping ∧ ∃ host, e = .tick host) := by
  cases moved with
  | kept calls => exact .inl rfl
  | refreshed host tick phase due => exact .inr (.inl ⟨phase, .inr rfl⟩)
  | deleted host tick phase => exact .inr (.inr ⟨phase, host, tick⟩)
  | unmapped unmap phase => exact .inr (.inl ⟨phase, .inl unmap⟩)
  | asked gw req host kind keeps calls =>
    have other : m.phase = .natPmpProbe ∨ m.phase = .natPmpMapping := Or.imp And.left And.left kind
    rcases other with phase | phase
    all_goals
      rw [phase] at holds
      rcases holds with no | no <;> cases no
  | granted p g external proto phase url grant =>
    rcases phase with phase | phase
    all_goals
      rw [phase] at holds
      rcases holds with no | no <;> cases no
  | failed why phase =>
    rcases phase with phase | phase | phase | phase
    all_goals
      rw [phase] at holds
      rcases holds with no | no <;> cases no
  | fallback gw why keeps phase =>
    rcases phase with phase | phase
    all_goals
      rw [phase] at holds
      rcases holds with no | no <;> cases no
  | retried phase manual =>
    rcases phase with phase | phase
    all_goals
      rw [phase] at holds
      rcases holds with no | no <;> cases no
  | started phase =>
    rcases phase with phase | phase
    all_goals
      rw [phase] at holds
      rcases holds with no | no <;> cases no
  | searching phase | described url phase | answered phase | located location phase =>
    rw [phase] at holds
    rcases holds with no | no <;> cases no

theorem leaves (moved : Moved m now e m') (rests : m.phase = .mapped) : m' = m ∨ e = .unmap ∨ m' = m.refresh now := by
  rcases moved.settled (.inl rests) with same | ⟨-, left⟩ | ⟨ends, -⟩
  · exact .inl same
  · exact .inr left
  · rw [rests] at ends
    cases ends

theorem ending (moved : Moved m now e m') (ends : m.phase = .unmapping) : m' = m ∨ ∃ host, e = .tick host := by
  rcases moved.settled (.inr ends) with same | ⟨rests, -⟩ | ⟨-, tick⟩
  · exact .inl same
  · rw [ends] at rests
    cases rests
  · exact .inr tick

theorem unmapping (moved : Moved m now e m') (ends : m'.phase = .unmapping) :
    (m.phase = .mapped ∨ m.phase = .unmapping) ∧ m'.usingUpnp = m.usingUpnp ∧ m'.controlUrl = m.controlUrl := by
  cases moved with
  | kept calls => exact ⟨.inr ends, rfl, rfl⟩
  | asked gw req host kind keeps calls => exact ⟨.inr ends, rfl, rfl⟩
  | searching phase => exact ⟨.inr ends, rfl, rfl⟩
  | granted p g external proto phase url grant =>
    exfalso
    unfold PortMapManager.onMappingSuccess at ends
    simp only at ends
    split_ifs at ends
  | refreshed host tick phase due =>
    exfalso
    have next : (m.refresh now).phase = if m.usingUpnp then .upnpMapping else .natPmpMapping := rfl
    rw [next] at ends
    split_ifs at ends
  | deleted host tick phase =>
    have step := m.stepUnmapping_fst host now
    rw [step] at ends ⊢
    split_ifs
    · exact ⟨.inr phase, rfl, rfl⟩
    · exact ⟨.inr phase, rfl, rfl⟩
  | started phase =>
    have begins : ¬ (m.phase ≠ .idle ∧ m.phase ≠ .done) := fun both => phase.elim both.1 both.2
    unfold PortMapManager.start at ends
    rw [if_neg begins] at ends
    cases ends
  | unmapped unmap phase =>
    unfold PortMapManager.unmap
    rw [if_pos phase]
    exact ⟨.inl phase, rfl, rfl⟩
  | _ => cases ends

theorem udp (moved : Moved m now e m') (ordered : m.Ordered) (held : m'.mappedUdp = true) :
    m.mappedUdp = true ∨ m.protocol = some .udp ∧ ∃ g, m.grantOf now e = some g := by
  cases moved with
  | granted p g external proto phase url grant =>
    cases p with
    | udp => exact .inr ⟨proto, g, grant⟩
    | tcp => exact .inl (ordered.second proto)
  | deleted host tick phase => exact .inl (ordered.held (.inr phase)).1
  | unmapped unmap phase => exact .inl (ordered.held (.inl phase)).1
  | refreshed host tick phase due => cases held
  | started phase =>
    have begins : ¬ (m.phase ≠ .idle ∧ m.phase ≠ .done) := fun both => phase.elim both.1 both.2
    unfold PortMapManager.start at held
    rw [if_neg begins] at held
    cases held
  | _ => exact .inl held

end Moved

/-! ### Runs -/

def Call.datagram? : Call → Option (NetAddr × Bytes)
  | .send target data => some (target, data)
  | _ => none

def Event.isTick : Event → Bool
  | .tick _ => true
  | _ => false

/-- The mapper with the last event's time, the last tick's time, what was granted last for each protocol, and the request that is on
its way. -/
structure Mapper where
  m : PortMapManager
  now : Nat
  lastTick : Nat
  udp : Option Grant
  tcp : Option Grant
  flight : Option (NetAddr × Bytes)

namespace Mapper

def new (cfg : PortMapConfig) (now : Nat) : Mapper := ⟨.new cfg, now, now, none, none, none⟩

def step (s : Mapper) (now : Nat) (e : Event) : Mapper where
  m := (s.m.apply now e).1
  now := now
  lastTick := if e.isTick then now else s.lastTick
  udp := if s.m.protocol = some .udp then (s.m.grantOf now e).or s.udp else s.udp
  tcp := if s.m.protocol = some .tcp then (s.m.grantOf now e).or s.tcp else s.tcp
  flight :=
    if (s.m.apply now e).1.sentAt = none then none else ((s.m.apply now e).2.findSome? Call.datagram?).or s.flight

/-- Events in the order of their times, each of which meets a condition on what came before. -/
inductive Run (cfg : PortMapConfig) (Ok : Mapper → Nat → Event → Prop) : Mapper → Prop where
  | new (now : Nat) : Run cfg Ok (.new cfg now)
  | step {s : Mapper} {now : Nat} {e : Event} : Run cfg Ok s → s.now ≤ now → Ok s now e → Run cfg Ok (s.step now e)

variable {s : Mapper} {now : Nat} {e : Event}

theorem step_udp {g : Grant} (known : s.udp = some g) : ∃ g', (s.step now e).udp = some g' := by
  unfold step
  simp only
  split_ifs with proto
  · cases s.m.grantOf now e with
    | none => exact ⟨g, known⟩
    | some g' => exact ⟨g', rfl⟩
  · exact ⟨g, known⟩

theorem step_quiet (rests : ¬ (s.m.phase = .natPmpMapping ∨ s.m.phase = .upnpMapping)) :
    (s.step now e).udp = s.udp ∧ (s.step now e).tcp = s.tcp := by
  have none : s.m.grantOf now e = none := by
    cases grant : s.m.grantOf now e with
    | none => rfl
    | some g => exact absurd (PortMapManager.grantOf_phase grant) rests
  unfold step
  simp only [none, Option.none_or, ite_self, and_self]

structure Sound (s : Mapper) : Prop where
  ordered : s.m.Ordered
  udp : s.m.mappedUdp = true → ∃ g, s.udp = some g
  tcp : s.m.phase = .mapped ∨ s.m.phase = .unmapping →
    ∃ g, s.tcp = some g ∧ g.upnp = s.m.usingUpnp ∧ s.m.controlUrl = g.url ∧ (g.upnp = true → s.m.controlUrl.isSome = true)
  places : ∀ g, s.udp = some g ∨ s.tcp = some g → Keeps g.gateway s.m.gateway

theorem Sound.new (cfg : PortMapConfig) (now : Nat) : Sound (.new cfg now) where
  ordered := .new cfg
  udp no := by cases no
  tcp no := by rcases no with no | no <;> cases no
  places g no := by rcases no with no | no <;> cases no

theorem step_grant {g : Grant} (known : (s.step now e).udp = some g ∨ (s.step now e).tcp = some g) :
    s.m.grantOf now e = some g ∨ s.udp = some g ∨ s.tcp = some g := by
  unfold step at known
  simp only at known
  cases grant : s.m.grantOf now e with
  | none =>
    simp only [grant, Option.none_or, ite_self] at known
    exact .inr known
  | some new =>
    simp only [grant, Option.some_or] at known
    rcases known with known | known
    all_goals
      split_ifs at known
      · exact .inl known
      · exact .inr (by first | exact .inl known | exact .inr known)

theorem Sound.step (sound : Sound s) : Sound (s.step now e) := by
  obtain ⟨ordered, udp, tcp, places⟩ := sound
  have moved := s.m.apply_moved now e
  refine ⟨ordered.moved moved, ?_, ?_, ?_⟩
  · intro held
    rcases moved.udp ordered held with before | ⟨proto, g, grant⟩
    · obtain ⟨g, known⟩ := udp before
      exact step_udp known
    · exact ⟨g, by simp only [Mapper.step, proto, grant, if_pos, Option.some_or]⟩
  · intro ends
    rcases ends with rests | ends
    · rcases moved.rests ordered rests with same | ⟨proto, -, g, grant, transport, place, url⟩
      · have before : s.m.phase = .mapped := same ▸ rests
        have asks : ¬ (s.m.phase = .natPmpMapping ∨ s.m.phase = .upnpMapping) := by
          rw [before]
          decide
        obtain ⟨g, known, transport, place, url⟩ := tcp (.inl before)
        have kept : (s.step now e).m = s.m := same
        rw [kept]
        exact ⟨g, (step_quiet asks).2.trans known, transport, place, url⟩
      · exact ⟨g, by simp only [Mapper.step, proto, grant, if_pos, Option.some_or], transport.symm, place, url⟩
    · obtain ⟨before, transport, url⟩ := moved.unmapping ends
      have asks : ¬ (s.m.phase = .natPmpMapping ∨ s.m.phase = .upnpMapping) := by
        rcases before with phase | phase
        all_goals
          rw [phase]
          decide
      obtain ⟨g, known, same, place, there⟩ := tcp before
      exact ⟨g, (step_quiet asks).2.trans known, same.trans transport.symm, url.trans place, fun upnp => url ▸ there upnp⟩
  · intro g known gw made
    refine moved.gateway gw ?_
    rcases step_grant known with grant | before
    · exact (PortMapManager.grantOf_place grant).2.symm.trans made
    · exact places g before gw made

def play (s : Mapper) : List (Nat × Event) → Mapper
  | [] => s
  | (now, e) :: rest => play (s.step now e) rest

/-- The times and the conditions of the events. -/
def Fits (Ok : Mapper → Nat → Event → Prop) (s : Mapper) : List (Nat × Event) → Prop
  | [] => True
  | (now, e) :: rest => s.now ≤ now ∧ Ok s now e ∧ Fits Ok (s.step now e) rest

instance decidableFits {Ok : Mapper → Nat → Event → Prop} [∀ s now e, Decidable (Ok s now e)] (s : Mapper) :
    (events : List (Nat × Event)) → Decidable (Fits Ok s events)
  | [] => isTrue trivial
  | (now, e) :: rest =>
      have := @decidableFits Ok _ (s.step now e) rest
      inferInstanceAs (Decidable (s.now ≤ now ∧ Ok s now e ∧ Fits Ok (s.step now e) rest))

theorem run_play {cfg : PortMapConfig} {Ok : Mapper → Nat → Event → Prop} {events : List (Nat × Event)} (run : Run cfg Ok s)
    (fits : Fits Ok s events) : Run cfg Ok (s.play events) := by
  induction events generalizing s with
  | nil => exact run
  | cons event rest ih => exact ih (.step run fits.1 fits.2.1) fits.2.2

end Mapper

end TypeBit.PortMap
