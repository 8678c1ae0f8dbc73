import TypeBit.PortMap.Leases

/-! Removal of both mappings: each is deleted by the transport and at the control URL that made the TCP mapping, so where it was made if
both were made in the same place. -/

namespace TypeBit.PortMap

/-- A call asks to delete a mapping where it was made: at the control URL by UPnP, or at the gateway by NAT-PMP. -/
def Deletes (m : PortMapManager) (p : MapProtocol) (g : Grant) (c : Call) : Prop :=
  if g.upnp then ∃ url, g.url = some url ∧ c = .post url (buildSoapDeleteMapping p.upnpName (m.portFor p))
  else ∃ gw, g.gateway = some gw ∧
    c = .send (withPort gw NAT_PMP_PORT) (NatPmpRequest.map p.natPmpOpcode (m.portFor p) (m.portFor p) 0).encode

namespace PortMapManager

def calls (m : PortMapManager) : List (Nat × Event) → List Call
  | [] => []
  | (now, e) :: rest => (m.apply now e).2 ++ (m.apply now e).1.calls rest

/-- The removal cycle: the request, and two ticks with other events before each. -/
def removal (now : Nat) (before : List (Nat × Event)) (first : Nat × Host) (between : List (Nat × Event)) (second : Nat × Host) :
    List (Nat × Event) :=
  (now, .unmap) :: (before ++ (first.1, .tick first.2) :: (between ++ [(second.1, .tick second.2)]))

variable {m : PortMapManager} {now : Nat}

theorem apply_quiet {e : Event} (ends : m.phase = .unmapping) (other : e.isTick = false) : m.apply now e = (m, []) := by
  have moved := m.apply_moved now e
  have none : (m.apply now e).2 = [] := by
    cases e with
    | tick host => cases other
    | datagram addr data => rfl
    | start => rfl
    | unmap => rfl
  have same : (m.apply now e).1 = m := by
    rcases moved.ending ends with same | ⟨host, rfl⟩
    · exact same
    · cases other
  exact Prod.ext same none

theorem calls_quiet {events : List (Nat × Event)} (ends : m.phase = .unmapping) (other : ∀ e ∈ events, e.2.isTick = false)
    (rest : List (Nat × Event)) : m.calls (events ++ rest) = m.calls rest := by
  induction events with
  | nil => rfl
  | cons e events ih =>
    have first := @apply_quiet m e.1 e.2 ends (other e List.mem_cons_self)
    have later := ih fun d member => other d (List.mem_cons_of_mem e member)
    change (m.apply e.1 e.2).2 ++ (m.apply e.1 e.2).1.calls (events ++ rest) = _
    rw [first]
    exact later

def deleteCalls (m : PortMapManager) (p : MapProtocol) (gw : Option NetAddr) : List Call :=
  if m.usingUpnp then m.controlUrl.toList.map fun url => .post url (buildSoapDeleteMapping p.upnpName (m.portFor p))
  else gw.toList.map fun gw =>
    .send (withPort gw NAT_PMP_PORT) (NatPmpRequest.map p.natPmpOpcode (m.portFor p) (m.portFor p) 0).encode

theorem sendDelete_snd (m : PortMapManager) (host : Host) :
    (m.sendDelete host).2 = m.deleteCalls (m.protocol.getD .udp) (m.gateway.or host.defaultGateway) := by
  unfold sendDelete deleteCalls
  rw [gatewayOf_eq]
  split_ifs with upnp
  · cases m.controlUrl <;> rfl
  · cases m.gateway.or host.defaultGateway <;> rfl

theorem stepUnmapping_snd (m : PortMapManager) (host : Host) (now : Nat) :
    (m.stepUnmapping host now).2 = m.deleteCalls (m.protocol.getD .udp) (m.gateway.or host.defaultGateway) := by
  rw [← sendDelete_snd]
  unfold stepUnmapping
  simp only
  split_ifs <;> rfl

theorem apply_unmapping {host : Host} (on : m.cfg.enabled = true) (ends : m.phase = .unmapping) (due : m.next ≤ now) :
    m.apply now (.tick host) =
      (if m.protocol.getD .udp = .udp then
          { m with gateway := m.gatewayAfter host, protocol := some .tcp, sentAt := none, next := now }
        else { m with gateway := m.gatewayAfter host, phase := .done, next := now },
        m.deleteCalls (m.protocol.getD .udp) (m.gateway.or host.defaultGateway)) := by
  have step : m.stepPhase host now = m.stepUnmapping host now := by
    unfold stepPhase
    rw [ends]
  change m.tick host now = _
  rw [tick_due host on due, step]
  exact Prod.ext (m.stepUnmapping_fst host now) (m.stepUnmapping_snd host now)

theorem calls_removal {before between : List (Nat × Event)} {first second : Nat × Host} (on : m.cfg.enabled = true)
    (rests : m.phase = .mapped) (later : now ≤ first.1) (last : first.1 ≤ second.1)
    (quiet : ∀ e ∈ before, e.2.isTick = false) (still : ∀ e ∈ between, e.2.isTick = false) :
    m.calls (removal now before first between second) =
      m.deleteCalls .udp (m.gateway.or first.2.defaultGateway) ++
        m.deleteCalls .tcp ((m.gatewayAfter first.2).or second.2.defaultGateway) := by
  obtain ⟨m₁, begins⟩ : ∃ m₁ : PortMapManager, m₁ =
      { m with phase := .unmapping, protocol := some .udp, manualUnmap := true, sentAt := none, next := now } := ⟨_, rfl⟩
  obtain ⟨m₂, goes⟩ : ∃ m₂ : PortMapManager, m₂ =
      { m₁ with gateway := m₁.gatewayAfter first.2, protocol := some .tcp, sentAt := none, next := first.1 } := ⟨_, rfl⟩
  have begun : m.apply now .unmap = (m₁, []) := by
    change (m.unmap now, []) = _
    rw [unmap, if_pos rests, begins]
  have one : m₁.apply first.1 (.tick first.2) = (m₂, m₁.deleteCalls .udp (m₁.gateway.or first.2.defaultGateway)) := by
    rw [apply_unmapping (by rw [begins]; exact on) (by rw [begins]) (by rw [begins]; exact later), goes, begins]
    rfl
  have two : (m₂.apply second.1 (.tick second.2)).2 = m₂.deleteCalls .tcp (m₂.gateway.or second.2.defaultGateway) := by
    rw [apply_unmapping (by rw [goes, begins]; exact on) (by rw [goes, begins]) (by rw [goes]; exact last), goes]
    rfl
  change (m.apply now .unmap).2 ++ (m.apply now .unmap).1.calls (before ++ _) = _
  rw [begun, List.nil_append, calls_quiet (by rw [begins]) quiet]
  change (m₁.apply first.1 (.tick first.2)).2 ++ (m₁.apply first.1 (.tick first.2)).1.calls (between ++ _) = _
  rw [one, calls_quiet (by rw [goes, begins]) still]
  change _ ++ ((m₂.apply second.1 (.tick second.2)).2 ++ []) = _
  rw [two, List.append_nil, goes, begins]
  rfl

theorem calls_off (off : m.cfg.enabled = false) (events : List (Nat × Event)) : m.calls events = [] := by
  induction events generalizing m with
  | nil => rfl
  | cons event events ih =>
    have same : (m.apply event.1 event.2).1.cfg.enabled = false := by
      rw [(m.apply_moved event.1 event.2).cfg]
      exact off
    have none : (m.apply event.1 event.2).2 = [] := by
      cases event.2 with
      | tick host => exact congrArg Prod.snd (tick_idle host (.inl off))
      | datagram addr data => rfl
      | start => rfl
      | unmap => rfl
    change (m.apply event.1 event.2).2 ++ (m.apply event.1 event.2).1.calls events = []
    rw [none, ih same]
    rfl

theorem place_of_mem {p q : MapProtocol} {gw : Option NetAddr} {g : Grant} {c : Call} (member : c ∈ m.deleteCalls p gw)
    (deletes : Deletes m q g c) :
    g.upnp = m.usingUpnp ∧ (g.upnp = true → g.url = m.controlUrl) ∧ (g.upnp = false → g.gateway.isSome = true) := by
  unfold deleteCalls at member
  unfold Deletes at deletes
  split_ifs at member with using_ <;> split_ifs at deletes with by_
  · obtain ⟨url, made, rfl⟩ := deletes
    obtain ⟨url', known, same⟩ := List.mem_map.mp member
    refine ⟨by_.trans using_.symm, fun _ => ?_, fun no => by rw [by_] at no; cases no⟩
    rw [made, Option.mem_toList.mp known, (Call.post.inj same).1]
  · obtain ⟨gw, -, rfl⟩ := deletes
    obtain ⟨url, -, no⟩ := List.mem_map.mp member
    cases no
  · obtain ⟨url, -, rfl⟩ := deletes
    obtain ⟨gw, -, no⟩ := List.mem_map.mp member
    cases no
  · obtain ⟨target, made, -⟩ := deletes
    have natPmp := Bool.eq_false_of_not_eq_true by_
    refine ⟨natPmp.trans (Bool.eq_false_of_not_eq_true using_).symm, fun yes => absurd yes by_, fun _ => ?_⟩
    rw [made]
    rfl

theorem deletes_mem {p : MapProtocol} {gw : Option NetAddr} {g : Grant} (transport : g.upnp = m.usingUpnp)
    (url : g.upnp = true → ∃ url, g.url = some url ∧ m.controlUrl = some url)
    (known : g.upnp = false → ∃ target, g.gateway = some target ∧ gw = some target) : ∃ c ∈ m.deleteCalls p gw, Deletes m p g c := by
  unfold deleteCalls Deletes
  rw [← transport]
  split_ifs with upnp
  · obtain ⟨place, made, same⟩ := url upnp
    exact ⟨_, List.mem_map.mpr ⟨place, Option.mem_toList.mpr same, rfl⟩, place, made, rfl⟩
  · obtain ⟨target, made, same⟩ := known (Bool.eq_false_of_not_eq_true upnp)
    exact ⟨_, List.mem_map.mpr ⟨target, Option.mem_toList.mpr same, rfl⟩, target, made, rfl⟩

end PortMapManager

namespace Mapper
open PortMapManager
variable {s : Mapper} {now : Nat}

theorem run_sound {cfg : PortMapConfig} {Ok : Mapper → Nat → Event → Prop} (run : Run cfg Ok s) : s.m.cfg = cfg ∧ Sound s := by
  induction run with
  | new now => exact ⟨rfl, .new cfg now⟩
  | step run later ok ih => exact ⟨(PortMapManager.apply_moved _ _ _).cfg.trans ih.1, ih.2.step⟩

/-- A removal deletes both mappings where they were made exactly if the mapper is enabled and both were made by the same transport: by
UPnP at the same control URL, or by NAT-PMP when the gateway was known. -/
theorem removed_where_made {cfg : PortMapConfig} {Ok : Mapper → Nat → Event → Prop} (run : Run cfg Ok s)
    (rests : s.m.phase = .mapped)
    {before between : List (Nat × Event)} {first second : Nat × Host} (later : now ≤ first.1) (last : first.1 ≤ second.1)
    (quiet : ∀ e ∈ before, e.2.isTick = false) (still : ∀ e ∈ between, e.2.isTick = false) :
    ∃ u t, s.udp = some u ∧ s.tcp = some t ∧
      ((∃ c ∈ s.m.calls (removal now before first between second), Deletes s.m .udp u c) ∧
          (∃ c ∈ s.m.calls (removal now before first between second), Deletes s.m .tcp t c) ↔
        cfg.enabled = true ∧ u.upnp = t.upnp ∧ (t.upnp = true → u.url = t.url) ∧
          (t.upnp = false → u.gateway.isSome = true ∧ t.gateway.isSome = true)) := by
  obtain ⟨sameCfg, sound⟩ := run_sound run
  obtain ⟨u, udp⟩ := sound.udp (sound.ordered.held (.inl rests)).1
  obtain ⟨t, tcp, transport, place, there⟩ := sound.tcp (.inl rests)
  refine ⟨u, t, udp, tcp, ?_⟩
  by_cases on : cfg.enabled = true
  · have sent := calls_removal (sameCfg.symm ▸ on) rests later last quiet still
    rw [sent]
    have made {p : MapProtocol} {g : Grant}
        (deleted : ∃ c ∈ s.m.deleteCalls .udp (s.m.gateway.or first.2.defaultGateway) ++
          s.m.deleteCalls .tcp ((s.m.gatewayAfter first.2).or second.2.defaultGateway), Deletes s.m p g c) :
        g.upnp = s.m.usingUpnp ∧ (g.upnp = true → g.url = s.m.controlUrl) ∧ (g.upnp = false → g.gateway.isSome = true) := by
      obtain ⟨c, member, deletes⟩ := deleted
      exact (List.mem_append.mp member).elim (place_of_mem · deletes) (place_of_mem · deletes)
    constructor
    · rintro ⟨first, second⟩
      obtain ⟨transportU, urlU, gatewayU⟩ := made first
      obtain ⟨-, -, gatewayT⟩ := made second
      have same : u.upnp = t.upnp := transportU.trans transport.symm
      exact ⟨on, same, fun upnp => (urlU (same.trans upnp)).trans place, fun natPmp => ⟨gatewayU (same.trans natPmp), gatewayT natPmp⟩⟩
    · rintro ⟨-, same, urls, gateways⟩
      have gatewayOf {g : Grant} (recorded : s.udp = some g ∨ s.tcp = some g) (known : g.gateway.isSome = true) :
          ∃ target, g.gateway = some target ∧ s.m.gateway = some target := by
        obtain ⟨target, made⟩ := Option.isSome_iff_exists.mp known
        exact ⟨target, made, sound.places g recorded target made⟩
      have url {g : Grant} (here : g.url = t.url) (upnp : t.upnp = true) : ∃ url, g.url = some url ∧ s.m.controlUrl = some url := by
        obtain ⟨url, known⟩ := Option.isSome_iff_exists.mp (there upnp)
        exact ⟨url, here.trans (place.symm.trans known), known⟩
      obtain ⟨c, early, deletesUdp⟩ := @deletes_mem s.m .udp (s.m.gateway.or first.2.defaultGateway) u (same.trans transport)
        (fun upnp => url (urls (same ▸ upnp)) (same ▸ upnp)) (fun natPmp => by
          obtain ⟨target, made, known⟩ := gatewayOf (.inl udp) (gateways (same ▸ natPmp)).1
          exact ⟨target, made, s.m.keeps_or _ target known⟩)
      obtain ⟨d, late, deletesTcp⟩ := @deletes_mem s.m .tcp ((s.m.gatewayAfter first.2).or second.2.defaultGateway) t transport
        (url rfl) (fun natPmp => by
          obtain ⟨target, made, known⟩ := gatewayOf (.inr tcp) (gateways natPmp).2
          have after : s.m.gatewayAfter first.2 = some target := by
            rw [gatewayAfter, if_neg (by rw [← transport, natPmp]; decide)]
            exact s.m.keeps_or _ target known
          exact ⟨target, made, by rw [after]; rfl⟩)
      exact ⟨⟨c, List.mem_append_left _ early, deletesUdp⟩, ⟨d, List.mem_append_right _ late, deletesTcp⟩⟩
  · have off : s.m.cfg.enabled = false := by
      rw [sameCfg]
      exact Bool.eq_false_of_not_eq_true on
    rw [calls_off off]
    constructor
    · rintro ⟨⟨c, member, -⟩, -⟩
      cases member
    · intro fine
      exact absurd fine.1 on

/-! ### Samples -/

def deviceHost : Host where
  defaultGateway := some (.ofOctets 192 168 1 1 0)
  localIp := some (.ofOctets 192 168 1 10 0)
  udpSend _ _ := .ok ()
  udpMulticastSend _ _ := .ok ()
  httpGet _ _ := .ok (ascii "urn:schemas-upnp-org:service:WANIPConnection:1<controlURL>/ctl</controlURL>")
  httpPost _ _ _ := .ok (ascii "<u:AddPortMappingResponse/>")

/-- The UDP mapping is granted by NAT-PMP; the request for the TCP mapping is not answered, and UPnP makes it. -/
def mixed : List (Nat × Event) :=
  [(0, .start), (0, .tick deviceHost), (0, .datagram router ([0, 0, 0, 0, 0, 0, 0, 1] ++ [203, 0, 113, 9])), (0, .tick deviceHost),
    (0, .datagram router (grantReply 1 3600)), (0, .tick deviceHost), (3000, .tick deviceHost), (3000, .tick deviceHost),
    (3000, .datagram router (ascii "HTTP/1.1 200 OK\r\nLOCATION: http://192.168.1.1/d\r\n\r\n")), (3000, .tick deviceHost),
    (3000, .tick deviceHost)]

/-- The UDP mapping was made by NAT-PMP, and no request deletes it there. -/
theorem mapping_left_behind :
    ∃ s, Run enabledCfg (fun _ _ _ => True) s ∧ s.m.phase = .mapped ∧ ∃ u, s.udp = some u ∧ u.upnp = false ∧
      u.gateway = deviceHost.defaultGateway ∧ ∀ c ∈ s.m.calls (removal 4000 [] (4000, deviceHost) [] (4000, deviceHost)), ¬ Deletes s.m .udp u c := by
  have fits : Fits (fun _ _ _ => True) (.new enabledCfg 0) mixed := by simp [Fits, mixed, Mapper.step, Mapper.new]
  have state : (fun s : Mapper => (s.m.phase, s.m.usingUpnp, s.m.cfg.enabled, s.udp.map fun g => (g.upnp, g.gateway)))
      (play (.new enabledCfg 0) mixed) = (.mapped, true, true, some (false, deviceHost.defaultGateway)) := by decide
  simp only [Prod.mk.injEq] at state
  obtain ⟨rests, upnp, on, made⟩ := state
  obtain ⟨u, udp, recorded⟩ := Option.map_eq_some_iff.mp made
  obtain ⟨natPmp, gateway⟩ := Prod.mk.inj recorded
  refine ⟨_, run_play (.new 0) fits, rests, u, udp, natPmp, gateway, ?_⟩
  intro c member deletes
  rw [calls_removal on rests (Nat.le_refl 4000) (Nat.le_refl 4000) (fun e no => by cases no) (fun e no => by cases no)] at member
  have other : u.upnp = (play (.new enabledCfg 0) mixed).m.usingUpnp :=
    (List.mem_append.mp member).elim (place_of_mem · deletes |>.1) (place_of_mem · deletes |>.1)
  rw [natPmp, upnp] at other
  cases other

def natPmpOnly : Mapper := play (.new enabledCfg 0) (granting 3600)

/-- Two mappings by NAT-PMP are both deleted at the gateway that made them. -/
theorem removed_where_made_both : ∃ u t, natPmpOnly.udp = some u ∧ natPmpOnly.tcp = some t ∧
    u.gateway = sender.defaultGateway ∧ t.gateway = sender.defaultGateway ∧
    (∃ c ∈ natPmpOnly.m.calls (removal 2000 [] (2000, sender) [] (2000, sender)), Deletes natPmpOnly.m .udp u c) ∧
      ∃ c ∈ natPmpOnly.m.calls (removal 2000 [] (2000, sender) [] (2000, sender)), Deletes natPmpOnly.m .tcp t c := by
  have fits : Fits (fun _ _ _ => True) (.new enabledCfg 0) (granting 3600) := by decide
  have rests : natPmpOnly.m.phase = .mapped := by decide
  obtain ⟨u, t, udp, tcp, deletes⟩ := @removed_where_made natPmpOnly 2000 enabledCfg _ (run_play (.new 0) fits) rests [] [] (2000, sender)
    (2000, sender) (Nat.le_refl 2000) (Nat.le_refl 2000) (fun e no => by cases no) (fun e no => by cases no)
  have first : natPmpOnly.udp.map (fun g => (g.upnp, g.gateway)) = some (false, sender.defaultGateway) := by decide
  have second : natPmpOnly.tcp.map (fun g => (g.upnp, g.gateway)) = some (false, sender.defaultGateway) := by decide
  rw [udp] at first
  rw [tcp] at second
  obtain ⟨natPmpU, gatewayU⟩ := Prod.mk.inj (Option.some.inj first)
  obtain ⟨natPmpT, gatewayT⟩ := Prod.mk.inj (Option.some.inj second)
  refine ⟨u, t, udp, tcp, gatewayU, gatewayT, deletes.mpr ⟨rfl, natPmpU.trans natPmpT.symm, fun yes => ?_, fun _ => ?_⟩⟩
  · rw [natPmpT] at yes
    cases yes
  · rw [gatewayU, gatewayT]
    decide

end Mapper

end TypeBit.PortMap
