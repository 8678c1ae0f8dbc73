import TypeBit.PortMap.Runs

/-! Leases are renewed in time where the gateway grants both mappings long enough: the next refresh is set by the lease that was
requested, not by the one that was granted. -/

namespace TypeBit.PortMap
open Wire

namespace Grant

def Lasts (g : Grant) (time : Nat) : Prop := ∀ ends ∈ g.ends, time ≤ ends

instance (g : Grant) (time : Nat) : Decidable (g.Lasts time) := inferInstanceAs (Decidable (∀ ends ∈ g.ends, time ≤ ends))

/-- The mapping has not ended at a time. -/
def Alive (g : Grant) (time : Nat) : Prop := ∀ ends ∈ g.ends, time < ends

end Grant

namespace Mapper

/-- The next event comes within a second of the last tick. -/
def Timely (s : Mapper) (now : Nat) (_ : Event) : Prop := now ≤ s.lastTick + 1000

instance (s : Mapper) (now : Nat) (e : Event) : Decidable (Timely s now e) := inferInstanceAs (Decidable (_ ≤ _))

/-- When the TCP mapping is granted, it and the UDP mapping last until a second after the refresh. -/
def Ample (s : Mapper) (now : Nat) (e : Event) : Prop :=
  ∀ g ∈ s.m.grantOf now e, s.m.protocol = some .tcp →
    g.Lasts (now + refreshInterval s.m.cfg.leaseSec + 1000) ∧
      ∀ u ∈ s.udp, u.Lasts (now + refreshInterval s.m.cfg.leaseSec + 1000)

instance (s : Mapper) (now : Nat) (e : Event) : Decidable (Ample s now e) := by
  unfold Ample
  infer_instance

/-- At rest the refresh is still to come, and both mappings last until a second after it. -/
structure InTime (s : Mapper) : Prop where
  order : s.lastTick ≤ s.now
  rests : s.m.phase = .mapped → s.lastTick < s.m.next ∧
    ∃ u t, s.udp = some u ∧ s.tcp = some t ∧ u.Lasts (s.m.next + 1000) ∧ t.Lasts (s.m.next + 1000)

theorem refreshInterval_pos (leaseSec : Nat) : 0 < refreshInterval leaseSec := by
  unfold refreshInterval
  omega

variable {s : Mapper} {now : Nat} {e : Event}

theorem tick_refreshes {host : Host} (on : s.m.cfg.enabled = true) (phase : s.m.phase = .mapped) (due : s.m.next ≤ now) :
    (s.step now (.tick host)).m = s.m.refresh now := by
  change (s.m.tick host now).1 = _
  rw [PortMapManager.tick_due host on due, PortMapManager.stepPhase, phase]

theorem refresh_phase (m : PortMapManager) (now : Nat) : (m.refresh now).phase ≠ .mapped := by
  change (if m.usingUpnp then PortMapPhase.upnpMapping else .natPmpMapping) ≠ .mapped
  split_ifs <;> decide

theorem InTime.step (inTime : InTime s) (sound : Sound s) (on : s.m.cfg.enabled = true) (later : s.now ≤ now)
    (ample : Ample s now e) : InTime (s.step now e) := by
  have order : (s.step now e).lastTick ≤ now := by
    change (if e.isTick then now else s.lastTick) ≤ now
    have before := inTime.order
    split_ifs <;> omega
  refine ⟨order, fun rests => ?_⟩
  rcases (s.m.apply_moved now e).rests sound.ordered rests with same | ⟨proto, next, g, grant, -⟩
  · have kept : (s.step now e).m = s.m := same
    have phase : s.m.phase = .mapped := same ▸ rests
    have asks : ¬ (s.m.phase = .natPmpMapping ∨ s.m.phase = .upnpMapping) := by
      rw [phase]
      decide
    obtain ⟨early, u, t, udp, tcp, first, second⟩ := inTime.rests phase
    obtain ⟨udpKept, tcpKept⟩ := @step_quiet s now e asks
    rw [kept]
    refine ⟨?_, u, t, udpKept.trans udp, tcpKept.trans tcp, first, second⟩
    cases e with
    | tick host =>
      -- a tick that is due would have begun a refresh
      by_contra late
      have due : s.m.next ≤ now := not_lt.mp late
      have begun := @tick_refreshes s now host on phase due
      rw [begun] at rests
      exact refresh_phase s.m now rests
    | datagram addr data => exact early
    | start => exact early
    | unmap => exact early
  · obtain ⟨first, second⟩ := ample g grant proto
    obtain ⟨u, known⟩ := sound.udp (sound.ordered.second proto)
    have nextAt : (s.step now e).m.next = now + refreshInterval s.m.cfg.leaseSec := next
    have positive := refreshInterval_pos s.m.cfg.leaseSec
    rw [nextAt]
    refine ⟨by omega, u, g, ?_, ?_, second u known, first⟩
    · simp only [Mapper.step, proto, Option.some.injEq, reduceCtorEq, if_false, known]
    · simp only [Mapper.step, proto, if_pos, grant, Option.some_or]

theorem run_inTime {cfg : PortMapConfig} (on : cfg.enabled = true)
    (run : Run cfg (fun s now e => Timely s now e ∧ Ample s now e) s) : s.m.cfg = cfg ∧ Sound s ∧ InTime s := by
  induction run with
  | new now => exact ⟨rfl, .new cfg now, Nat.le_refl now, fun no => by cases no⟩
  | step run later ok ih =>
    obtain ⟨same, sound, inTime⟩ := ih
    exact ⟨(PortMapManager.apply_moved _ _ _).cfg.trans same, sound.step, inTime.step sound (same ▸ on) later ok.2⟩

/-- In a run with a tick every second whose grants are ample, whatever time comes next while the mapper rests, neither mapping has ended,
and the rest ends by removal or by a refresh. -/
theorem renewed_in_time {cfg : PortMapConfig} (on : cfg.enabled = true)
    (run : Run cfg (fun s now e => Timely s now e ∧ Ample s now e) s) (rests : s.m.phase = .mapped) :
    ∃ u t, s.udp = some u ∧ s.tcp = some t ∧ ∀ now e, s.now ≤ now → Timely s now e →
      u.Alive now ∧ t.Alive now ∧
        ((s.step now e).m.phase = .mapped ∨ e = .unmap ∨ (s.step now e).m = s.m.refresh now) := by
  obtain ⟨-, sound, inTime⟩ := run_inTime on run
  obtain ⟨early, u, t, udp, tcp, first, second⟩ := inTime.rests rests
  refine ⟨u, t, udp, tcp, fun now e later timely => ⟨?_, ?_, ?_⟩⟩
  · intro ends known
    have last := first ends known
    unfold Timely at timely
    omega
  · intro ends known
    have last := second ends known
    unfold Timely at timely
    omega
  · rcases (s.m.apply_moved now e).leaves rests with same | removed | begun
    · exact .inl (by rw [show (s.step now e).m = s.m from same]; exact rests)
    · exact .inr (.inl removed)
    · exact .inr (.inr begun)

/-! ### Samples -/

def sender : Host where
  defaultGateway := some (.ofOctets 192 168 1 1 0)
  localIp := none
  udpSend _ _ := .ok ()
  udpMulticastSend _ _ := .error .io
  httpGet _ _ := .error .io
  httpPost _ _ _ := .error .notSupported

def router : NetAddr := .ofOctets 192 168 1 1 5351

/-- A NAT-PMP reply that grants a mapping of some port for so many seconds. -/
def grantReply (opcode : UInt8) (seconds : Nat) : Bytes :=
  [0, opcode, 0, 0, 0, 0, 0, 1] ++ toBe16 6881 ++ toBe16 6881 ++ toBe32 seconds

/-- Both mappings are granted at once, for so many seconds each; a tick follows a second later. -/
def granting (seconds : Nat) : List (Nat × Event) :=
  [(0, .start), (0, .tick sender), (0, .datagram router ([0, 0, 0, 0, 0, 0, 0, 1] ++ [203, 0, 113, 9])), (0, .tick sender),
    (0, .datagram router (grantReply 1 seconds)), (0, .tick sender), (0, .datagram router (grantReply 2 seconds)),
    (1000, .tick sender)]

def enabledCfg : PortMapConfig := { enabled := true, udpPort := 6881, tcpPort := 6881 }

/-- Mappings that are granted for a second end while the mapper rests. -/
theorem leases_expire : ∃ s, Run enabledCfg Timely s ∧ s.m.phase = .mapped ∧ s.now = 1000 ∧
      s.tcp = some ⟨false, some 1000, none, sender.defaultGateway⟩ ∧ s.udp = some ⟨false, some 1000, none, sender.defaultGateway⟩ := by
  have fits : Fits Timely (.new enabledCfg 0) (granting 1) := by decide
  refine ⟨_, run_play (.new 0) fits, ?_, ?_, ?_, ?_⟩ <;> rfl

/-- Mappings that are granted for an hour are there a second later. -/
theorem renewed_in_time_hour :
    ∃ u t, (play (.new enabledCfg 0) (granting 3600)).udp = some u ∧ (play (.new enabledCfg 0) (granting 3600)).tcp = some t ∧
      u.Alive 2000 ∧ t.Alive 2000 := by
  have fits : Fits (fun s now e => Timely s now e ∧ Ample s now e) (.new enabledCfg 0) (granting 3600) := by decide
  obtain ⟨u, t, udp, tcp, alive⟩ := renewed_in_time rfl (run_play (.new 0) fits) rfl
  have next := alive 2000 (.tick sender) (by decide) (by decide)
  exact ⟨u, t, udp, tcp, next.1, next.2.1⟩

end Mapper

end TypeBit.PortMap
