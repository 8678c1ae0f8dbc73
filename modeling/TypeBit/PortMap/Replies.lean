import TypeBit.PortMap.Removal

/-! Which NAT-PMP replies change the port mapper: those of the kind its phase waits for, whoever sent them and whether or not a request
is on its way. -/

namespace TypeBit.PortMap
open Option
open Wire

namespace PortMapManager
variable {m : PortMapManager} {addr : NetAddr} {data : Bytes} {now : Nat}

/-- A reply of the kind that the phase waits for. -/
def Awaited (m : PortMapManager) (data : Bytes) : Prop :=
  (m.phase = .natPmpProbe ∧ data.length = 12 ∧ data.getD 1 0 = NAT_PMP_PUBLIC_ADDR) ∨
    (m.phase = .natPmpMapping ∧ data.length = 16 ∧ m.protocol.map MapProtocol.natPmpOpcode = some (data.getD 1 0))

theorem isNatPmp_parts (natPmp : isNatPmp addr data = true) : 8 ≤ data.length ∧ data.getD 0 0 = NAT_PMP_VERSION := by
  unfold isNatPmp at natPmp
  simp only [Bool.and_eq_true, decide_eq_true_eq, beq_iff_eq] at natPmp
  exact natPmp.1

theorem parse_iff (long : 8 ≤ data.length) (version : data.getD 0 0 = NAT_PMP_VERSION) :
    (∃ resp, NatPmpResponse.parse data = .ok resp) ↔
      (data.getD 1 0 = NAT_PMP_PUBLIC_ADDR ∧ data.length = 12) ∨
        ((data.getD 1 0 = NAT_PMP_MAP_UDP ∨ data.getD 1 0 = NAT_PMP_MAP_TCP) ∧ data.length = 16) := by
  have good : ¬ (data.length < 8 ∨ data.getD 0 0 ≠ NAT_PMP_VERSION) := by
    intro bad
    rcases bad with short | other
    · omega
    · exact other version
  have distinct : data.getD 1 0 = NAT_PMP_PUBLIC_ADDR → ¬ (data.getD 1 0 = NAT_PMP_MAP_UDP ∨ data.getD 1 0 = NAT_PMP_MAP_TCP) := by
    intro address
    rw [address]
    decide
  have failed : ¬ ∃ _ : NatPmpResponse, False := fun found => found.choose_spec
  unfold NatPmpResponse.parse
  simp only [if_neg good]
  split_ifs with address short mapping short
  · exact iff_of_false failed fun either => either.elim (fun fine => short fine.2) fun fine => distinct address fine.1
  · exact iff_of_true ⟨_, rfl⟩ (.inl ⟨address, not_not.mp short⟩)
  · exact iff_of_false failed fun either => either.elim (fun fine => address fine.1) fun fine => short fine.2
  · exact iff_of_true ⟨_, rfl⟩ (.inr ⟨mapping, not_not.mp short⟩)
  · exact iff_of_false failed fun either => either.elim (fun fine => address fine.1) fun fine => mapping fine.1

theorem parse_opcode {resp : NatPmpResponse} (parsed : NatPmpResponse.parse data = .ok resp) : resp.opcode = data.getD 1 0 := by
  unfold NatPmpResponse.parse at parsed
  simp only at parsed
  split_ifs at parsed
  · cases parsed
    rfl
  · cases parsed
    rfl

theorem opcode_of_getD {opcode : UInt8} (mapping : opcode = NAT_PMP_MAP_UDP ∨ opcode = NAT_PMP_MAP_TCP) :
    opcode = (m.protocol.map MapProtocol.natPmpOpcode).getD 0xFF ↔ m.protocol.map MapProtocol.natPmpOpcode = some opcode := by
  cases m.protocol with
  | none =>
    refine iff_of_false ?_ fun no => by cases no
    rcases mapping with udp | tcp
    · rw [udp]
      decide
    · rw [tcp]
      decide
  | some p => exact ⟨fun same => congrArg some same.symm, fun same => (some.inj same).symm⟩

theorem onNatPmpReply_kept (natPmp : isNatPmp addr data = true) (other : ¬ Awaited m data) : (m.onNatPmpReply data now).2 = m := by
  obtain ⟨long, version⟩ := isNatPmp_parts natPmp
  unfold onNatPmpReply
  cases parsed : NatPmpResponse.parse data with
  | error e => rfl
  | ok resp =>
    have opcode := parse_opcode parsed
    have shape := (parse_iff long version).mp ⟨resp, parsed⟩
    rw [← opcode] at shape
    simp only
    by_cases address : resp.opcode = NAT_PMP_PUBLIC_ADDR
    · have phase : m.phase ≠ .natPmpProbe := by
        intro probe
        rcases shape with ⟨-, short⟩ | ⟨mapping, -⟩
        · exact other (.inl ⟨probe, short, opcode ▸ address⟩)
        · rw [address] at mapping
          exact absurd mapping (by decide)
      rw [if_pos address, if_pos phase]
    · rw [if_neg address]
      by_cases mapping : resp.opcode = NAT_PMP_MAP_UDP ∨ resp.opcode = NAT_PMP_MAP_TCP
      · have foreign : m.phase ≠ .natPmpMapping ∨ resp.opcode ≠ (m.protocol.map MapProtocol.natPmpOpcode).getD 0xFF := by
          by_contra own
          obtain ⟨phase, same⟩ := not_or.mp own
          rcases shape with ⟨no, -⟩ | ⟨-, short⟩
          · exact address no
          · exact other (.inr ⟨not_not.mp phase, short, opcode ▸ (opcode_of_getD mapping).mp (not_not.mp same)⟩)
        rw [if_pos mapping, if_pos foreign]
      · rw [if_neg mapping]

theorem onNatPmpReply_changes (ordered : Ordered m) (natPmp : isNatPmp addr data = true) (awaited : Awaited m data) :
    (m.onNatPmpReply data now).2 ≠ m := by
  obtain ⟨long, version⟩ := isNatPmp_parts natPmp
  rcases awaited with ⟨phase, short, address⟩ | ⟨phase, short, own⟩
  · obtain ⟨resp, parsed⟩ := (parse_iff long version).mpr (.inl ⟨address, short⟩)
    have opcode : resp.opcode = NAT_PMP_PUBLIC_ADDR := (parse_opcode parsed).trans address
    unfold onNatPmpReply
    simp only [parsed, if_pos opcode, phase, ne_eq, not_true_eq_false, if_false]
    split_ifs
    all_goals
      intro same
      have phases := congrArg PortMapManager.phase same
      rw [phase] at phases
      cases phases
  · obtain ⟨p, proto, same⟩ := map_eq_some_iff.mp own
    have mapping : data.getD 1 0 = NAT_PMP_MAP_UDP ∨ data.getD 1 0 = NAT_PMP_MAP_TCP := by
      rw [← same]
      cases p
      · exact .inl rfl
      · exact .inr rfl
    obtain ⟨resp, parsed⟩ := (parse_iff long version).mpr (.inr ⟨mapping, short⟩)
    have opcode := parse_opcode parsed
    rw [← opcode] at mapping own
    have address : resp.opcode ≠ NAT_PMP_PUBLIC_ADDR := by
      intro no
      rw [no] at mapping
      exact absurd mapping (by decide)
    have foreign : ¬ (m.phase ≠ .natPmpMapping ∨ resp.opcode ≠ (m.protocol.map MapProtocol.natPmpOpcode).getD 0xFF) :=
      not_or.mpr ⟨not_not.mpr phase, not_not.mpr ((opcode_of_getD mapping).mpr own)⟩
    have works : Working m.phase := Ordered.working phase (by decide)
    unfold onNatPmpReply
    simp only [parsed, if_neg address, if_pos mapping, if_neg foreign]
    split_ifs with fine unsupported
    · intro kept
      cases p with
      | udp =>
        have mapped := @onMappingSuccess_udp { m with usingUpnp := false } now proto (ordered.single works)
        rw [mapped] at kept
        have protocols := congrArg PortMapManager.protocol kept
        rw [proto] at protocols
        cases protocols
      | tcp =>
        have mapped := @onMappingSuccess_tcp { m with usingUpnp := false } now proto (ordered.second proto)
        rw [mapped] at kept
        have phases := congrArg PortMapManager.phase kept
        rw [phase] at phases
        cases phases
    all_goals
      intro kept
      have phases := congrArg PortMapManager.phase kept
      rw [phase] at phases
      cases phases

end PortMapManager

namespace Mapper
open PortMapManager
variable {s : Mapper} {now : Nat} {e : Event}

/-- The request that is on its way is the one its phase sends, and it went to the gateway. -/
structure Waiting (s : Mapper) : Prop where
  sent : s.m.sentAt ≠ none → s.m.phase = .natPmpProbe ∨ s.m.phase = .natPmpMapping →
    ∃ gw req, s.m.gateway = some gw ∧ s.flight = some (withPort gw NAT_PMP_PORT, req.encode) ∧ Asked s.m req
  flown : s.flight ≠ none → s.m.sentAt ≠ none

theorem Waiting.new (cfg : PortMapConfig) (now : Nat) : Waiting (.new cfg now) where
  sent no := absurd rfl no
  flown no := absurd rfl no

theorem waiting_of_none {m : PortMapManager} (moved : (s.step now e).m = m)
    (idle : m.sentAt = none ∨ (m.phase ≠ .natPmpProbe ∧ m.phase ≠ .natPmpMapping)) :
    (s.step now e).m.sentAt ≠ none → (s.step now e).m.phase = .natPmpProbe ∨ (s.step now e).m.phase = .natPmpMapping →
      ∃ gw req, (s.step now e).m.gateway = some gw ∧ (s.step now e).flight = some (withPort gw NAT_PMP_PORT, req.encode) ∧
        Asked (s.step now e).m req := by
  intro sent phase
  rw [moved] at sent phase
  rcases idle with idle | ⟨probe, mapping⟩
  · exact absurd idle sent
  · exact absurd phase (not_or.mpr ⟨probe, mapping⟩)

theorem onMappingSuccess_sentAt (m : PortMapManager) (now external : Nat) : (m.onMappingSuccess now external).sentAt = none := by
  unfold onMappingSuccess
  simp only
  split_ifs <;> rfl

theorem Waiting.step (waiting : Waiting s) : Waiting (s.step now e) := by
  have flight : (s.step now e).flight =
      if (s.step now e).m.sentAt = none then none else ((s.m.apply now e).2.findSome? Call.datagram?).or s.flight := rfl
  constructor
  · have moved := s.m.apply_moved now e
    obtain ⟨m', result⟩ : ∃ m', (s.step now e).m = m' := ⟨_, rfl⟩
    rw [show (s.m.apply now e).1 = m' from result] at moved
    cases moved with
    | kept calls =>
      intro sent phase
      rw [result] at sent phase flight
      rw [if_neg sent, calls] at flight
      rw [result, flight]
      exact waiting.sent sent phase
    | asked gw req host kind keeps calls =>
      intro sent phase
      rw [result] at sent flight
      rw [if_neg sent, calls] at flight
      rw [result, flight]
      exact ⟨gw, req, rfl, rfl, kind⟩
    | searching phase => exact waiting_of_none result (.inr (by rw [phase]; decide))
    | described url phase => exact waiting_of_none result (.inr ⟨fun no => (by cases no), fun no => (by cases no)⟩)
    | deleted host tick phase =>
      refine waiting_of_none result (.inr ?_)
      rw [s.m.stepUnmapping_fst host now]
      split_ifs
      · exact phase ▸ (by decide)
      · exact ⟨fun no => (by cases no), fun no => (by cases no)⟩
    | granted p g external proto phase url grant => exact waiting_of_none result (.inl (onMappingSuccess_sentAt _ _ _))
    | started phase =>
      have begins : ¬ (s.m.phase ≠ .idle ∧ s.m.phase ≠ .done) := fun both => phase.elim both.1 both.2
      refine waiting_of_none result (.inl ?_)
      unfold start
      rw [if_neg begins]
    | unmapped unmap phase =>
      refine waiting_of_none result (.inl ?_)
      unfold PortMapManager.unmap
      rw [if_pos phase]
    | _ => exact waiting_of_none result (.inl rfl)
  · intro flown idle
    rw [flight, if_pos idle] at flown
    exact flown rfl

theorem run_waiting {cfg : PortMapConfig} {Ok : Mapper → Nat → Event → Prop} (run : Run cfg Ok s) : Waiting s := by
  induction run with
  | new now => exact .new cfg now
  | step run later ok ih => exact ih.step

/-- A request of a kind is on its way to an endpoint. -/
def Outstanding (s : Mapper) (addr : NetAddr) (opcode : UInt8) : Prop :=
  ∃ req : NatPmpRequest, s.flight = some (addr, req.encode) ∧ req.opcode = opcode

variable {addr : NetAddr} {data : Bytes}

theorem outstanding_iff (waiting : Waiting s) (awaited : Awaited s.m data) :
    Outstanding s addr (data.getD 1 0) ↔
      s.m.sentAt.isSome = true ∧ s.m.gateway.map (fun gw => withPort gw NAT_PMP_PORT) = some addr := by
  have phase : s.m.phase = .natPmpProbe ∨ s.m.phase = .natPmpMapping := Or.imp And.left And.left awaited
  constructor
  · intro outstanding
    obtain ⟨req, flies, -⟩ := outstanding
    have sent := waiting.flown (by rw [flies]; exact some_ne_none _)
    obtain ⟨gw, req', known, flight, -⟩ := waiting.sent sent phase
    rw [flight] at flies
    rw [known, map_some, (Prod.mk.inj (some.inj flies)).1]
    exact ⟨isSome_iff_ne_none.mpr sent, rfl⟩
  · intro fine
    obtain ⟨sent, target⟩ := fine
    obtain ⟨gw, req, known, flight, asked⟩ := waiting.sent (isSome_iff_ne_none.mp sent) phase
    rw [known, map_some, some.injEq] at target
    refine ⟨req, target ▸ flight, ?_⟩
    rcases asked with ⟨probe, rfl⟩ | ⟨mapping, p, proto, rfl⟩
    · rcases awaited with ⟨-, -, address⟩ | ⟨no, -, -⟩
      · exact address.symm
      · rw [probe] at no
        cases no
    · rcases awaited with ⟨no, -, -⟩ | ⟨-, -, own⟩
      · rw [mapping] at no
        cases no
      · rw [proto] at own
        exact some.inj own

/-- Only what the gateway answered changes the mapper exactly where a reply that is awaited comes from the gateway while its request is
on its way. -/
theorem gateway_only_iff {cfg : PortMapConfig} {Ok : Mapper → Nat → Event → Prop} (run : Run cfg Ok s)
    (natPmp : isNatPmp addr data = true) (now : Nat) :
    ((s.m.handleDatagram addr data now).2 ≠ s.m → Outstanding s addr (data.getD 1 0)) ↔
      (Awaited s.m data → s.m.sentAt.isSome = true ∧ s.m.gateway.map (fun gw => withPort gw NAT_PMP_PORT) = some addr) := by
  have handled : (s.m.handleDatagram addr data now).2 = (s.m.onNatPmpReply data now).2 := by
    unfold handleDatagram
    rw [natPmp]
    rfl
  have ordered := (run_sound run).2.ordered
  have waiting := run_waiting run
  rw [handled]
  by_cases awaited : Awaited s.m data
  · have changes := @onNatPmpReply_changes s.m addr data now ordered natPmp awaited
    rw [← outstanding_iff waiting awaited]
    exact ⟨fun only _ => only changes, fun only _ => only awaited⟩
  · have kept := @onNatPmpReply_kept s.m addr data now natPmp awaited
    exact ⟨fun _ yes => absurd yes awaited, fun _ changes => absurd kept changes⟩

/-! ### Samples -/

/-- The mapping request for UDP is sent, and the gateway's reply is not there yet. -/
def asking : List (Nat × Event) :=
  [(0, .start), (0, .tick sender), (0, .datagram router ([0, 0, 0, 0, 0, 0, 0, 1] ++ [203, 0, 113, 9])), (0, .tick sender)]

def stranger : NetAddr := .ofOctets 203 0 113 66 5351

/-- A stranger's reply makes the mapper go on to the TCP mapping. -/
theorem stranger_trusted :
    ∃ s, Run enabledCfg (fun _ _ _ => True) s ∧ (s.m.handleDatagram stranger (grantReply 1 3600) 10).2.mappedUdp = true ∧
      s.m.mappedUdp = false ∧ ¬ Outstanding s stranger 1 := by
  have fits : Fits (fun _ _ _ => True) (.new enabledCfg 0) asking := by simp [Fits, asking, Mapper.step, Mapper.new]
  have flight : (play (.new enabledCfg 0) asking).flight.map Prod.fst = some router := by decide
  refine ⟨_, run_play (.new 0) fits, by decide, by decide, ?_⟩
  intro outstanding
  obtain ⟨req, flies, -⟩ := outstanding
  rw [flies, map_some, some.injEq] at flight
  have same : stranger = router := flight
  exact absurd same (by decide)

/-- The gateway's reply to the request. -/
theorem gateway_only_iff_router :
    (play (.new enabledCfg 0) asking).Outstanding router 1 := by
  have fits : Fits (fun _ _ _ => True) (.new enabledCfg 0) asking := by simp [Fits, asking, Mapper.step, Mapper.new]
  have only := @gateway_only_iff (play (.new enabledCfg 0) asking) router (grantReply 1 3600) enabledCfg _ (run_play (.new 0) fits)
    (by decide) 10
  refine only.mpr (fun _ => ⟨by decide, by decide⟩) ?_
  intro kept
  have held := congrArg PortMapManager.mappedUdp kept
  exact absurd held (by decide)

end Mapper

end TypeBit.PortMap
