import TypeBit.Dht.Freshness

/-! What makes the DHT engine believe an external address or port (`dht.rs`). Responses vote, one vote for each IP; a vote lasts
ten minutes, and three of them settle the matter, whatever else was voted for and in whatever order. -/

namespace TypeBit.Dht
open Metainfo

/-! ### One poll -/

structure Poll (κ : Type) [LinearOrder κ] where
  votes : OrdMap κ (List (NetAddr × Nat))
  confirmed : Option κ

namespace Poll
variable {κ : Type} [LinearOrder κ]

def tally (p : Poll κ) (key : κ) (witness : NetAddr) (now : Nat) : List (NetAddr × Nat) :=
  vote ((p.votes.get? key).getD []) witness now

def cast (limit : Nat) (p : Poll κ) (key : κ) (witness : NetAddr) (now : Nat) : Poll κ where
  votes := capped limit (p.votes.insert key (p.tally key witness now))
  confirmed := if EXTERNAL_MIN_WITNESSES ≤ (p.tally key witness now).length then some key else p.confirmed

def after (limit : Nat) (p : Poll κ) (now : Nat) : Option (κ × NetAddr) → Poll κ
  | none => p
  | some (key, witness) => p.cast limit key witness now

end Poll

structure Cast (reports : Moment → NetAddr → Prop) (log : List Moment) (votes : List (NetAddr × Nat)) : Prop where
  distinct : (votes.map fun v => addrKey v.1).Nodup
  reported : ∀ v ∈ votes, ∃ m ∈ log, m.now = v.2 ∧ reports m v.1

variable {reports : Moment → NetAddr → Prop} {log : List Moment} {votes : List (NetAddr × Nat)}

theorem Cast.later (cast : Cast reports log votes) (more : List Moment) : Cast reports (log ++ more) votes where
  distinct := cast.distinct
  reported v member := by
    obtain ⟨m, listed, told⟩ := cast.reported v member
    exact ⟨m, List.mem_append_left more listed, told⟩

theorem Cast.nil (reports : Moment → NetAddr → Prop) (log : List Moment) : Cast reports log [] :=
  ⟨List.nodup_nil, fun _ member => nomatch member⟩

variable {m : Moment} {witness : NetAddr}

theorem Cast.vote (cast : Cast reports log votes) (told : reports m witness) :
    Cast reports (log ++ [m]) (vote votes witness m.now) := by
  have before := cast.later [m]
  unfold Dht.vote
  dsimp only
  split
  next =>
    refine ⟨before.distinct.sublist (List.filter_sublist.map _), fun v member => ?_⟩
    exact before.reported v (List.mem_filter.mp member).1
  next new =>
    have unheard : addrKey witness ∉ votes.map fun v => addrKey v.1 := by
      intro member
      obtain ⟨v, inside, same⟩ := List.mem_map.mp member
      exact new (List.any_eq_true.mpr ⟨v, inside, decide_eq_true same⟩)
    have all : Cast reports (log ++ [m]) (votes ++ [(witness, m.now)]) := by
      constructor
      · rw [List.map_append, List.map_singleton]
        refine List.nodup_append.mpr ⟨before.distinct, List.nodup_singleton _, ?_⟩
        rintro key inOld same inNew rfl
        exact unheard (List.mem_singleton.mp inNew ▸ inOld)
      · intro v member
        rcases List.mem_append.mp member with old | last
        · exact before.reported v old
        · cases List.mem_singleton.mp last
          exact ⟨m, List.mem_append_right _ (List.mem_singleton.mpr rfl), rfl, told⟩
    exact ⟨all.distinct.sublist (List.filter_sublist.map _), fun v member => all.reported v (List.mem_filter.mp member).1⟩

variable {now : Nat}

theorem young_of_vote {v : NetAddr × Nat} (member : v ∈ vote votes witness now) : now - v.2 < EXTERNAL_WITNESS_TTL_MS := by
  unfold vote at member
  exact of_decide_eq_true (List.mem_filter.mp member).2

/-- At least three reports from distinct IPs, none of them ten minutes old. -/
def Attested (reports : Moment → NetAddr → Prop) (log : List Moment) (now : Nat) : Prop :=
  ∃ votes : List (NetAddr × Nat), EXTERNAL_MIN_WITNESSES ≤ votes.length ∧ (votes.map fun v => ipOf v.1).Nodup ∧
    ∀ v ∈ votes, now - v.2 < EXTERNAL_WITNESS_TTL_MS ∧ ∃ m ∈ log, m.now = v.2 ∧ reports m v.1

theorem addrKey_congr {a b : NetAddr} (same : ipOf a = ipOf b) : addrKey a = addrKey b := by
  cases a with
  | v4 ip port =>
    cases b with
    | v4 ip' port' => exact congrArg (· ++ List.replicate 12 0) same
    | v6 ip' port' =>
      have lengths := congrArg List.length same
      simp only [ipOf] at lengths
      rw [ip.2, ip'.2] at lengths
      cases lengths
  | v6 ip port =>
    cases b with
    | v4 ip' port' =>
      have lengths := congrArg List.length same
      simp only [ipOf] at lengths
      rw [ip.2, ip'.2] at lengths
      cases lengths
    | v6 ip' port' => exact same

theorem Cast.attested (cast : Cast reports log votes) (enough : EXTERNAL_MIN_WITNESSES ≤ votes.length)
    (young : ∀ v ∈ votes, now - v.2 < EXTERNAL_WITNESS_TTL_MS) : Attested reports log now := by
  refine ⟨votes, enough, ?_, fun v member => ⟨young v member, cast.reported v member⟩⟩
  have keys := cast.distinct
  rw [List.Nodup, List.pairwise_map] at keys ⊢
  exact keys.imp fun differ same => differ (addrKey_congr same)

/-! ### A poll through a run -/

section Polling
variable {κ : Type} [LinearOrder κ] {digests : Digests} {limit : Nat} {poll : Dht → Poll κ}
  {ballot : Moment → Option (κ × NetAddr)}

def Moment.settles (poll : Dht → Poll κ) (ballot : Moment → Option (κ × NetAddr)) (m : Moment) : Option κ :=
  (ballot m).bind fun b =>
    if EXTERNAL_MIN_WITNESSES ≤ ((poll m.engine).tally b.1 b.2 m.now).length then some b.1 else none

structure Polling (digests : Digests) (limit : Nat) (poll : Dht → Poll κ) (ballot : Moment → Option (κ × NetAddr)) : Prop where
  new : ∀ id port secret, poll (.new id port secret) = ⟨∅, none⟩
  spared : ∀ d e, Spares d e → poll e = poll d
  tick : ∀ d now, ballot ⟨d, .tick, now⟩ = none ∧ poll (d.tick now) = poll d
  datagram : ∀ d source payload now, poll (d.handleDatagram digests source payload now).2 =
    (poll d).after limit now (ballot ⟨d, .datagram source payload, now⟩)

/-- Every vote was cast in the log, what is confirmed is what was settled last, and what was settled had three witnesses. -/
structure Counted (poll : Dht → Poll κ) (ballot : Moment → Option (κ × NetAddr)) (log : List Moment) (d : Dht) : Prop where
  cast : ∀ key votes, (poll d).votes.get? key = some votes → Cast (fun m w => ballot m = some (key, w)) log votes
  confirmed : (poll d).confirmed = (log.filterMap (Moment.settles poll ballot)).getLast?
  attested : ∀ pre m, pre ++ [m] <+: log → ∀ key, m.settles poll ballot = some key →
    Attested (fun x w => ballot x = some (key, w)) (pre ++ [m]) m.now

theorem ballot_of_settles {m : Moment} {key : κ} (settles : m.settles poll ballot = some key) :
    ∃ witness, ballot m = some (key, witness) := by
  unfold Moment.settles at settles
  obtain ⟨⟨voted, witness⟩, cast, counted⟩ := Option.bind_eq_some_iff.mp settles
  split at counted
  · cases counted
    exact ⟨witness, cast⟩
  · cases counted

theorem Counted.idle {log : List Moment} {m : Moment} {e : Dht} (counted : Counted poll ballot log m.engine)
    (silent : ballot m = none) (same : poll e = poll m.engine) : Counted poll ballot (log ++ [m]) e := by
  have unsettled : m.settles poll ballot = none := by
    unfold Moment.settles
    rw [silent, Option.bind_none]
  constructor
  · intro key votes found
    rw [same] at found
    exact (counted.cast key votes found).later [m]
  · rw [same, counted.confirmed, List.filterMap_append, List.filterMap_cons_none unsettled, List.filterMap_nil, List.append_nil]
  · intro pre x listed key settled
    rcases listed_concat listed with ⟨-, rfl⟩ | earlier
    · cases unsettled.symm.trans settled
    · exact counted.attested pre x earlier key settled

theorem Counted.voted {log : List Moment} {m : Moment} {e : Dht} (counted : Counted poll ballot log m.engine) {key : κ}
    {witness : NetAddr} (voted : ballot m = some (key, witness)) (cast : poll e = (poll m.engine).cast limit key witness m.now) :
    Counted poll ballot (log ++ [m]) e := by
  have settles : m.settles poll ballot =
      if EXTERNAL_MIN_WITNESSES ≤ ((poll m.engine).tally key witness m.now).length then some key else none := by
    unfold Moment.settles
    rw [voted, Option.bind_some]
  have before : Cast (fun m w => ballot m = some (key, w)) log (((poll m.engine).votes.get? key).getD []) := by
    cases found : (poll m.engine).votes.get? key with
    | none => exact Cast.nil _ _
    | some votes => exact counted.cast key votes found
  have tallied : Cast (fun m w => ballot m = some (key, w)) (log ++ [m]) ((poll m.engine).tally key witness m.now) :=
    before.vote voted
  constructor
  · intro other votes found
    rw [cast] at found
    have inserted := get?_of_capped found
    rw [OrdMap.get?_insert] at inserted
    split at inserted
    next here =>
      cases inserted
      cases here
      exact tallied
    next => exact (counted.cast other votes inserted).later [m]
  · rw [cast, List.filterMap_append]
    show (if _ then some key else (poll m.engine).confirmed) = _
    by_cases enough : EXTERNAL_MIN_WITNESSES ≤ ((poll m.engine).tally key witness m.now).length
    · rw [if_pos enough] at settles ⊢
      rw [List.filterMap_cons_some settles, List.filterMap_nil, List.getLast?_concat]
    · rw [if_neg enough] at settles ⊢
      rw [List.filterMap_cons_none settles, List.filterMap_nil, List.append_nil, counted.confirmed]
  · intro pre x listed settledKey settled
    rcases listed_concat listed with ⟨rfl, rfl⟩ | earlier
    · rw [settles] at settled
      split at settled
      next enough =>
        cases settled
        exact tallied.attested enough fun v member => young_of_vote member
      next => cases settled
    · exact counted.attested pre x earlier settledKey settled

theorem Polling.counted (polling : Polling digests limit poll ballot) {log : List Moment} {d : Dht}
    (run : Run digests watching log d) : Counted poll ballot log d := by
  apply spared_run (P := Counted poll ballot) run
  · intro id port secret
    have empty := polling.new id port secret
    constructor
    · intro key votes found
      rw [empty] at found
      cases found
    · rw [empty]
      rfl
    · exact fun pre m listed => absurd listed (not_listed_nil pre m)
  · intro log d e counted spared
    have same := polling.spared d e spared
    exact ⟨same ▸ counted.cast, same ▸ counted.confirmed, counted.attested⟩
  · intro log d now counted
    obtain ⟨silent, same⟩ := polling.tick d now
    exact Counted.idle counted silent same
  · intro log d source payload now counted
    have after := polling.datagram d source payload now
    cases voted : ballot ⟨d, .datagram source payload, now⟩ with
    | none =>
      rw [voted] at after
      exact Counted.idle counted voted after
    | some b =>
      rw [voted] at after
      exact Counted.voted counted voted after

end Polling

/-! ### The two polls of the engine -/

def Moment.heard (m : Moment) : Option (Bytes × NetAddr) :=
  match m.act with
  | .tick => none
  | .datagram source payload =>
      match decode payload with
      | .ok { body := .response _ _ (some compact), .. } => some (compact, source)
      | _ => none

def Moment.Reports (m : Moment) (witness : NetAddr) (ip : Bytes) : Prop :=
  ∃ compact port, m.heard = some (compact, witness) ∧ observation compact = some (ip, port) ∧ isRoutable ip = true

def Moment.ReportsPort (m : Moment) (witness : NetAddr) (port : Nat) : Prop :=
  ∃ compact ip, m.heard = some (compact, witness) ∧ observation compact = some (ip, some port) ∧ isRoutable ip = true ∧ port ≠ 0

def addressReport (compact : Bytes) : Option Bytes := ((observation compact).map Prod.fst).filter isRoutable

def portReport (compact : Bytes) : Option Nat :=
  (observation compact).bind fun o => if isRoutable o.1 then o.2.filter (fun port => decide (port ≠ 0)) else none

def addressPoll (d : Dht) : Poll Bytes := ⟨d.externalWitnesses, d.confirmedExternal⟩

def portPoll (d : Dht) : Poll Nat := ⟨d.externalPortWitnesses, d.confirmedExternalPort⟩

def addressBallot (m : Moment) : Option (Bytes × NetAddr) := m.heard.bind fun h => (addressReport h.1).map fun ip => (ip, h.2)

def portBallot (m : Moment) : Option (Nat × NetAddr) := m.heard.bind fun h => (portReport h.1).map fun port => (port, h.2)

theorem reports_of_ballot {ip : Bytes} (voted : addressBallot m = some (ip, witness)) : m.Reports witness ip := by
  unfold addressBallot at voted
  obtain ⟨⟨compact, sender⟩, heard, found⟩ := Option.bind_eq_some_iff.mp voted
  obtain ⟨key, report, same⟩ := Option.map_eq_some_iff.mp found
  cases same
  obtain ⟨known, routable⟩ := Option.filter_eq_some_iff.mp report
  obtain ⟨⟨address, port⟩, observed, rfl⟩ := Option.map_eq_some_iff.mp known
  exact ⟨compact, port, heard, observed, routable⟩

theorem reportsPort_of_ballot {port : Nat} (voted : portBallot m = some (port, witness)) : m.ReportsPort witness port := by
  unfold portBallot at voted
  obtain ⟨⟨compact, sender⟩, heard, found⟩ := Option.bind_eq_some_iff.mp voted
  obtain ⟨key, report, same⟩ := Option.map_eq_some_iff.mp found
  cases same
  unfold portReport at report
  obtain ⟨⟨ip, observedPort⟩, observed, inside⟩ := Option.bind_eq_some_iff.mp report
  split at inside
  next routable =>
    obtain ⟨given, nonzero⟩ := Option.filter_eq_some_iff.mp inside
    cases given
    exact ⟨compact, ip, heard, observed, routable, of_decide_eq_true nonzero⟩
  next => cases inside

theorem polls_observeExternal (d : Dht) (compact : Bytes) (witness : NetAddr) (now : Nat) :
    (d.observeExternal compact witness now).addressPoll = (match addressReport compact with
      | none => d.addressPoll
      | some ip => d.addressPoll.cast EXTERNAL_MAX_OBSERVED ip witness now) ∧
    (d.observeExternal compact witness now).portPoll = (match portReport compact with
      | none => d.portPoll
      | some port => d.portPoll.cast 32 port witness now) := by
  cases seen : observation compact with
  | none =>
    simp only [observeExternal, addressReport, portReport, seen]
    exact ⟨rfl, rfl⟩
  | some o =>
    obtain ⟨ip, port⟩ := o
    cases routable : isRoutable ip with
    | false =>
      have address : addressReport compact = none := by
        simp [addressReport, seen, Option.filter, routable]
      have ports : portReport compact = none := by
        simp [portReport, seen, routable]
      simp only [observeExternal, seen, routable, address, ports]
      exact ⟨rfl, rfl⟩
    | true =>
      have address : addressReport compact = some ip := by
        simp [addressReport, seen, Option.filter, routable]
      have ports : portReport compact = port.filter (fun port => decide (port ≠ 0)) := by
        simp [portReport, seen, routable]
      simp only [observeExternal, seen, routable, address, ports]
      cases port with
      | none => exact ⟨rfl, rfl⟩
      | some number =>
        cases number with
        | zero => exact ⟨rfl, rfl⟩
        | succ number => exact ⟨rfl, rfl⟩

theorem polls_of_observed {d e : Dht} (same : e.observed = d.observed) :
    e.addressPoll = d.addressPoll ∧ e.portPoll = d.portPoll := by
  obtain ⟨witnesses, rest⟩ := Prod.mk.inj same
  obtain ⟨confirmed, ports⟩ := Prod.mk.inj rest
  obtain ⟨portWitnesses, confirmedPort⟩ := Prod.mk.inj ports
  unfold addressPoll portPoll
  rw [witnesses, confirmed, portWitnesses, confirmedPort]
  exact ⟨rfl, rfl⟩

theorem observed_query {digests : Digests} {d : Dht} {payload t : Bytes} {q : Method} {args : Args}
    (read : decode payload = .ok { t, body := .query q args }) (source : NetAddr) (now : Nat) :
    (d.handleDatagram digests source payload now).2.observed = d.observed := by
  unfold handleDatagram
  rw [read]
  dsimp only
  unfold answer
  cases q with
  | ping => rfl
  | findNode => rfl
  | getPeers => rfl
  | announcePeer =>
    dsimp only
    split
    · split
      · rfl
      · rfl
    · rfl

theorem polls_datagram (digests : Digests) (d : Dht) (source : NetAddr) (payload : Bytes) (now : Nat) :
    (d.handleDatagram digests source payload now).2.addressPoll =
      d.addressPoll.after EXTERNAL_MAX_OBSERVED now (addressBallot ⟨d, .datagram source payload, now⟩) ∧
    (d.handleDatagram digests source payload now).2.portPoll =
      d.portPoll.after 32 now (portBallot ⟨d, .datagram source payload, now⟩) := by
  unfold addressBallot portBallot Moment.heard
  dsimp only
  cases read : decode payload with
  | error e =>
    unfold handleDatagram
    rw [read]
    exact ⟨rfl, rfl⟩
  | ok msg =>
    obtain ⟨t, body⟩ := msg
    cases body with
    | query q args => exact polls_of_observed (observed_query read source now)
    | response id resp ip =>
      rw [handleDatagram_response read]
      obtain ⟨address, port⟩ := polls_of_observed (spares_onResponse d source t id resp ip now).observed
      rw [address, port]
      cases ip with
      | none => exact ⟨rfl, rfl⟩
      | some compact =>
        obtain ⟨counted, countedPort⟩ :=
          polls_observeExternal { d with table := d.table.onResponse id source now } compact source now
        unfold noted
        rw [counted, countedPort]
        dsimp only [Option.bind_some]
        constructor
        · cases addressReport compact with
          | none => rfl
          | some ip => rfl
        · cases portReport compact with
          | none => rfl
          | some port => rfl
    | error code text =>
      rw [handleDatagram_error read]
      exact polls_of_observed (spares_onError d t now).observed

theorem addressPolling (digests : Digests) : Polling digests EXTERNAL_MAX_OBSERVED addressPoll addressBallot where
  new _ _ _ := rfl
  spared _ _ spared := (polls_of_observed spared.observed).1
  tick d now := ⟨rfl, (polls_of_observed (ticked_tick d now).observed).1⟩
  datagram d source payload now := (polls_datagram digests d source payload now).1

theorem portPolling (digests : Digests) : Polling digests 32 portPoll portBallot where
  new _ _ _ := rfl
  spared _ _ spared := (polls_of_observed spared.observed).2
  tick d now := ⟨rfl, (polls_of_observed (ticked_tick d now).observed).2⟩
  datagram d source payload now := (polls_datagram digests d source payload now).2

def Moment.setsAddress : Moment → Option Bytes := Moment.settles addressPoll addressBallot

def Moment.setsPort : Moment → Option Nat := Moment.settles portPoll portBallot

theorem Attested.imp {reports told : Moment → NetAddr → Prop}
    (attested : Attested reports log now) (weaker : ∀ m w, reports m w → told m w) : Attested told log now := by
  obtain ⟨votes, enough, distinct, cast⟩ := attested
  refine ⟨votes, enough, distinct, fun v member => ?_⟩
  obtain ⟨young, m, listed, time, reported⟩ := cast v member
  exact ⟨young, m, listed, time, weaker m v.1 reported⟩

/-- In every run the external address is the one that an act set last, and whenever an act sets it, three responses from distinct
IPs, none of them ten minutes old, reported that address, which is routable; and so for the port. -/
theorem external_needs_witnesses {digests : Digests} {log : List Moment} {d : Dht} (run : Run digests watching log d) :
    d.confirmedExternal = (log.filterMap Moment.setsAddress).getLast? ∧
    d.confirmedExternalPort = (log.filterMap Moment.setsPort).getLast? ∧
    ∀ pre m, pre ++ [m] <+: log →
      (∀ ip, m.setsAddress = some ip → isRoutable ip = true ∧ Attested (fun x w => x.Reports w ip) (pre ++ [m]) m.now) ∧
      ∀ port, m.setsPort = some port → Attested (fun x w => x.ReportsPort w port) (pre ++ [m]) m.now := by
  have address := (addressPolling digests).counted run
  have ports := (portPolling digests).counted run
  refine ⟨address.confirmed, ports.confirmed, fun pre m listed => ⟨fun ip sets => ?_, fun port sets => ?_⟩⟩
  · obtain ⟨witness, voted⟩ := ballot_of_settles sets
    obtain ⟨compact, port, -, -, routable⟩ := reports_of_ballot voted
    exact ⟨routable, (address.attested pre m listed ip sets).imp fun _ _ => reports_of_ballot⟩
  · exact (ports.attested pre m listed port sets).imp fun _ _ => reportsPort_of_ballot

/-! ### Three responses -/

def responder (b : UInt8) : NetAddr := .ofOctets 192 0 2 b 6881

def sighting : Bytes := encode { t := [1], body := .response lone.id (.ping lone.id) (some [203, 0, 113, 9]) }

def toldOnce : Dht := (fresh.handleDatagram noDigests (responder 1) sighting 0).2

def toldTwice : Dht := (toldOnce.handleDatagram noDigests (responder 2) sighting 1).2

def believing : Dht := (toldTwice.handleDatagram noDigests (responder 3) sighting 2).2

def sightings : List Moment :=
  [⟨fresh, .datagram (responder 1) sighting, 0⟩, ⟨toldOnce, .datagram (responder 2) sighting, 1⟩]

theorem external_needs_witnesses_of_three :
    believing.confirmedExternal = some ([203, 0, 113, 9] ++ List.replicate 12 0) ∧
    Attested (fun x w => x.Reports w ([203, 0, 113, 9] ++ List.replicate 12 0))
      (sightings ++ [⟨toldTwice, .datagram (responder 3) sighting, 2⟩]) 2 := by
  have run : Run noDigests watching (sightings ++ [⟨toldTwice, .datagram (responder 3) sighting, 2⟩]) believing :=
    (((Run.new _ _ _).datagram (responder 1) sighting 0).datagram (responder 2) sighting 1).datagram (responder 3) sighting 2
  have sets : Moment.setsAddress ⟨toldTwice, .datagram (responder 3) sighting, 2⟩ =
      some ([203, 0, 113, 9] ++ List.replicate 12 0) := by decide
  exact ⟨by decide, (((external_needs_witnesses run).2.2 _ _ (List.prefix_refl _)).1 _ sets).2⟩

end TypeBit.Dht
