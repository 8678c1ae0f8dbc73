import TypeBit.Dht.Matching

/-! Whether lookups wait for their answers. A lookup ends as soon as its closest nodes are all queried, answered
or not; while no tick finds a lookup in that position with a query in flight, no answer is lost. -/

namespace TypeBit.Dht
open Metainfo OrdMap

/-- A query whose answer the lookup would take in. -/
def Awaited (l : Lookup) (p : Pending) : Prop :=
  p.kind = .lookup ∧ p.lookupTarget = some l.target ∧ p.node.id ∈ l.queried

instance (l : Lookup) (p : Pending) : Decidable (Awaited l p) := inferInstanceAs (Decidable (_ ∧ _ ∧ _))

def TimedOut (l : Lookup) (now : Nat) : Prop := LOOKUP_TIMEOUT_MS < now - l.started

instance (l : Lookup) (now : Nat) : Decidable (TimedOut l now) := inferInstanceAs (Decidable (_ < _))

/-- A lookup as a tick comes to drive it: the engine at that moment, its index and the time. -/
structure Visit where
  engine : Dht
  idx : Nat
  now : Nat

namespace Visit

/-- When the lookup is removed before its time is over, none of its queries is in flight. -/
def Waits (v : Visit) : Prop :=
  ∀ l, v.engine.lookups[v.idx]? = some l → (v.engine.driveLookup v.idx v.now).1 = true → ¬ TimedOut l v.now →
    ∀ tx p, v.engine.pending.get? tx = some p → ¬ Awaited l p

/-- The eight closest nodes that the lookup knows are all queried (or ourselves), it is in time, and one of its
queries is in flight. -/
def Premature (v : Visit) : Prop :=
  ∃ l, v.engine.lookups[v.idx]? = some l ∧ ¬ TimedOut l v.now ∧ v.engine.toQuery (v.engine.refreshed l) = [] ∧
    ∃ tx p, v.engine.pending.get? tx = some p ∧ Awaited l p

def FindsLate (v : Visit) (l : Lookup) : Prop := v.engine.lookups[v.idx]? = some l ∧ TimedOut l v.now

end Visit

def visits (now : Nat) : Nat → Nat → Dht → List Visit
  | 0, _, _ => []
  | fuel + 1, idx, d =>
      ⟨d, idx, now⟩ ::
        match d.driveLookup idx now with
        | (true, e) => visits now fuel idx { e with lookups := e.lookups.eraseIdx idx }
        | (false, e) => visits now fuel (idx + 1) e

def tickVisits (d : Dht) (now : Nat) : List Visit :=
  visits now (d.expirePending now).lookups.length 0 (d.expirePending now)

structure Observer (α : Type) where
  tick : Dht → Nat → List α := fun _ _ => []
  datagram : Dht → NetAddr → Bytes → Nat → List α := fun _ _ _ _ => []

/-- The runs of the public operations, with what an observer noted. -/
inductive Run {α : Type} (digests : Digests) (watch : Observer α) : List α → Dht → Prop
  | new (id : NodeId) (port : Nat) (secret : ByteArr 16) : Run digests watch [] (.new id port secret)
  | importNodes {log d} (before : Run digests watch log d) (entries : List Bytes) (now : Nat) :
      Run digests watch log (d.importNodes entries now).2
  | ping {log d} (before : Run digests watch log d) (node : NodeEntry) (now : Nat) : Run digests watch log (d.ping node now).2
  | bootstrap {log d} (before : Run digests watch log d) (seeds : List NetAddr) (now : Nat) :
      Run digests watch log (d.bootstrap seeds now)
  | getPeers {log d} (before : Run digests watch log d) (infoHash : ByteArr 20) (announcePort now : Nat) :
      Run digests watch log (d.getPeers infoHash announcePort now)
  | findNode {log d} (before : Run digests watch log d) (target : NodeId) (now : Nat) :
      Run digests watch log (d.findNode target now)
  | tick {log d} (before : Run digests watch log d) (now : Nat) : Run digests watch (log ++ watch.tick d now) (d.tick now)
  | datagram {log d} (before : Run digests watch log d) (source : NetAddr) (payload : Bytes) (now : Nat) :
      Run digests watch (log ++ watch.datagram d source payload now) (d.handleDatagram digests source payload now).2

def visiting : Observer Visit where
  tick := tickVisits

/-! ### One lookup -/

variable {d e : Dht} {idx : Nat} {l : Lookup}

theorem driveLookup_cases (here : d.lookups[idx]? = some l) (now : Nat) :
    (TimedOut l now ∧ d.driveLookup idx now = (true, (d.putLookup idx (d.refreshed l)).putLookup idx
      { d.refreshed l with done := true })) ∨ (¬ TimedOut l now ∧ d.toQuery (d.refreshed l) = [] ∧
      d.driveLookup idx now = (!l.queried.isEmpty, d.putLookup idx (d.refreshed l))) ∨
    (¬ TimedOut l now ∧ d.toQuery (d.refreshed l) ≠ [] ∧ d.driveLookup idx now = (false,
      queryNodes idx now (d.toQuery (d.refreshed l)) (d.refreshed l) (d.putLookup idx (d.refreshed l)))) := by
  have shape : d.driveLookup idx now =
      if TimedOut l now then (true, (d.putLookup idx (d.refreshed l)).putLookup idx { d.refreshed l with done := true })
      else if d.toQuery (d.refreshed l) = [] then (!l.queried.isEmpty, d.putLookup idx (d.refreshed l))
      else (false, queryNodes idx now (d.toQuery (d.refreshed l)) (d.refreshed l) (d.putLookup idx (d.refreshed l))) := by
    unfold driveLookup
    rw [here]
    rfl
  rw [shape]
  by_cases late : TimedOut l now
  · exact Or.inl ⟨late, if_pos late⟩
  · by_cases exhausted : d.toQuery (d.refreshed l) = []
    · exact Or.inr (Or.inl ⟨late, exhausted, by rw [if_neg late, if_pos exhausted]⟩)
    · exact Or.inr (Or.inr ⟨late, exhausted, by rw [if_neg late, if_neg exhausted]⟩)

theorem Visit.waits_iff (v : Visit) : v.Waits ↔ ¬ v.Premature := by
  constructor
  · rintro waits ⟨l, here, inTime, exhausted, tx, p, found, awaited⟩
    have asked : l.queried.isEmpty = false := List.isEmpty_eq_false_iff.mpr (List.ne_nil_of_mem awaited.2.2)
    have ended : (v.engine.driveLookup v.idx v.now).1 = true := by
      rcases driveLookup_cases here v.now with ⟨late, -⟩ | ⟨-, -, same⟩ | ⟨-, more, -⟩
      · exact absurd late inTime
      · rw [same, asked]
        rfl
      · exact absurd exhausted more
    exact waits l here ended inTime tx p found awaited
  · intro patient l here ended inTime tx p found awaited
    refine patient ⟨l, here, inTime, ?_, tx, p, found, awaited⟩
    rcases driveLookup_cases here v.now with ⟨late, -⟩ | ⟨-, exhausted, -⟩ | ⟨-, -, same⟩
    · exact absurd late inTime
    · exact exhausted
    · rw [same] at ended
      cases ended

/-! ### Every query has a lookup that awaits it -/

/-- A running lookup, or one that a visit found late. -/
def Holds (log : List Visit) (d : Dht) (l : Lookup) : Prop := l ∈ d.lookups ∨ ∃ v ∈ log, v.FindsLate l

/-- The lookups are open, and each query of a lookup is awaited by a running lookup or by one that ran out of time. -/
structure Covered (log : List Visit) (d : Dht) : Prop where
  unfinished : ∀ l ∈ d.lookups, l.done = false
  awaited : ∀ tx p, d.pending.get? tx = some p → p.kind = .lookup → ∃ l, Holds log d l ∧ Awaited l p

def Continues (l m : Lookup) : Prop := m.target = l.target ∧ l.queried ⊆ m.queried

theorem Continues.refl (l : Lookup) : Continues l l := ⟨rfl, List.Subset.refl _⟩

theorem Awaited.continues {l m : Lookup} {p q : Pending} (awaited : Awaited l p) (same : Continues l m)
    (kind : q.kind = p.kind) (target : q.lookupTarget = p.lookupTarget) (node : q.node = p.node) : Awaited m q := by
  refine ⟨kind.trans awaited.1, ?_, ?_⟩
  · rw [target, awaited.2.1, same.1]
  · rw [node]
    exact same.2 awaited.2.2

variable {log longer : List Visit}

theorem Covered.step (covered : Covered log d) (unfinished : ∀ l ∈ e.lookups, l.done = false)
    (kept : ∀ l tx p, Holds log d l → d.pending.get? tx = some p → Awaited l p → ∃ m, Holds longer e m ∧ Continues l m)
    (pending : ∀ tx p, e.pending.get? tx = some p → p.kind = .lookup →
      (∃ q, d.pending.get? tx = some q ∧ p.kind = q.kind ∧ p.lookupTarget = q.lookupTarget ∧ p.node = q.node) ∨
        ∃ m, Holds longer e m ∧ Awaited m p) : Covered longer e := by
  refine ⟨unfinished, ?_⟩
  intro tx p found kind
  rcases pending tx p found kind with ⟨q, before, sameKind, sameTarget, sameNode⟩ | held
  · obtain ⟨l, holds, awaited⟩ := covered.awaited tx q before (sameKind ▸ kind)
    obtain ⟨m, still, same⟩ := kept l tx q holds before awaited
    exact ⟨m, still, awaited.continues same sameKind sameTarget sameNode⟩
  · exact held

theorem Covered.fewer (covered : Covered log d) (lookups : e.lookups = d.lookups)
    (pending : ∀ tx p, e.pending.get? tx = some p → d.pending.get? tx = some p) : Covered log e := by
  refine covered.step ?_ ?_ ?_
  · rw [lookups]
    exact covered.unfinished
  · intro l tx p holds _ _
    exact ⟨l, by unfold Holds; rwa [lookups], .refl l⟩
  · intro tx p found _
    exact Or.inl ⟨p, pending tx p found, rfl, rfl, rfl⟩

theorem Covered.onlyTable (covered : Covered log d) (frame : OnlyTable d e) :
    Covered log e := covered.fewer frame.lookups fun tx p found => by rwa [frame.pending] at found

theorem Covered.settle (covered : Covered log d) {tx : Nat} (lookups : e.lookups = d.lookups)
    (pending : e.pending = d.pending.erase tx) : Covered log e := by
  refine covered.fewer lookups ?_
  intro other p found
  rw [pending] at found
  exact get?_of_erase found

theorem Covered.later (covered : Covered log d) (more : log ⊆ longer) : Covered longer d := by
  refine ⟨covered.unfinished, ?_⟩
  intro tx p found kind
  obtain ⟨l, running | ⟨v, member, late⟩, awaited⟩ := covered.awaited tx p found kind
  · exact ⟨l, Or.inl running, awaited⟩
  · exact ⟨l, Or.inr ⟨v, more member, late⟩, awaited⟩

theorem issue_pending (d : Dht) (node : NodeEntry) (method : Method) (args : Args) (kind : PendingKind)
    (lookupTarget : Option (ByteArr 20)) (now : Nat) :
    (d.issue node method args kind lookupTarget now).2.lookups = d.lookups ∧
      ((d.issue node method args kind lookupTarget now).2.pending = d.pending ∨
        ∃ tx p, (d.issue node method args kind lookupTarget now).2.pending = d.pending.insert tx p ∧
          p.kind = kind ∧ p.lookupTarget = lookupTarget ∧ p.node = node) := by
  unfold issue nextTx pushPending
  dsimp only
  split
  · exact ⟨rfl, Or.inl rfl⟩
  · exact ⟨rfl, Or.inr ⟨_, _, rfl, rfl, rfl, rfl⟩⟩

theorem covered_issue (covered : Covered log d) (node : NodeEntry) (method : Method)
    (args : Args) (kind : PendingKind) (lookupTarget : Option (ByteArr 20)) (now : Nat)
    (owned : kind = .lookup → ∃ l ∈ d.lookups, lookupTarget = some l.target ∧ node.id ∈ l.queried) :
    Covered log (d.issue node method args kind lookupTarget now).2 := by
  obtain ⟨lookups, same | ⟨tx, p, filed, isKind, isTarget, isNode⟩⟩ :=
    issue_pending d node method args kind lookupTarget now
  · exact covered.fewer lookups fun tx p found => by rwa [same] at found
  · refine covered.step (by rw [lookups]; exact covered.unfinished) ?_ ?_
    · intro l _ _ holds _ _
      exact ⟨l, by unfold Holds; rwa [lookups], .refl l⟩
    · intro other q found ofLookup
      rw [filed, get?_insert] at found
      split at found
      · cases found
        obtain ⟨l, running, target, queried⟩ := owned (isKind ▸ ofLookup)
        refine Or.inr ⟨l, Or.inl (by rwa [lookups]), ofLookup, isTarget.trans target, ?_⟩
        rwa [isNode]
      · exact Or.inl ⟨q, found, rfl, rfl, rfl⟩

/-! ### Driving the lookups -/

theorem mem_set_or {l m x : Lookup} {lookups : List Lookup} (here : lookups[idx]? = some l)
    (member : x ∈ lookups) : x = l ∨ x ∈ lookups.set idx m := by
  obtain ⟨i, at_i⟩ := List.mem_iff_getElem?.mp member
  by_cases same : i = idx
  · subst same
    exact Or.inl (Option.some.inj (at_i.symm.trans here))
  · refine Or.inr (List.mem_iff_getElem?.mpr ⟨i, ?_⟩)
    rw [List.getElem?_set_ne (Ne.symm same), at_i]

theorem mem_eraseIdx_or {l x : Lookup} {lookups : List Lookup} (here : lookups[idx]? = some l)
    (member : x ∈ lookups) : x = l ∨ x ∈ lookups.eraseIdx idx := by
  obtain ⟨i, at_i⟩ := List.mem_iff_getElem?.mp member
  by_cases same : i = idx
  · subst same
    exact Or.inl (Option.some.inj (at_i.symm.trans here))
  · exact Or.inr (List.mem_eraseIdx_iff_getElem?.mpr ⟨i, same, at_i⟩)

theorem covered_putLookup (covered : Covered log d) {l m : Lookup}
    (here : d.lookups[idx]? = some l) (same : Continues l m) (running : m.done = false) : Covered log (d.putLookup idx m) := by
  have inside : idx < d.lookups.length := (List.getElem?_eq_some_iff.mp here).1
  refine covered.step ?_ ?_ ?_
  · intro x member
    rcases List.mem_or_eq_of_mem_set member with old | new
    · exact covered.unfinished x old
    · rw [new, running]
  · rintro x _ _ (member | late) _ _
    · rcases mem_set_or (m := m) here member with isL | other
      · subst isL
        exact ⟨m, Or.inl (List.mem_set inside m), same⟩
      · exact ⟨x, Or.inl other, .refl x⟩
    · exact ⟨x, Or.inr late, .refl x⟩
  · intro tx p found _
    exact Or.inl ⟨p, found, rfl, rfl, rfl⟩

theorem covered_drop (covered : Covered log d)
    (here : d.lookups[idx]? = some l) (more : log ⊆ longer) (lookups : e.lookups = d.lookups.eraseIdx idx)
    (pending : e.pending = d.pending)
    (reason : (∃ v ∈ longer, v.FindsLate l) ∨ ∀ tx p, d.pending.get? tx = some p → ¬ Awaited l p) : Covered longer e := by
  refine covered.step ?_ ?_ ?_
  · intro x member
    rw [lookups] at member
    exact covered.unfinished x (List.mem_of_mem_eraseIdx member)
  · rintro x tx p (member | ⟨v, seen, late⟩) found awaited
    · rcases mem_eraseIdx_or here member with isL | other
      · subst isL
        rcases reason with late | idle
        · exact ⟨x, Or.inr late, .refl x⟩
        · exact absurd awaited (idle tx p found)
      · exact ⟨x, Or.inl (lookups ▸ other), .refl x⟩
    · exact ⟨x, Or.inr ⟨v, more seen, late⟩, .refl x⟩
  · intro tx p found _
    rw [pending] at found
    exact Or.inl ⟨p, found, rfl, rfl, rfl⟩

theorem covered_queryNodes (idx now : Nat) (nodes : List NodeEntry)
    (covered : Covered log d) (here : d.lookups[idx]? = some l) : Covered log (queryNodes idx now nodes l d) := by
  induction nodes generalizing l d with
  | nil => exact covered
  | cons node rest ih =>
    have inside : idx < d.lookups.length := (List.getElem?_eq_some_iff.mp here).1
    let m : Lookup := { l with queried := l.queried ++ [node.id] }
    have grows : Continues l m := ⟨rfl, List.subset_append_left _ _⟩
    have running : m.done = false := covered.unfinished l (List.mem_of_getElem? here)
    have placed : Covered log (d.putLookup idx m) := covered_putLookup covered here grows running
    have there : (d.putLookup idx m).lookups[idx]? = some m := List.getElem?_set_self inside
    have asked : node.id ∈ m.queried := List.mem_append_right _ (List.mem_singleton_self _)
    have issued := covered_issue placed node (lookupQuery (d.putLookup idx m) m).1 (lookupQuery (d.putLookup idx m) m).2
      .lookup (some m.target) now fun _ => ⟨m, List.mem_of_getElem? there, rfl, asked⟩
    have kept := (issue_pending (d.putLookup idx m) node (lookupQuery (d.putLookup idx m) m).1
      (lookupQuery (d.putLookup idx m) m).2 .lookup (some m.target) now).1
    unfold queryNodes
    dsimp only
    split
    next e filed =>
      rw [filed] at issued kept
      exact ih issued (by rw [kept]; exact there)
    next e refused =>
      rw [refused] at issued
      exact issued

theorem covered_driveLookup (covered : Covered log d) {idx now : Nat} (patient : ¬ Visit.Premature ⟨d, idx, now⟩) :
    (∀ e, d.driveLookup idx now = (true, e) → Covered (log ++ [⟨d, idx, now⟩]) { e with lookups := e.lookups.eraseIdx idx }) ∧
    ∀ e, d.driveLookup idx now = (false, e) → Covered (log ++ [⟨d, idx, now⟩]) e := by
  have more : log ⊆ log ++ [⟨d, idx, now⟩] := List.subset_append_left _ _
  cases here : d.lookups[idx]? with
  | none =>
    have same : d.driveLookup idx now = (false, d) := by
      unfold driveLookup
      rw [here]
    rw [same]
    refine ⟨fun e ended => (nomatch ended), ?_⟩
    rintro e ⟨⟩
    exact covered.later more
  | some l =>
    have member : (⟨d, idx, now⟩ : Visit) ∈ log ++ [⟨d, idx, now⟩] := List.mem_append_right _ (List.mem_singleton_self _)
    have running : (d.refreshed l).done = false := covered.unfinished l (List.mem_of_getElem? here)
    have placed : Covered log (d.putLookup idx (d.refreshed l)) := covered_putLookup covered here (.refl _) running
    have inside : idx < d.lookups.length := (List.getElem?_eq_some_iff.mp here).1
    rcases driveLookup_cases here now with ⟨late, same⟩ | ⟨inTime, exhausted, same⟩ | ⟨-, -, same⟩
    · rw [same]
      refine ⟨?_, fun e going => (nomatch going)⟩
      rintro e ⟨⟩
      refine covered_drop covered here more ?_ rfl (Or.inl ⟨_, member, here, late⟩)
      show ((d.lookups.set idx _).set idx _).eraseIdx idx = _
      rw [List.eraseIdx_set_eq, List.eraseIdx_set_eq]
    · rw [same]
      constructor
      · intro e ended
        cases (Prod.mk.inj ended).2
        refine covered_drop covered here more ?_ rfl (Or.inr ?_)
        · show (d.lookups.set idx _).eraseIdx idx = _
          rw [List.eraseIdx_set_eq]
        · intro tx p found awaited
          exact patient ⟨l, here, inTime, exhausted, tx, p, found, awaited⟩
      · intro e going
        cases (Prod.mk.inj going).2
        exact placed.later more
    · rw [same]
      refine ⟨fun e ended => (nomatch ended), ?_⟩
      rintro e ⟨⟩
      have there : (d.putLookup idx (d.refreshed l)).lookups[idx]? = some (d.refreshed l) := List.getElem?_set_self inside
      exact (covered_queryNodes idx now _ placed there).later more

theorem covered_driveLookups (now fuel idx : Nat) (covered : Covered log d)
    (patient : ∀ v ∈ visits now fuel idx d, ¬ v.Premature) :
    Covered (log ++ visits now fuel idx d) (driveLookups now fuel idx d) := by
  induction fuel generalizing idx log d with
  | zero => exact covered.later (List.subset_append_left _ _)
  | succ fuel ih =>
    have first := patient ⟨d, idx, now⟩ (List.mem_cons_self ..)
    obtain ⟨ended, going⟩ := covered_driveLookup covered first
    unfold visits at patient ⊢
    unfold driveLookups
    cases driven : d.driveLookup idx now with
    | mk stop e =>
      rw [driven] at patient
      cases stop with
      | true =>
        have rest := ih idx (ended e driven) fun v member => patient v (List.mem_cons_of_mem _ member)
        rwa [List.append_assoc] at rest
      | false =>
        have rest := ih (idx + 1) (going e driven) fun v member => patient v (List.mem_cons_of_mem _ member)
        rwa [List.append_assoc] at rest

theorem covered_expireOne (now : Nat) (d : Dht) (tx : Nat) (covered : Covered log d) : Covered log (expireOne now d tx) := by
  unfold expireOne
  split
  · exact covered
  next p found =>
    split
    · refine covered.step covered.unfinished (fun l _ _ holds _ _ => ⟨l, holds, .refl l⟩) ?_
      intro other q there _
      rw [get?_insert] at there
      split at there
      next here =>
        subst here
        cases there
        exact Or.inl ⟨p, found, rfl, rfl, rfl⟩
      next => exact Or.inl ⟨q, there, rfl, rfl, rfl⟩
    · exact covered.settle rfl rfl

theorem covered_tick (covered : Covered log d) (now : Nat)
    (patient : ∀ v ∈ tickVisits d now, ¬ v.Premature) : Covered (log ++ tickVisits d now) (d.tick now) := by
  have expired : Covered log (d.expirePending now) :=
    List.foldlRecOn _ _ covered fun e kept tx _ => covered_expireOne now e tx kept
  have driven := covered_driveLookups now _ 0 expired patient
  have pruned : ∀ (e : Dht) (h : Bytes), Covered (log ++ tickVisits d now) e →
      Covered (log ++ tickVisits d now) (pruneStore now e h) := by
    intro e h kept
    unfold pruneStore
    split
    · exact kept
    · exact kept.fewer rfl fun tx p found => found
  unfold tick
  dsimp only
  generalize driveLookups now (d.expirePending now).lookups.length 0 (d.expirePending now) = e at driven
  have stored := List.foldlRecOn (motive := Covered (log ++ tickVisits d now))
    ((e.peerStore.entries.filter fun s => s.2.all fun p => decide (p.2 ≤ now)).map Prod.fst) (pruneStore now) driven
    fun e kept h _ => pruned e h kept
  split
  · exact stored.fewer rfl fun tx p found => found
  · exact stored

theorem covered_started (covered : Covered log d) (running : l.done = false)
    (lookups : e.lookups = d.lookups ++ [l]) (pending : e.pending = d.pending) : Covered log e := by
  refine covered.step ?_ ?_ ?_
  · intro m member
    rw [lookups] at member
    rcases List.mem_append.mp member with old | new
    · exact covered.unfinished m old
    · rw [List.mem_singleton.mp new, running]
  · rintro m _ _ (old | late) _ _
    · exact ⟨m, Or.inl (lookups ▸ List.mem_append_left _ old), .refl m⟩
    · exact ⟨m, Or.inr late, .refl m⟩
  · intro tx p found _
    rw [pending] at found
    exact Or.inl ⟨p, found, rfl, rfl, rfl⟩

/-! ### What a reply brings to the lookups -/

theorem covered_sendAnnouncesIfReady (covered : Covered log d) (infoHash : ByteArr 20)
    (now : Nat) : Covered log (d.sendAnnouncesIfReady infoHash now) := by
  unfold sendAnnouncesIfReady
  split
  · exact covered
  next l _ =>
    apply List.foldlRecOn (motive := Covered log) _ (announceOne infoHash l.announcePort now) covered
    intro e kept holder _
    unfold announceOne
    split
    · exact kept
    · have noted : Covered log { e with announced := e.announced ++ [holder.1] } := kept.fewer rfl fun tx p found => found
      exact covered_issue noted _ _ _ _ _ now fun isLookup => nomatch isLookup

theorem lookups_announceOne (infoHash : ByteArr 20) (port now : Nat) (d : Dht) (holder : NetAddr × Bytes) :
    (announceOne infoHash port now d holder).lookups = d.lookups := by
  unfold announceOne
  split
  · rfl
  · exact (issue_pending { d with announced := d.announced ++ [holder.1] } _ _ _ _ _ now).1

theorem lookups_announces (infoHash : ByteArr 20) (port now : Nat) (holders : List (NetAddr × Bytes)) (d : Dht) :
    (holders.foldl (announceOne infoHash port now) d).lookups = d.lookups := by
  induction holders generalizing d with
  | nil => rfl
  | cons holder rest ih => rw [List.foldl_cons, ih, lookups_announceOne]

theorem lookups_sendAnnouncesIfReady (d : Dht) (infoHash : ByteArr 20) (now : Nat) :
    (d.sendAnnouncesIfReady infoHash now).lookups = d.lookups := by
  unfold sendAnnouncesIfReady
  split
  · rfl
  · exact lookups_announces infoHash _ now _ d

theorem lookups_contributed (d : Dht) (node : NodeEntry) (values : List NetAddr) (token : Bytes) (nodes : List NodeEntry)
    (tid : ByteArr 20) (now : Nat) : (contributed d node values token nodes tid now).lookups =
      d.lookups.map fun l => if awaits tid node l then contribute node values token nodes l else l := by
  unfold contributed
  rw [(cachePeers_frame _ tid values).2.2.1]

theorem pending_contributed (d : Dht) (node : NodeEntry) (values : List NetAddr) (token : Bytes) (nodes : List NodeEntry)
    (tid : ByteArr 20) (now : Nat) : (contributed d node values token nodes tid now).pending = d.pending := by
  unfold contributed
  rw [(cachePeers_frame _ tid values).2.1]
  exact (onlyTable_learnNodes nodes now d).pending

theorem covered_contributed (covered : Covered log d) (node : NodeEntry)
    (values : List NetAddr) (token : Bytes) (nodes : List NodeEntry) (tid : ByteArr 20) (now : Nat) :
    Covered log (contributed d node values token nodes tid now) := by
  refine covered.step ?_ ?_ ?_
  · intro m member
    rw [lookups_contributed] at member
    obtain ⟨l, running, rfl⟩ := List.mem_map.mp member
    split
    · exact covered.unfinished l running
    · exact covered.unfinished l running
  · rintro l _ _ (running | late) _ _
    · have member := List.mem_map_of_mem (f := fun l => if awaits tid node l then contribute node values token nodes l else l) running
      rw [← lookups_contributed] at member
      refine ⟨_, Or.inl member, ?_⟩
      split
      · exact ⟨rfl, List.Subset.refl _⟩
      · exact .refl l
    · exact ⟨l, Or.inr late, .refl l⟩
  · intro tx p found _
    rw [pending_contributed] at found
    exact Or.inl ⟨p, found, rfl, rfl, rfl⟩

theorem covered_onResponse (covered : Covered log d) (source : NetAddr) (t : Bytes)
    (id : NodeId) (resp : Resp) (ip : Option Bytes) (now : Nat) : Covered log (d.onResponse source t id resp ip now) := by
  cases found : d.pending.get? (txOf t) with
  | none =>
    rw [onResponse_unmatched found]
    exact covered.onlyTable (onlyTable_noted d source id ip now)
  | some p =>
    have taken : Covered log (settled d source t id ip now) :=
      covered.settle (onlyTable_noted d source id ip now).lookups rfl
    rw [onResponse_matched found]
    split
    · rw [consumeLookupResponse_eq]
      split
      · exact taken
      next values token nodes _ =>
        exact covered_sendAnnouncesIfReady (covered_contributed taken p.node values token nodes _ now) _ now
    · exact taken

theorem covered_handleDatagram (covered : Covered log d) (digests : Digests)
    (source : NetAddr) (payload : Bytes) (now : Nat) : Covered log (d.handleDatagram digests source payload now).2 := by
  cases read : decode payload with
  | error e =>
    unfold handleDatagram
    rw [read]
    exact covered
  | ok msg =>
    obtain ⟨t, body⟩ := msg
    cases body with
    | query q args => exact covered.onlyTable (onlyTable_query read source now)
    | response id resp ip =>
      rw [handleDatagram_response read]
      exact covered_onResponse covered source t id resp ip now
    | error code text =>
      rw [handleDatagram_error read]
      unfold onError
      split
      · exact covered
      · exact covered.settle rfl rfl

theorem covered_run {digests : Digests} (run : Run digests visiting log d)
    (patient : ∀ v ∈ log, ¬ v.Premature) : Covered log d := by
  induction run with
  | new id port secret => exact ⟨fun l member => (nomatch member), fun tx p found => nomatch found⟩
  | importNodes before entries now ih => exact (ih patient).onlyTable (onlyTable_importNodes entries now (0, _))
  | ping before node now ih => exact covered_issue (ih patient) node .ping _ .ping none now fun isLookup => nomatch isLookup
  | bootstrap before seeds now ih =>
    apply List.foldlRecOn (motive := Covered _) seeds (seedOne now) (ih patient)
    intro d covered s _
    have stored := covered.fewer (e := { d with table := (d.table.insert
      { id := NodeId.ZERO, addr := s, lastSeen := now, failed := 0 } now).2 }) rfl fun tx p found => found
    exact covered_issue stored _ .ping _ .ping none now fun isLookup => nomatch isLookup
  | getPeers before infoHash announcePort now ih =>
    unfold getPeers
    split
    · exact ih patient
    · exact covered_started (ih patient) rfl rfl rfl
  | findNode before target now ih => exact covered_started (ih patient) rfl rfl rfl
  | tick before now ih =>
    exact covered_tick (ih fun v member => patient v (List.mem_append_left _ member)) now
      fun v member => patient v (List.mem_append_right _ member)
  | datagram before source payload now ih =>
    rw [visiting, List.append_nil] at patient ⊢
    exact covered_handleDatagram (ih patient) digests source payload now

theorem contributes_reply {digests : Digests} (running : l ∈ d.lookups) (unfinished : l.done = false)
    {t payload : Bytes} {p : Pending} (found : d.pending.get? (txOf t) = some p) (awaited : Awaited l p) {id : NodeId}
    {resp : Resp} {ip : Option Bytes} (read : decode payload = .ok { t, body := .response id resp ip })
    {values : List NetAddr} {token : Bytes} {nodes : List NodeEntry} (parts : resp.parts = some (values, token, nodes))
    (source : NetAddr) (now : Nat) :
    contribute p.node values token nodes l ∈ (d.handleDatagram digests source payload now).2.lookups := by
  obtain ⟨kind, target, queried⟩ := awaited
  have awaits : awaits l.target p.node l = true := by
    simp only [awaits, unfinished, decide_true, Bool.not_false, Bool.true_and, List.contains_iff_mem, queried]
  rw [handleDatagram_response read, onResponse_matched found, if_pos kind, consumeLookupResponse_eq, parts, target]
  dsimp only [Option.getD_some]
  rw [lookups_sendAnnouncesIfReady, lookups_contributed]
  refine List.mem_map.mpr ⟨l, ?_, if_pos awaits⟩
  rw [settled, (onlyTable_noted d source id ip now).lookups]
  exact running

/-- The query is awaited by a running lookup, which takes in what any reply to it says, or by one whose time was over. -/
def Heeded (digests : Digests) (log : List Visit) (d : Dht) (tx : Nat) (p : Pending) : Prop :=
  (∃ l ∈ d.lookups, Awaited l p ∧ ∀ source payload t id resp ip values token nodes now, txOf t = tx →
    decode payload = .ok { t, body := .response id resp ip } → resp.parts = some (values, token, nodes) →
      contribute p.node values token nodes l ∈ (d.handleDatagram digests source payload now).2.lookups) ∨
  ∃ v ∈ log, ∃ l, v.FindsLate l ∧ Awaited l p

/-- Lookups wait for their answers exactly while no visit is premature, and then every reply that comes in time counts. -/
theorem lookups_wait_iff {digests : Digests} {log : List Visit} {d : Dht} (run : Run digests visiting log d) :
    ((∀ v ∈ log, v.Waits) ↔ ∀ v ∈ log, ¬ v.Premature) ∧
      ((∀ v ∈ log, ¬ v.Premature) → ∀ tx p, d.pending.get? tx = some p → p.kind = .lookup → Heeded digests log d tx p) := by
  refine ⟨forall₂_congr fun v _ => v.waits_iff, ?_⟩
  intro patient tx p found kind
  have covered := covered_run run patient
  obtain ⟨l, running | ⟨v, member, late⟩, awaited⟩ := covered.awaited tx p found kind
  · refine Or.inl ⟨l, running, awaited, ?_⟩
    intro source payload t id resp ip values token nodes now number read parts
    subst number
    exact contributes_reply running (covered.unfinished l running) found awaited read parts source now
  · exact Or.inr ⟨v, member, l, late, awaited⟩

/-! ### A lookup with one node -/

def sought : ByteArr 20 := ⟨List.replicate 20 9, rfl⟩

def seeking : Dht := (fresh.bootstrap [outsider] 0).getPeers sought 6881 0

def asking : Dht := seeking.tick 0

theorem run_asking : Run noDigests visiting (tickVisits seeking 0) asking :=
  (((Run.new _ _ _).bootstrap [outsider] 0).getPeers sought 6881 0).tick 0

theorem visits_one (now idx : Nat) (d : Dht) : visits now 1 idx d = [⟨d, idx, now⟩] := by
  unfold visits
  cases d.driveLookup idx now with
  | mk stop e =>
    cases stop with
    | true => rfl
    | false => rfl

theorem tickVisits_one {now : Nat} (one : (d.expirePending now).lookups.length = 1) :
    tickVisits d now = [⟨d.expirePending now, 0, now⟩] := by
  rw [tickVisits, one, visits_one]

theorem lookups_wait_of_first_tick : (∀ v ∈ tickVisits seeking 0, v.Waits) ∧
    ∃ p, asking.pending.get? 2 = some p ∧ p.kind = .lookup ∧ Heeded noDigests (tickVisits seeking 0) asking 2 p := by
  have idle : ∀ e ∈ (seeking.expirePending 0).pending.entries, e.2.kind ≠ .lookup := by decide
  have patient : ∀ v ∈ tickVisits seeking 0, ¬ v.Premature := by
    rw [tickVisits_one (by decide)]
    intro v member
    cases List.mem_singleton.mp member
    rintro ⟨l, -, -, -, tx, p, found, awaited⟩
    exact idle (tx, p) ((mem_entries_iff _ tx p).mpr found) awaited.1
  have issued : (asking.pending.get? 2).map Pending.kind = some .lookup := by decide
  obtain ⟨p, found, kind⟩ := Option.map_eq_some_iff.mp issued
  obtain ⟨waits, heeded⟩ := lookups_wait_iff run_asking
  exact ⟨waits.mpr patient, p, found, kind, heeded patient 2 p found kind⟩

/-- The next tick ends the lookup although its only query is in flight. -/
theorem lookup_leaves_query_behind : Run noDigests visiting (tickVisits seeking 0 ++ tickVisits asking 0) (asking.tick 0) ∧
    (asking.tick 0).lookups = [] ∧ ((asking.tick 0).pending.get? 2).map Pending.kind = some .lookup ∧
    ∃ v ∈ tickVisits asking 0, ¬ v.Waits := by
  refine ⟨run_asking.tick 0, by decide, by decide, ?_⟩
  rw [tickVisits_one (by decide)]
  refine ⟨_, List.mem_singleton_self _, ?_⟩
  rw [Visit.waits_iff, not_not]
  have facts : ((asking.expirePending 0).lookups[0]?.any fun l => ((asking.expirePending 0).pending.get? 2).any fun p =>
      decide (¬ TimedOut l 0 ∧ (asking.expirePending 0).toQuery ((asking.expirePending 0).refreshed l) = [] ∧ Awaited l p)) =
      true := by decide
  obtain ⟨l, here, facts⟩ := (Option.any_eq_true _ _).mp facts
  obtain ⟨p, found, facts⟩ := (Option.any_eq_true _ _).mp facts
  obtain ⟨inTime, exhausted, awaited⟩ := of_decide_eq_true facts
  exact ⟨l, here, inTime, exhausted, 2, p, found, awaited⟩

end TypeBit.Dht
