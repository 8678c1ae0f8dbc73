import TypeBit.Trackers.Announce

/-! Whose state a UDP tracker datagram changes. A session takes it for the first of its requests with that number,
whoever sent it; requests made at the same time have the same number. -/

namespace TypeBit.Trackers
open Metainfo Wire Session Option

variable {H : Type}

namespace Sessions

def tracker? (st : Sessions H) (hash : InfoHash) (idx : Nat) : Option TrackerState :=
  (st.all.get? hash).bind fun a => a.trackers[idx]?

end Sessions

structure Arrival (H : Type) where
  st : Sessions H
  env : Env
  addr : NetAddr
  payload : Bytes

namespace Arrival

def after (host : UdpHost H) (v : Arrival H) : Sessions H := v.st.onDatagram host v.env v.addr v.payload

/-- The datagram answers a request: it has the request's number, an action for its phase, and comes from the endpoint
the request went to. -/
def Answers (v : Arrival H) (hash : InfoHash) (idx : Nat) : Prop :=
  ∃ t, v.st.tracker? hash idx = some t ∧ t.takes v.payload = true ∧ t.udp.currentAddr = some v.addr

/-- The tracker is the first of its session whose request has the number, in a phase for the action. -/
def Reacts (v : Arrival H) (hash : InfoHash) (idx : Nat) : Prop :=
  isTrackerDatagram v.payload = true ∧
    ∃ a, v.st.all.get? hash = some a ∧ a.trackers.findIdx? (TrackerState.takes v.payload) = some idx

/-- A datagram that answers a request changes no other session and no other tracker, and one that answers none
changes nothing. -/
def Isolated (host : UdpHost H) (v : Arrival H) : Prop :=
  (∀ hash idx, v.Answers hash idx →
    (∀ other, other ≠ hash → (v.after host).all.get? other = v.st.all.get? other) ∧
      ∀ j, j ≠ idx → (v.after host).tracker? hash j = v.st.tracker? hash j) ∧
  ((∀ hash idx, ¬ v.Answers hash idx) → v.after host = v.st)

/-- Each tracker that reacts sent its request to the source of the datagram, and no other request is answered. -/
def Undisputed (v : Arrival H) : Prop :=
  (∀ hash idx, v.Reacts hash idx → v.Answers hash idx) ∧
    ∀ hash idx other j, v.Reacts hash idx → v.Answers other j → other = hash ∧ j = idx

end Arrival

/-! ### One session -/

section session
variable (host : UdpHost H) (env : Env) (addr : NetAddr) (data : Bytes)

theorem Announcer.quiet {a : Announcer} (none_takes : a.trackers.findIdx? (TrackerState.takes data) = none) (h : H) :
    a.onUdpTrackerDatagram host env addr data h = (a, h) := by
  unfold Announcer.onUdpTrackerDatagram
  rw [none_takes]

def Moves (a : Announcer) (idx : Nat) (t : TrackerState) (b : Announcer) : Prop :=
  ∃ t' : TrackerState, b.trackers = a.trackers.set idx t' ∧ t'.udp.phase ≠ t.udp.phase

theorem moves_onConnected (idx connId : Nat) {t : TrackerState} (a : Announcer) (h : H) (waiting : t.udp.phase = .connectSent) :
    Moves a idx t (a.onConnected host env idx connId t h).1 := by
  unfold Announcer.onConnected
  dsimp only
  split
  · exact ⟨_, rfl, by simp [waiting]⟩
  split
  · exact ⟨_, rfl, by simp [waiting]⟩
  · exact ⟨_, rfl, by simp [waiting]⟩

theorem moves_onReply (idx : Nat) {t : TrackerState} (a : Announcer) (h : H) (takes : t.takes data = true) :
    Moves a idx t (a.onReply host env data idx t h).1 := by
  unfold TrackerState.takes at takes
  obtain ⟨-, busy, -, -, action⟩ := of_decide_eq_true takes
  have resting : ∀ u : UdpTrackerState, u.phase = .idle → u.phase ≠ t.udp.phase := fun u idle same => busy (same ▸ idle)
  unfold Announcer.onReply
  split
  · exact ⟨_, rfl, resting _ (by simp)⟩
  next noError =>
    split
    next idle => exact absurd idle busy
    next waiting =>
      split
      · exact moves_onConnected host env idx _ a h waiting
      · exact ⟨_, rfl, resting _ (by simp)⟩
    next waiting =>
      split
      · exact ⟨_, rfl, resting _ (by simp)⟩
      · exact ⟨_, rfl, resting _ (by simp)⟩

theorem moves_onUdpTrackerDatagram {a : Announcer} {idx : Nat}
    (first : a.trackers.findIdx? (TrackerState.takes data) = some idx) (h : H) :
    ∃ t, a.trackers[idx]? = some t ∧ t.takes data = true ∧ Moves a idx t (a.onUdpTrackerDatagram host env addr data h).1 := by
  obtain ⟨inside, takes, -⟩ := List.findIdx?_eq_some_iff_getElem.mp first
  have here : a.trackers[idx]? = some a.trackers[idx] := List.getElem?_eq_getElem inside
  refine ⟨_, here, takes, ?_⟩
  unfold Announcer.onUdpTrackerDatagram
  rw [first]
  dsimp only
  rw [here]
  exact moves_onReply host env data idx a h takes

end session

/-! ### All sessions -/

theorem get?_onSession (call : Announcer → H → Announcer × H) (st : Sessions H) (hash other : InfoHash) :
    (st.onSession call hash).all.get? other =
      if hash = other then (st.all.get? other).map fun a => (call a st.host).1 else st.all.get? other := by
  unfold Sessions.onSession
  split
  next absent =>
    split
    next same =>
      rw [← same, absent]
      rfl
    next => rfl
  next a found =>
    rw [OrdMap.get?_insert]
    split
    next same =>
      rw [← same, found]
      rfl
    next => rfl

theorem get?_onEach (call : Announcer → H → Announcer × H) {keys : List InfoHash} (distinct : keys.Nodup) (st : Sessions H)
    (hash : InfoHash) :
    (hash ∉ keys → (keys.foldl (Sessions.onSession call) st).all.get? hash = st.all.get? hash) ∧
      (hash ∈ keys → ∃ h, (keys.foldl (Sessions.onSession call) st).all.get? hash =
        (st.all.get? hash).map fun a => (call a h).1) := by
  induction keys generalizing st with
  | nil => exact ⟨fun _ => rfl, fun member => nomatch member⟩
  | cons key rest ih =>
    obtain ⟨absent, others⟩ := List.nodup_cons.mp distinct
    obtain ⟨outside, inside⟩ := ih others (st.onSession call key)
    rw [List.foldl_cons]
    constructor
    · intro missing
      obtain ⟨other, later⟩ := not_or.mp (fun member => missing (List.mem_cons.mpr member))
      rw [outside later, get?_onSession, if_neg (Ne.symm other)]
    · intro member
      rcases List.mem_cons.mp member with same | later
      · subst same
        exact ⟨st.host, by rw [outside absent, get?_onSession, if_pos rfl]⟩
      · obtain ⟨h, value⟩ := inside later
        have other : key ≠ hash := fun same => absent (same ▸ later)
        exact ⟨h, by rw [value, get?_onSession, if_neg other]⟩

theorem onEach_same (call : Announcer → H → Announcer × H) (keys : List InfoHash) (st : Sessions H)
    (same : ∀ hash a h, st.all.get? hash = some a → call a h = (a, h)) : keys.foldl (Sessions.onSession call) st = st := by
  induction keys with
  | nil => rfl
  | cons key rest ih =>
    have first : st.onSession call key = st := by
      unfold Sessions.onSession
      split
      · rfl
      next a found =>
        rw [same key a st.host found]
        have kept : st.all.insert key a = st.all := by
          ext k : 1
          rw [OrdMap.get?_insert]
          split
          next here => rw [← here, found]
          next => rfl
        rw [kept]
    rw [List.foldl_cons, first, ih]

namespace Arrival
variable {host : UdpHost H} {v : Arrival H}

theorem get?_after (forTrackers : isTrackerDatagram v.payload = true) (hash : InfoHash) :
    ∃ h, (v.after host).all.get? hash =
      (v.st.all.get? hash).map fun a => (a.onUdpTrackerDatagram host v.env v.addr v.payload h).1 := by
  unfold after Sessions.onDatagram
  rw [if_pos forTrackers]
  obtain ⟨outside, inside⟩ := get?_onEach (Announcer.onUdpTrackerDatagram host v.env v.addr v.payload)
    v.st.all.keys_nodup v.st hash
  by_cases member : hash ∈ v.st.all.keys
  · exact inside member
  · have absent : v.st.all.get? hash = none := by
      by_contra present
      obtain ⟨a, found⟩ := ne_none_iff_exists'.mp present
      exact member ((OrdMap.mem_keys_iff _ hash).mpr ⟨a, found⟩)
    exact ⟨v.st.host, by rw [outside member, absent]; rfl⟩

theorem get?_after_quiet {hash : InfoHash} (quiet : ∀ idx, ¬ v.Reacts hash idx) :
    (v.after host).all.get? hash = v.st.all.get? hash := by
  by_cases forTrackers : isTrackerDatagram v.payload = true
  · obtain ⟨h, value⟩ := @get?_after H host v forTrackers hash
    rw [value]
    cases found : v.st.all.get? hash with
    | none => rfl
    | some a =>
      have silent : a.trackers.findIdx? (TrackerState.takes v.payload) = none := by
        by_contra some_takes
        obtain ⟨idx, first⟩ := ne_none_iff_exists'.mp some_takes
        exact quiet idx ⟨forTrackers, a, found, first⟩
      rw [map_some, Announcer.quiet host v.env v.addr v.payload silent]
  · unfold after Sessions.onDatagram
    rw [if_neg forTrackers]

theorem after_quiet (quiet : ∀ hash idx, ¬ v.Reacts hash idx) : v.after host = v.st := by
  unfold after Sessions.onDatagram
  split
  next forTrackers =>
    refine onEach_same _ _ v.st ?_
    intro hash a h found
    refine Announcer.quiet host v.env v.addr v.payload ?_ h
    by_contra some_takes
    obtain ⟨idx, first⟩ := ne_none_iff_exists'.mp some_takes
    exact quiet hash idx ⟨forTrackers, a, found, first⟩
  next => rfl

theorem tracker?_after {hash : InfoHash} {idx : Nat} (reacts : v.Reacts hash idx) :
    (v.after host).tracker? hash idx ≠ v.st.tracker? hash idx ∧
      ∀ j, j ≠ idx → (v.after host).tracker? hash j = v.st.tracker? hash j := by
  obtain ⟨forTrackers, a, found, first⟩ := reacts
  obtain ⟨h, value⟩ := @get?_after H host v forTrackers hash
  obtain ⟨t, here, -, t', moved, phase⟩ := moves_onUdpTrackerDatagram host v.env v.addr v.payload first h
  have inside : idx < a.trackers.length := (List.getElem?_eq_some_iff.mp here).1
  rw [found, map_some] at value
  unfold Sessions.tracker?
  rw [value, found]
  simp only [bind_some, moved]
  constructor
  · rw [List.getElem?_set_self inside, here]
    intro same
    exact phase (congrArg (fun s => s.udp.phase) (some.inj same))
  · intro j other
    rw [List.getElem?_set_ne (Ne.symm other)]

theorem isolated_of_undisputed (undisputed : v.Undisputed) : v.Isolated host := by
  obtain ⟨fromSource, sole⟩ := undisputed
  constructor
  · intro hash idx answers
    -- Whatever reacts is the answered request itself.
    have only : ∀ other j, v.Reacts other j → hash = other ∧ idx = j := fun other j reacts => sole other j hash idx reacts answers
    constructor
    · intro other different
      exact get?_after_quiet fun j reacts => different (only other j reacts).1.symm
    · intro j different
      by_cases reacts : v.Reacts hash idx
      · exact (tracker?_after reacts).2 j different
      · have quiet : ∀ k, ¬ v.Reacts hash k := fun k other => reacts ((only hash k other).2 ▸ other)
        unfold Sessions.tracker?
        rw [get?_after_quiet quiet]
  · intro unanswered
    exact after_quiet fun hash idx reacts => unanswered hash idx (fromSource hash idx reacts)

theorem undisputed_of_isolated (isolated : v.Isolated host) : v.Undisputed := by
  obtain ⟨others, nothing⟩ := isolated
  -- A tracker that reacts changes, so it is the one whose request is answered.
  have own : ∀ hash idx other j, v.Reacts hash idx → v.Answers other j → other = hash ∧ j = idx := by
    intro hash idx other j reacts answers
    have changed := (@tracker?_after H host v hash idx reacts).1
    obtain ⟨sessions, trackers⟩ := others other j answers
    by_cases same : other = hash
    · subst same
      refine ⟨rfl, ?_⟩
      by_contra different
      exact changed (trackers idx (Ne.symm different))
    · refine absurd ?_ changed
      unfold Sessions.tracker?
      rw [sessions hash (Ne.symm same)]
  refine ⟨?_, own⟩
  intro hash idx reacts
  by_cases unanswered : ∀ other j, ¬ v.Answers other j
  · refine absurd ?_ (@tracker?_after H host v hash idx reacts).1
    rw [nothing unanswered]
  · push Not at unanswered
    obtain ⟨other, j, answers⟩ := unanswered
    obtain ⟨sameSession, sameTracker⟩ := own hash idx other j reacts answers
    subst sameSession
    subst sameTracker
    exact answers

end Arrival

/-! ### Runs -/

inductive Event where
  | announce (env : Env) (hash : InfoHash) (event : TrackerEvent)
  | datagram (env : Env) (addr : NetAddr) (payload : Bytes)

namespace Sessions
variable (host : TrackerHost H)

def step (st : Sessions H) : Event → Sessions H
  | .announce env hash event => st.announce host env hash event
  | .datagram env addr payload => st.onDatagram host.toUdpHost env addr payload

def run (events : List Event) (st : Sessions H) : Sessions H := events.foldl (step host) st

def arrivals : List Event → Sessions H → List (Arrival H)
  | [], _ => []
  | .announce env hash event :: rest, st => arrivals rest (st.step host (.announce env hash event))
  | .datagram env addr payload :: rest, st =>
      ⟨st, env, addr, payload⟩ :: arrivals rest (st.step host (.datagram env addr payload))

def Announces (events : List Event) (hash : InfoHash) : Prop := ∃ env event, .announce env hash event ∈ events

theorem untouched (hash : InfoHash) (events : List Event) (st : Sessions H) (silent : ¬ Announces events hash)
    (undisputed : ∀ v ∈ arrivals host events st, v.Undisputed)
    (unanswered : ∀ v ∈ arrivals host events st, ∀ idx, ¬ v.Answers hash idx) :
    (run host events st).all.get? hash = st.all.get? hash := by
  induction events generalizing st with
  | nil => rfl
  | cons first rest ih =>
    have later : ¬ Announces rest hash := by
      rintro ⟨env, event, member⟩
      exact silent ⟨env, event, List.mem_cons_of_mem _ member⟩
    cases first with
    | announce env own event =>
      have other : own ≠ hash := by
        rintro rfl
        exact silent ⟨env, event, List.mem_cons_self ..⟩
      refine (ih (st.announce host env own event) later undisputed unanswered).trans ?_
      exact (get?_onSession _ st own hash).trans (if_neg other)
    | datagram env addr payload =>
      refine (ih (st.onDatagram host.toUdpHost env addr payload) later
        (fun v member => undisputed v (List.mem_cons_of_mem _ member))
        fun v member => unanswered v (List.mem_cons_of_mem _ member)).trans ?_
      have here := List.mem_cons_self (a := (⟨st, env, addr, payload⟩ : Arrival H))
        (l := arrivals host rest (st.step host (.datagram env addr payload)))
      have quiet : ∀ idx, ¬ Arrival.Reacts ⟨st, env, addr, payload⟩ hash idx := fun idx reacts =>
        unanswered _ here idx ((undisputed _ here).1 hash idx reacts)
      exact Arrival.get?_after_quiet quiet

end Sessions

/-- In every run each datagram stays with the request it answers exactly when each is undisputed, and then a session
that neither announces nor is answered keeps its state throughout. -/
theorem datagrams_isolated_iff (host : TrackerHost H) (events : List Event) (st : Sessions H) :
    ((∀ v ∈ st.arrivals host events, v.Isolated host.toUdpHost) ↔ ∀ v ∈ st.arrivals host events, v.Undisputed) ∧
      ((∀ v ∈ st.arrivals host events, v.Undisputed) → ∀ hash, ¬ Sessions.Announces events hash →
        (∀ v ∈ st.arrivals host events, ∀ idx, ¬ v.Answers hash idx) →
          (st.run host events).all.get? hash = st.all.get? hash) := by
  refine ⟨forall₂_congr fun v _ => ⟨Arrival.undisputed_of_isolated, Arrival.isolated_of_undisputed⟩, ?_⟩
  intro undisputed hash silent unanswered
  exact Sessions.untouched host hash events st silent undisputed unanswered

/-! ### Two sessions at the same time -/

def plainHost : TrackerHost Unit where
  udpSend := fun h _ _ => (.ok (), h)
  resolveHostAll := fun h _ _ => ([], h)
  httpGetAsync := fun h _ _ _ => (0, h)
  httpGet := fun h _ _ _ _ => (.error, h)

def tracked (hash : InfoHash) (url : String) : Announcer where
  sess := fromMagnet hash [] SessionConfig.default 0
  trackers := pushTracker [] (ascii url) 0

def hashA : InfoHash := .v1 (List.replicate 20 1)
def hashB : InfoHash := .v1 (List.replicate 20 2)

def bothSessions : Sessions Unit where
  all := ((∅ : OrdMap InfoHash Announcer).insert hashA (tracked hashA "udp://192.0.2.1:80")).insert hashB
    (tracked hashB "udp://192.0.2.2:80")
  host := ()

def atStart : Env := ⟨0, .replicate 20 0, 6881⟩

def announcing : List Event := [.announce atStart hashA .started, .announce atStart hashB .started]

def connected : Arrival Unit where
  st := bothSessions.run plainHost announcing
  env := atStart
  addr := .ofOctets 192 0 2 1 80
  payload := toBe32 ACTION_CONNECT ++ toBe32 (randU32 0) ++ toBe64 7

def replying : List Event := [.announce atStart hashA .started, .datagram atStart connected.addr connected.payload]

/-- The reply reaches the first session alone while the second one asks nothing. -/
theorem datagrams_isolated_replying :
    ((bothSessions.run plainHost replying).tracker? hashA 0).map (fun t => t.udp.connId) = some 7 ∧
      (bothSessions.run plainHost replying).all.get? hashB = bothSessions.all.get? hashB := by
  have entries : ∀ v ∈ bothSessions.arrivals plainHost replying, v.Answers hashA 0 ∧ ∀ e ∈ v.st.all.entries,
      e.1 = hashA ∧ e.2.trackers.length = 1 ∨ e.1 = hashB ∧ ∀ t ∈ e.2.trackers, t.takes v.payload = false := by
    intro v member
    cases List.mem_singleton.mp member
    have answered : ∃ t ∈ (bothSessions.run plainHost (replying.take 1)).tracker? hashA 0, t.takes connected.payload = true ∧
        t.udp.currentAddr = some connected.addr := by decide
    exact ⟨answered, by decide⟩
  have only : ∀ v ∈ bothSessions.arrivals plainHost replying, ∀ hash a idx t, v.st.all.get? hash = some a →
      a.trackers[idx]? = some t → t.takes v.payload = true → hash = hashA ∧ idx = 0 := by
    intro v member hash a idx t found listed takes
    rcases (entries v member).2 (hash, a) ((OrdMap.mem_entries_iff _ _ _).mpr found) with ⟨rfl, one⟩ | ⟨-, none⟩
    · obtain ⟨inside, -⟩ := List.getElem?_eq_some_iff.mp listed
      exact ⟨rfl, Nat.lt_one_iff.mp (inside.trans_eq one)⟩
    · cases (none t (List.mem_of_getElem? listed)).symm.trans takes
  have answers : ∀ v ∈ bothSessions.arrivals plainHost replying, ∀ hash idx, v.Answers hash idx → hash = hashA ∧ idx = 0 := by
    rintro v member hash idx ⟨t, found, takes, -⟩
    obtain ⟨a, held, listed⟩ := bind_eq_some_iff.mp found
    exact only v member hash a idx t held listed takes
  have reacts : ∀ v ∈ bothSessions.arrivals plainHost replying, ∀ hash idx, v.Reacts hash idx → hash = hashA ∧ idx = 0 := by
    rintro v member hash idx ⟨-, a, held, first⟩
    obtain ⟨inside, takes, -⟩ := List.findIdx?_eq_some_iff_getElem.mp first
    exact only v member hash a idx _ held (List.getElem?_eq_getElem inside) takes
  refine ⟨by decide, (datagrams_isolated_iff plainHost replying bothSessions).2 ?_ hashB ?_ ?_⟩
  · intro v member
    constructor
    · intro hash idx reacting
      obtain ⟨rfl, rfl⟩ := reacts v member hash idx reacting
      exact (entries v member).1
    · intro hash idx other j reacting answering
      obtain ⟨rfl, rfl⟩ := reacts v member hash idx reacting
      exact answers v member other j answering
  · have other : hashB ≠ hashA := by decide
    rintro ⟨env, event, member⟩
    simp [replying, other] at member
  · intro v member idx answering
    cases (answers v member hashB idx answering).1

/-- The reply of the first tracker gives the second session a connection id of a tracker it did not ask. -/
theorem reply_reaches_both_sessions :
    connected ∈ bothSessions.arrivals plainHost (announcing ++ [.datagram atStart connected.addr connected.payload]) ∧
    connected.Answers hashA 0 ∧ (connected.st.tracker? hashB 0).map (fun t => t.udp.connId) = some 0 ∧
    ((connected.after plainHost.toUdpHost).tracker? hashB 0).map (fun t => t.udp.connId) = some 7 ∧
    ¬ connected.Isolated plainHost.toUdpHost := by
  have answered : connected.Answers hashA 0 := by
    have facts : ∃ t ∈ connected.st.tracker? hashA 0, t.takes connected.payload = true ∧
        t.udp.currentAddr = some connected.addr := by decide
    exact facts
  refine ⟨List.mem_cons_self .., answered, by decide, by decide, ?_⟩
  rintro ⟨others, -⟩
  have same := (others hashA 0 answered).1 hashB (by decide)
  have changed : (connected.after plainHost.toUdpHost).tracker? hashB 0 ≠ connected.st.tracker? hashB 0 := by decide
  refine changed ?_
  unfold Sessions.tracker?
  rw [same]

end TypeBit.Trackers
