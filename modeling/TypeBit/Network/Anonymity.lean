import TypeBit.Network.Model

/-! An engine with a proxy. As long as no UDP tracker is added by hand and no tick looks for DHT seeds, every call that
leaves the machine is a connection to the proxy; a tick that looks for seeds asks the host for names. -/

namespace TypeBit.Network
open Metainfo Wire Session Trackers

variable {H : Type} {p : NetAddr}

/-! ### Calls to the proxy alone -/

def Veil (p : NetAddr) (h k : Recorded H) : Prop := ∃ more, k.calls = h.calls ++ more ∧ ∀ c ∈ more, c = .connect p

theorem Veil.of_eq {h k : Recorded H} (same : k.calls = h.calls) : Veil p h k := ⟨[], by rw [same, List.append_nil], by simp⟩

theorem Veil.refl (h : Recorded H) : Veil p h h := .of_eq rfl

theorem Veil.trans {h k l : Recorded H} (first : Veil p h k) (second : Veil p k l) : Veil p h l := by
  obtain ⟨early, same, only⟩ := first
  obtain ⟨late, same', only'⟩ := second
  refine ⟨early ++ late, by rw [same', same, List.append_assoc], fun c member => ?_⟩
  rcases List.mem_append.mp member with before | after
  · exact only c before
  · exact only' c after

theorem Veil.mem {h k : Recorded H} (veil : Veil p h k) {c : NetCall} (member : c ∈ h.calls) : c ∈ k.calls := by
  obtain ⟨more, same, -⟩ := veil
  rw [same]
  exact List.mem_append_left _ member

section Proxy
variable (net : NetHost H)

theorem veil_tcpConnect (h : Recorded H) : Veil p h ((recording net).tcpConnect h p).2 :=
  ⟨[.connect p], rfl, fun _ member => List.mem_singleton.mp member⟩

theorem veil_socksHttpGet (url : Bytes) (h : Recorded H) : Veil p h (socksHttpGet (recording net) p url h).2 := by
  unfold socksHttpGet
  split
  · have connected := veil_tcpConnect net h (p := p)
    generalize (recording net).tcpConnect h p = answer at connected ⊢
    obtain ⟨got, k⟩ := answer
    cases got with
    | error err => exact connected
    | ok conn => exact connected.trans (.of_eq rfl)
  · exact .refl h

theorem veil_fetchRange (url : Bytes) (first last ms : Nat) (h : Recorded H) :
    Veil p h (fetchRange (recording net) true (some p) url first last ms h) := veil_socksHttpGet net url h

end Proxy

/-! ### Trackers behind the proxy -/

structure Shy (a : Announcer) : Prop where
  proxied : a.sess.cfg.proxied = true
  http : ∀ t ∈ a.trackers, t.kind = .http

theorem kind_fail (t : TrackerState) (reason : String) : (t.fail reason).kind = t.kind := rfl

namespace Shy
variable {a : Announcer}

theorem put (shy : Shy a) (idx : Nat) {t : TrackerState} (http : t.kind = .http) : Shy (a.putTracker idx t) := by
  refine ⟨shy.proxied, fun s member => ?_⟩
  rcases List.mem_or_eq_of_mem_set member with old | rfl
  · exact shy.http s old
  · exact http

theorem announceNext (shy : Shy a) (time : Nat) : Shy (a.announceNext time) := ⟨shy.proxied, shy.http⟩

theorem advance (shy : Shy a) : Shy a.advance := ⟨shy.proxied, shy.http⟩

theorem onTrackerPeers (shy : Shy a) (resp : TrackerResponse) (now : Nat) : Shy (a.onTrackerPeers resp now) := by
  refine ⟨?_, shy.http⟩
  have same := ledger_foldl (fun s addr => ledger_enqueuePeer addr .tracker now s) resp.peers a.sess
  have cfg : (a.onTrackerPeers resp now).sess.cfg = a.sess.cfg := congrArg Ledger.cfg same
  rw [cfg]
  exact shy.proxied

theorem applyTrackerResponse (shy : Shy a) (idx : Nat) (resp : TrackerResponse) (now : Nat) :
    Shy (a.applyTrackerResponse idx resp now) := by
  unfold Announcer.applyTrackerResponse
  cases found : a.trackers[idx]? with
  | none => exact shy
  | some t =>
    have put := shy.put idx (t := { t with
      interval := max resp.interval 30, nextAnnounce := wadd now (max resp.interval 30 * 1000), failure := none, fails := 0 })
      (shy.http t (List.mem_of_getElem? found))
    have met := put.onTrackerPeers resp now
    exact ⟨met.proxied, met.http⟩

variable (net : NetHost H) (env : Env)

theorem announceHttp (shy : Shy a) (params : AnnounceParams) (idx : Nat) {t : TrackerState} (http : t.kind = .http) (h : Recorded H) :
    Shy (Announcer.announceHttp (trackerHost (recording net) (some p)) env params idx t a h).2.1 ∧
      Veil p h (Announcer.announceHttp (trackerHost (recording net) (some p)) env params idx t a h).2.2 := by
  unfold Announcer.announceHttp
  split
  · exact ⟨shy, .refl h⟩
  · rw [shy.proxied]
    dsimp only
    rw [if_pos rfl, if_neg (not_not.mpr rfl)]
    have asked : Veil p h ((trackerHost (recording net) (some p)).httpGet h true t.url params HTTP_ANNOUNCE_TIMEOUT_MS).2 :=
      veil_socksHttpGet net (buildHttpAnnounceUrl (lossyChars t.url.length t.url).flatten params) h
    generalize (trackerHost (recording net) (some p)).httpGet h true t.url params HTTP_ANNOUNCE_TIMEOUT_MS = answer at asked ⊢
    obtain ⟨outcome, k⟩ := answer
    have kept : ∀ {s : TrackerState}, s.kind = t.kind → Shy (a.putTracker idx s) := fun same => shy.put idx (same.trans http)
    cases outcome with
    | response resp =>
      dsimp only
      cases resp.failure with
      | some reason => exact ⟨kept (by rfl), asked⟩
      | none => exact ⟨Shy.applyTrackerResponse (kept (by rfl)) idx resp env.now, asked⟩
    | bad => exact ⟨kept (kind_fail _ _), asked⟩
    | error => exact ⟨kept (kind_fail _ _), asked⟩

theorem announceLoop (params : AnnounceParams) (turns : Nat) (skipped : Bool) (fired : Nat) (shy : Shy a) (h : Recorded H) :
    Shy (Announcer.announceLoop (trackerHost (recording net) (some p)) env params turns skipped fired a h).1 ∧
      Veil p h (Announcer.announceLoop (trackerHost (recording net) (some p)) env params turns skipped fired a h).2 := by
  induction turns generalizing skipped fired a h with
  | zero => exact ⟨shy.announceNext _, .refl h⟩
  | succ turns ih =>
    rw [Announcer.announceLoop]
    cases found : a.trackers[a.trackerCursor % a.trackers.length]? with
    | none => exact ⟨shy, .refl h⟩
    | some t =>
      dsimp only
      split
      · exact ih skipped fired shy.advance h
      · have http := shy.http t (List.mem_of_getElem? found)
        rw [http]
        dsimp only
        obtain ⟨still, veil⟩ := shy.announceHttp (p := p) net env params (a.trackerCursor % a.trackers.length) http h
        generalize Announcer.announceHttp (trackerHost (recording net) (some p)) env params
          (a.trackerCursor % a.trackers.length) t a h = turn at still veil ⊢
        obtain ⟨what, b, k⟩ := turn
        have onward : ∀ skipped fired, Shy (Announcer.announceLoop (trackerHost (recording net) (some p)) env params turns skipped fired b.advance k).1 ∧
            Veil p h (Announcer.announceLoop (trackerHost (recording net) (some p)) env params turns skipped fired b.advance k).2 := by
          intro skipped fired
          obtain ⟨later, more⟩ := ih skipped fired still.advance k
          exact ⟨later, veil.trans more⟩
        cases what with
        | waiting => exact onward true fired
        | fired =>
          dsimp only
          split
          · exact ⟨still.advance.announceNext _, veil⟩
          · exact onward skipped (fired + 1)
        | done => exact ⟨still, veil⟩
        | failed => exact onward skipped fired

theorem announceToTracker (event : TrackerEvent) (shy : Shy a) (h : Recorded H) :
    Shy (a.announceToTracker (trackerHost (recording net) (some p)) env event h).1 ∧
      Veil p h (a.announceToTracker (trackerHost (recording net) (some p)) env event h).2 := by
  unfold Announcer.announceToTracker
  split
  · exact ⟨shy.announceNext _, .refl h⟩
  · exact shy.announceLoop net env _ _ _ _ h

end Shy

/-! ### Trackers that are let in -/

theorem http_pushTracker {trackers : List TrackerState} (http : ∀ t ∈ trackers, t.kind = .http) {url : Bytes}
    (allowed : detectTrackerKind url ≠ .udp) (tier : Nat) : ∀ t ∈ pushTracker trackers url tier, t.kind = .http := by
  unfold pushTracker
  split
  · exact http
  · intro t member
    rcases List.mem_append.mp member with old | new
    · exact http t old
    · rw [List.mem_singleton.mp new]
      show detectTrackerKind url = .http
      cases kind : detectTrackerKind url with
      | http => rfl
      | udp => exact absurd kind allowed

theorem http_pushTrackerIfAllowed {trackers : List TrackerState} (http : ∀ t ∈ trackers, t.kind = .http) (url : Bytes) (tier : Nat) :
    ∀ t ∈ pushTrackerIfAllowed trackers url tier true, t.kind = .http := by
  unfold pushTrackerIfAllowed
  split
  · exact http
  next allowed => exact http_pushTracker http (by simpa using allowed) tier

theorem http_foldl {α : Type} {push : List TrackerState → α → List TrackerState}
    (each : ∀ trackers a, (∀ t ∈ trackers, t.kind = .http) → ∀ t ∈ push trackers a, t.kind = .http) (l : List α)
    {trackers : List TrackerState} (http : ∀ t ∈ trackers, t.kind = .http) : ∀ t ∈ l.foldl push trackers, t.kind = .http := by
  induction l generalizing trackers with
  | nil => exact http
  | cons a tail ih => exact ih (each trackers a http)

theorem http_seedTrackers (declared : List (Nat × Bytes)) {cfg : NetConfig} (proxied : cfg.proxy = some p) :
    ∀ t ∈ seedTrackers declared cfg, t.kind = .http := by
  intro t member
  unfold seedTrackers at member
  rw [proxied, List.mem_mergeSort] at member
  dsimp only [Option.isSome_some] at member
  generalize declared.foldl (fun tier d => max tier (Leech.satAdd32 d.1 1)) 0 = tier at member
  have pushed : ∀ (urls : List Bytes) {trackers : List TrackerState}, (∀ t ∈ trackers, t.kind = .http) →
      ∀ t ∈ urls.foldl (fun trackers url => pushTrackerIfAllowed trackers url tier true) trackers, t.kind = .http :=
    fun urls _ => http_foldl (fun _ url http => http_pushTrackerIfAllowed http url tier) urls
  have own : ∀ t ∈ declared.foldl (fun trackers d => pushTrackerIfAllowed trackers d.2 d.1 true) [], t.kind = .http :=
    http_foldl (fun _ d http => http_pushTrackerIfAllowed http d.2 d.1) declared (fun _ absent => (nomatch absent))
  have extras := pushed cfg.trackers own
  split_ifs at member
  · exact pushed cfg.defaultTrackers (pushed cfg.fallbackTrackers extras) t member
  · exact pushed cfg.fallbackTrackers extras t member
  · exact pushed cfg.defaultTrackers extras t member
  · exact extras t member

/-! ### The engine behind the proxy -/

/-- An engine with a proxy: no DHT, no port mapper, no UDP socket, and shy sessions. -/
structure Veiled (p : NetAddr) (e : Node H) : Prop where
  proxy : e.cfg.proxy = some p
  dht : e.dht = none
  portmap : e.portmap = false
  udp : e.udpOpen = false
  sessions : ∀ hash a, e.sessions.get? hash = some a → Shy a

/-- What an operation may do: the engine stays veiled, and calls the proxy alone. -/
structure Discreet (p : NetAddr) (e f : Node H) : Prop where
  veiled : Veiled p f
  veil : Veil p e.host f.host

theorem Veiled.refl {e : Node H} (veiled : Veiled p e) : Discreet p e e := ⟨veiled, .refl _⟩

theorem Discreet.trans {e f g : Node H} (first : Discreet p e f) (second : Discreet p f g) : Discreet p e g :=
  ⟨second.veiled, first.veil.trans second.veil⟩

theorem Discreet.foldl {α : Type} {f : Node H → α → Node H} (each : ∀ e a, Veiled p e → Discreet p e (f e a)) (l : List α)
    {e : Node H} (veiled : Veiled p e) : Discreet p e (l.foldl f e) := by
  induction l generalizing e with
  | nil => exact veiled.refl
  | cons a tail ih => exact (each e a veiled).trans (ih (each e a veiled).veiled)

namespace Veiled
variable {e : Node H}

theorem putSession (veiled : Veiled p e) (hash : InfoHash) {a : Announcer} (shy : Shy a) : Veiled p (e.putSession hash a) := by
  refine ⟨veiled.proxy, veiled.dht, veiled.portmap, veiled.udp, fun other b found => ?_⟩
  rw [show (e.putSession hash a).sessions = e.sessions.insert hash a from rfl, OrdMap.get?_insert] at found
  split at found
  · exact Option.some.inj found ▸ shy
  · exact veiled.sessions other b found

theorem setHost (veiled : Veiled p e) (host : Recorded H) : Veiled p { e with host } :=
  ⟨veiled.proxy, veiled.dht, veiled.portmap, veiled.udp, veiled.sessions⟩

variable (net : NetHost H)

theorem dial (veiled : Veiled p e) (addr : NetAddr) : Discreet p e (e.dial net addr) := by
  unfold Node.dial
  rw [veiled.proxy]
  exact ⟨veiled.setHost _, veil_tcpConnect net e.host⟩

theorem tcpFallback (veiled : Veiled p e) (addr : NetAddr) : e.tcpFallback net addr = e := by
  unfold Node.tcpFallback
  rw [veiled.proxy]
  rfl

theorem startUdpIfNeeded (veiled : Veiled p e) : e.startUdpIfNeeded net = e := by
  unfold Node.startUdpIfNeeded
  rw [veiled.proxy]
  rfl

theorem driveConnectQueue (veiled : Veiled p e) (admits : NetAddr → Bool) (hash : InfoHash) :
    Discreet p e (e.driveConnectQueue net admits hash) := by
  unfold Node.driveConnectQueue
  cases found : e.sessions.get? hash with
  | none => exact veiled.refl
  | some a =>
    have shy := veiled.sessions hash a found
    have emptied : Veiled p (e.putSession hash { a with sess := { a.sess with connectQueue := [] } }) :=
      veiled.putSession hash ⟨shy.proxied, shy.http⟩
    have dialled := Discreet.foldl (fun _ addr veiled => veiled.dial net addr) ((a.sess.connectQueue.map Prod.fst).filter admits) emptied
    exact ⟨dialled.veiled, dialled.veil⟩

theorem kind_restated {trackers : List TrackerState} (states : List TrackerState) (http : ∀ t ∈ trackers, t.kind = .http) :
    ∀ t ∈ restated trackers states, t.kind = .http := by
  intro t member
  unfold restated at member
  obtain ⟨i, inside, rfl⟩ := List.mem_mapIdx.mp member
  have kept := http _ (List.getElem_mem inside)
  split
  · exact kept
  · exact kept

theorem errand (veiled : Veiled p e) (now : Nat) (hash : InfoHash) (errand : Errand) : Discreet p e (e.errand net now hash errand) := by
  unfold Node.errand
  cases found : e.sessions.get? hash with
  | none => exact veiled.refl
  | some a =>
    have shy := veiled.sessions hash a found
    cases errand with
    | announce event =>
      dsimp only
      rw [veiled.proxy]
      obtain ⟨still, veil⟩ := shy.announceToTracker (p := p) net (e.env now) event e.host
      generalize a.announceToTracker (trackerHost (recording net) (some p)) (e.env now) event e.host = announced at still veil ⊢
      exact ⟨(veiled.putSession hash still).setHost _, veil⟩
    | fetch url first last =>
      dsimp only
      rw [veiled.proxy, shy.proxied]
      exact ⟨veiled.setHost _, veil_fetchRange net url first last a.sess.cfg.webseed.timeoutMs e.host⟩
    | other sess states cursor => exact ⟨veiled.putSession hash ⟨shy.proxied, kind_restated states shy.http⟩, .refl _⟩

theorem errands (veiled : Veiled p e) (now : Nat) (all : List (InfoHash × Errand)) : Discreet p e (e.errands net now all) :=
  Discreet.foldl (fun _ errand veiled => veiled.errand net now errand.1 errand.2) all veiled

theorem errandsOf (veiled : Veiled p e) (now : Nat) (hash : InfoHash) (all : List Errand) :
    Discreet p e (all.foldl (fun e errand => e.errand net now hash errand) e) :=
  Discreet.foldl (fun _ errand veiled => veiled.errand net now hash errand) all veiled

theorem tickSession (veiled : Veiled p e) (i : TickInput) (hash : InfoHash) : Discreet p e (e.tickSession net i hash) := by
  have dialled := veiled.driveConnectQueue net (i.admits hash) hash
  exact dialled.trans (dialled.veiled.errandsOf net i.now hash (i.errands hash))

/-! ### Ticks -/

theorem tickEarly (veiled : Veiled p e) (rest : Rest H) (i : TickInput) : Discreet p e (e.tickEarly net rest i) := by
  have fallbacks : i.fallbacks.foldl (Node.tcpFallback net) e = e := by
    induction i.fallbacks with
    | nil => rfl
    | cons addr tail ih => rw [List.foldl_cons, veiled.tcpFallback, ih]
  have busy := veiled.errands net i.now i.early
  unfold Node.tickEarly
  dsimp only
  rw [veiled.startUdpIfNeeded net, veiled.portmap]
  rw [if_neg Bool.false_ne_true, fallbacks]
  -- the sessions' errands leave the socket closed and the DHT off
  generalize e.errands net i.now i.early = f at busy ⊢
  rw [busy.veiled.udp, if_neg Bool.false_ne_true, busy.veiled.udp, if_neg Bool.false_ne_true, Node.tickDht, busy.veiled.dht]
  exact busy

theorem tickLate (veiled : Veiled p e) (rest : Rest H) (i : TickInput) : Discreet p e (e.tickLate net rest i) := by
  have rested : e.needsBootstrap i.now = false := by
    unfold Node.needsBootstrap
    rw [veiled.dht]
  have ticked := Discreet.foldl (fun _ hash veiled => veiled.tickSession net i hash) e.sessions.keys veiled
  have done := ticked.trans (ticked.veiled.errands net i.now i.late)
  unfold Node.tickLate
  dsimp only
  rw [rested, if_neg Bool.false_ne_true]
  generalize (e.sessions.keys.foldl (Node.tickSession net i) e).errands net i.now i.late = f at done ⊢
  rw [done.veiled.udp, Bool.and_false, if_neg Bool.false_ne_true]
  exact done

theorem drainResolved (veiled : Veiled p e) : Discreet p e (e.drainResolved net) := by
  have each : ∀ (f : Node H) (r : Bytes × Nat × NetAddr), Veiled p f → Discreet p f { f with
      dhtSeeds := if f.dhtSeeds.contains r.2.2 then f.dhtSeeds else f.dhtSeeds ++ [r.2.2]
      dhtSeedPending := f.dhtSeedPending.filter fun q => decide (q ≠ (r.1, r.2.1)) } := fun f r veiled =>
    ⟨⟨veiled.proxy, veiled.dht, veiled.portmap, veiled.udp, veiled.sessions⟩, .refl _⟩
  have drained := Discreet.foldl each ((recording net).takeResolvedHosts e.host).1
    (veiled.setHost ((recording net).takeResolvedHosts e.host).2)
  exact ⟨drained.veiled, Veil.trans (.of_eq rfl) drained.veil⟩

end Veiled

/-! ### Looking for seeds -/

/-- A tick finds no seed, and has not looked for one lately. -/
def Asks (net : NetHost H) (now : Nat) (e : Node H) : Prop :=
  (e.drainResolved net).dhtSeeds = [] ∧ BOOTSTRAP_RETRY_MS ≤ now - (e.drainResolved net).dhtResolveKickedAt

def Asked (e : Node H) : Prop := ∃ name port, NetCall.resolve name port ∈ e.host.calls

section Seeds
variable (net : NetHost H)

theorem Veiled.collectDhtSeeds {e : Node H} (veiled : Veiled p e) {now : Nat} (quiet : ¬ Asks net now e) :
    Discreet p e (e.collectDhtSeeds net now) := by
  unfold Node.collectDhtSeeds
  dsimp only
  rw [if_pos]
  · exact veiled.drainResolved net
  · by_contra asks
    rw [not_or, not_not] at asks
    exact quiet ⟨asks.1, Nat.le_of_not_lt asks.2⟩

theorem asked_askNow (e : Node H) (router : Bytes × Nat) : Asked (e.askNow net router) := by
  refine ⟨router.1, router.2, ?_⟩
  have noted : NetCall.resolve router.1 router.2 ∈ ((recording net).resolveHost e.host router.1 router.2).2.calls :=
    List.mem_append_right _ List.mem_cons_self
  unfold Node.askNow
  generalize (recording net).resolveHost e.host router.1 router.2 = answer at noted ⊢
  obtain ⟨found, host⟩ := answer
  cases found with
  | none => exact noted
  | some addr => exact noted

theorem asked_foldl {α : Type} {f : Node H → α → Node H} (each : ∀ e a, Asked (f e a)) {l : List α} (some_asked : l ≠ []) (e : Node H) :
    Asked (l.foldl f e) := by
  obtain ⟨front, last, rfl⟩ := List.eq_nil_or_concat l |>.resolve_left some_asked
  rw [List.concat_eq_append, List.foldl_append]
  exact each _ last

theorem asked_askAsync {routers : List (Bytes × Nat)} {acc : Bool × Node H} (before : acc.1 = true → Asked acc.2)
    (taken : (routers.foldl (Node.askAsync net) acc).1 = true) : Asked (routers.foldl (Node.askAsync net) acc).2 := by
  induction routers generalizing acc with
  | nil => exact before taken
  | cons router tail ih =>
    refine ih ?_ taken
    unfold Node.askAsync
    split
    · exact before
    · have noted : NetCall.resolve router.1 router.2 ∈ ((recording net).resolveHostAsync acc.2.host router.1 router.2).2.calls :=
        List.mem_append_right _ List.mem_cons_self
      generalize (recording net).resolveHostAsync acc.2.host router.1 router.2 = answer at noted ⊢
      obtain ⟨got, host⟩ := answer
      cases got with
      | true => exact fun _ => ⟨_, _, noted⟩
      | false => exact fun _ => ⟨_, _, noted⟩

theorem asked_kickResolve (now : Nat) (e : Node H) : Asked (Node.kickResolve net now e) := by
  have taken := @asked_askAsync H net DHT_BOOTSTRAP (false, { e with dhtResolveKickedAt := now }) (fun absurd => (nomatch absurd))
  unfold Node.kickResolve
  generalize DHT_BOOTSTRAP.foldl (Node.askAsync net) (false, { e with dhtResolveKickedAt := now }) = asked at taken ⊢
  obtain ⟨any, f⟩ := asked
  cases any with
  | true => exact taken rfl
  | false => exact asked_foldl (asked_askNow net) (List.cons_ne_nil _ _) f

theorem asked_collectDhtSeeds {e : Node H} {now : Nat} (asks : Asks net now e) : Asked (e.collectDhtSeeds net now) := by
  unfold Node.collectDhtSeeds
  dsimp only
  rw [if_neg]
  · exact asked_kickResolve net now _
  · rw [not_or, not_not]
    exact ⟨asks.1, Nat.not_lt_of_le asks.2⟩

theorem Veiled.same {e f : Node H} (veiled : Veiled p e) (cfg : f.cfg = e.cfg) (dht : f.dht = e.dht) (portmap : f.portmap = e.portmap)
    (udp : f.udpOpen = e.udpOpen) (sessions : f.sessions = e.sessions) : Veiled p f :=
  ⟨cfg ▸ veiled.proxy, dht ▸ veiled.dht, portmap ▸ veiled.portmap, udp ▸ veiled.udp, sessions ▸ veiled.sessions⟩

theorem Veiled.askNow {e : Node H} (veiled : Veiled p e) (router : Bytes × Nat) : Veiled p (e.askNow net router) := by
  unfold Node.askNow
  split
  · exact veiled.setHost _
  · exact veiled.same rfl rfl rfl rfl rfl

theorem Veiled.askAsync {acc : Bool × Node H} (veiled : Veiled p acc.2) (router : Bytes × Nat) : Veiled p (Node.askAsync net acc router).2 := by
  unfold Node.askAsync
  split
  · exact veiled
  · split
    · exact veiled.same rfl rfl rfl rfl rfl
    · exact veiled.setHost _

theorem Veiled.kickResolve {e : Node H} (veiled : Veiled p e) (now : Nat) : Veiled p (Node.kickResolve net now e) := by
  have async : ∀ (routers : List (Bytes × Nat)) (acc : Bool × Node H), Veiled p acc.2 → Veiled p (routers.foldl (Node.askAsync net) acc).2 := by
    intro routers
    induction routers with
    | nil => exact fun acc veiled => veiled
    | cons router tail ih => exact fun acc veiled => ih _ (veiled.askAsync net router)
  have sync : ∀ (routers : List (Bytes × Nat)) (f : Node H), Veiled p f → Veiled p (routers.foldl (Node.askNow net) f) := by
    intro routers
    induction routers with
    | nil => exact fun f veiled => veiled
    | cons router tail ih => exact fun f veiled => ih _ (veiled.askNow net router)
  have asked := async DHT_BOOTSTRAP (false, { e with dhtResolveKickedAt := now }) (veiled.same rfl rfl rfl rfl rfl)
  unfold Node.kickResolve
  generalize DHT_BOOTSTRAP.foldl (Node.askAsync net) (false, { e with dhtResolveKickedAt := now }) = answer at asked ⊢
  obtain ⟨any, f⟩ := answer
  cases any with
  | true => exact asked
  | false => exact sync DHT_BOOTSTRAP f asked

theorem Veiled.collected {e : Node H} (veiled : Veiled p e) (now : Nat) : Veiled p (e.collectDhtSeeds net now) := by
  have drained := (veiled.drainResolved net).veiled
  unfold Node.collectDhtSeeds
  dsimp only
  split
  · exact drained
  · exact drained.kickResolve net now

end Seeds

/-! ### Runs -/

section Runs
variable (net : NetHost H) (rest : Rest H)

/-- A step that gives nothing away: no UDP tracker is added by hand, and a tick does not look for seeds. -/
def Quiet (op : Op) (e : Node H) : Prop :=
  match op with
  | .addTracker _ url => detectTrackerKind url ≠ .udp
  | .tick i => ¬ Asks net i.now (e.tickEarly net rest i)
  | _ => True

def Quietly : List Op → Node H → Prop
  | [], _ => True
  | op :: tail, e => Quiet net rest op e ∧ Quietly tail (step net rest op e)

variable {e : Node H}

theorem veiled_new {cfg : NetConfig} (proxied : cfg.proxy = some p) (peerId : ByteArr 20) (id : Dht.NodeId) (secret : ByteArr 16)
    (now : Nat) (h : H) : Veiled p (Node.new cfg peerId id secret now h) := by
  have hardened : cfg.hardened = { cfg with dhtEnabled := false, portMapping := false } := by
    unfold NetConfig.hardened
    rw [proxied]
    rfl
  unfold Node.new
  rw [hardened]
  refine ⟨proxied, rfl, rfl, rfl, fun hash a found => ?_⟩
  rw [show (∅ : OrdMap InfoHash Announcer).get? hash = none from rfl] at found
  cases found

theorem Veiled.addSession (veiled : Veiled p e) (hash : InfoHash) {sess : TorrentSession} (proxied : sess.cfg.proxied = true)
    (declared : List (Nat × Bytes)) : Discreet p e (addSession hash sess declared e) := by
  unfold Network.addSession
  split
  · exact veiled.refl
  · exact ⟨veiled.putSession hash ⟨proxied, http_seedTrackers declared veiled.proxy⟩, .refl _⟩

theorem Veiled.onTrackers (veiled : Veiled p e) (hash : InfoHash) {f : Announcer → Bool × Announcer} (kept : ∀ a, Shy a → Shy (f a).2) :
    Discreet p e (onTrackers hash f e) := by
  unfold Network.onTrackers
  cases found : e.sessions.get? hash with
  | none => exact veiled.refl
  | some a => exact ⟨veiled.putSession hash (kept a (veiled.sessions hash a found)), .refl _⟩

theorem Veiled.startTorrent (veiled : Veiled p e) (hash : InfoHash) (errands : List Errand) (now : Nat) :
    Discreet p e (startTorrent net hash errands now e) := by
  have busy := veiled.errandsOf net now hash errands
  unfold Network.startTorrent
  rw [veiled.startUdpIfNeeded net]
  dsimp only
  split
  · exact veiled.refl
  · rw [busy.veiled.dht]
    exact busy

theorem Veiled.step (veiled : Veiled p e) {op : Op} (quiet : Quiet net rest op e) : Discreet p e (step net rest op e) := by
  have proxied : ∀ saveDir, (e.sessionConfig saveDir).proxied = true := by
    intro saveDir
    show e.cfg.proxy.isSome = true
    rw [veiled.proxy]
    rfl
  cases op with
  | addTorrent t saveDir now => exact veiled.addSession t.infoHash (proxied saveDir) (declaredTrackers t)
  | addMagnet hash webSeeds trackers saveDir now => exact veiled.addSession hash (proxied saveDir) _
  | addTracker hash url =>
    exact veiled.onTrackers hash fun a shy => ⟨shy.proxied, http_pushTracker shy.http quiet 0⟩
  | removeTracker hash url =>
    exact veiled.onTrackers hash fun a shy => ⟨shy.proxied, fun t member => shy.http t (List.mem_of_mem_filter member)⟩
  | start hash errands now => exact veiled.startTorrent net hash errands now
  | call hash errands now => exact veiled.errandsOf net now hash errands
  | removeTorrent hash errands now =>
    have busy := veiled.errandsOf net now hash errands
    unfold Network.step
    dsimp only
    split
    · exact veiled.refl
    · exact ⟨⟨busy.veiled.proxy, busy.veiled.dht, busy.veiled.portmap, busy.veiled.udp,
        fun other a found => busy.veiled.sessions other a (OrdMap.get?_of_erase found)⟩, busy.veil⟩
  | tick i =>
    have early := veiled.tickEarly net rest i
    have collected := early.veiled.collectDhtSeeds net quiet
    exact early.trans (collected.trans (collected.veiled.tickLate net rest i))

theorem Veiled.run {ops : List Op} (veiled : Veiled p e) (quietly : Quietly net rest ops e) : Discreet p e (run net rest ops e) := by
  induction ops generalizing e with
  | nil => exact veiled.refl
  | cons op tail ih =>
    have first := veiled.step net rest quietly.1
    exact first.trans (ih first.veiled quietly.2)

theorem Veiled.asks (veiled : Veiled p e) {i : TickInput} (asks : Asks net i.now (e.tickEarly net rest i)) : Asked (e.tick net rest i) := by
  have early := (veiled.tickEarly net rest i).veiled
  obtain ⟨name, port, asked⟩ := asked_collectDhtSeeds net asks
  have late := (early.collected net i.now).tickLate net rest i
  exact ⟨name, port, late.veil.mem asked⟩

end Runs

/-- In every quiet run of an engine with a proxy, each call that leaves the machine is a connection to the proxy; a tick
after it that looks for DHT seeds makes the host resolve a name. -/
theorem proxy_anonymous {net : NetHost H} {rest : Rest H} {cfg : NetConfig} (proxied : cfg.proxy = some p) (peerId : ByteArr 20)
    (id : Dht.NodeId) (secret : ByteArr 16) (now : Nat) (h : H) {ops : List Op}
    (quietly : Quietly net rest ops (Node.new cfg peerId id secret now h)) :
    (∀ c ∈ (run net rest ops (Node.new cfg peerId id secret now h)).host.calls, c = .connect p) ∧
    ∀ i : TickInput, Asks net i.now ((run net rest ops (Node.new cfg peerId id secret now h)).tickEarly net rest i) →
      Asked ((run net rest ops (Node.new cfg peerId id secret now h)).tick net rest i) := by
  have discreet := (veiled_new proxied peerId id secret now h).run net rest quietly
  refine ⟨fun c member => ?_, fun i asks => discreet.veiled.asks net rest asks⟩
  obtain ⟨more, same, only⟩ := discreet.veil
  rw [same] at member
  exact only c member

/-! ### A proxy on this machine -/

namespace Sample

def socks5 : NetAddr := .v4 ⟨[127, 0, 0, 1], rfl⟩ 9050

def net : NetHost Unit where
  takeResolvedHosts _ := ([], ())
  resolveHostAsync _ _ _ := (true, ())
  resolveHost _ _ _ := (none, ())
  resolveHostAll _ _ _ := ([], ())
  udpOpen _ _ := (.ok (), ())
  udpJoinMulticast _ _ := ()
  udpOpenLsd _ _ := ()
  udpJoinMulticastLsd _ _ := ()
  udpSend _ _ _ := (.ok (), ())
  httpGetAsync _ _ _ := (0, ())
  httpGet _ _ _ := (.error, ())
  httpGetRangeAsync _ _ _ _ _ := (0, ())
  httpGetRange _ _ _ _ _ := ()
  tcpConnect _ _ := (.ok 1, ())
  proxyGet _ _ _ := (.error, ())

def rest : Rest Unit := ⟨fun _ e => e, fun _ e => e, fun _ e => e, fun _ e => e, fun _ _ => []⟩

def cfg : NetConfig where
  session := .default
  trackers := [ascii "udp://t:80", ascii "http://t/announce"]
  useDefaultTrackers := false
  fallbackTrackers := []
  defaultTrackers := []
  listenPort := 6881
  dhtEnabled := true
  portMapping := true
  lsdEnabled := true
  proxy := some socks5

def node : Node Unit := Node.new cfg Session.Sample.env.peerId (.replicate 20 0) (.replicate 16 0) 0 ()

/-- A torrent is added, ticks once before the first look for seeds, and announces. -/
def quietOps : List Op :=
  [.addTorrent Session.Sample.torrent [] 0, .tick { now := 4999 }, .call Session.Sample.torrent.infoHash [.announce .started] 4999]

def leakyOps : List Op :=
  [.addTorrent Session.Sample.torrent [] 0, .addTracker Session.Sample.torrent.infoHash (ascii "udp://9.9.9.9:80"),
    .call Session.Sample.torrent.infoHash [.announce .started] 0]

end Sample

theorem proxy_anonymous_announcing : Quietly Sample.net Sample.rest Sample.quietOps Sample.node ∧
    (∀ c ∈ (run Sample.net Sample.rest Sample.quietOps Sample.node).host.calls, c = .connect Sample.socks5) ∧
    (run Sample.net Sample.rest Sample.quietOps Sample.node).host.calls = [.connect Sample.socks5] := by
  have quietly : Quietly Sample.net Sample.rest Sample.quietOps Sample.node := by
    refine ⟨trivial, fun asks => ?_, trivial, trivial⟩
    exact absurd asks.2 (by decide)
  exact ⟨quietly, (proxy_anonymous rfl _ _ _ _ _ quietly).1, by decide +kernel⟩

/-- The first tick asks the host for the DHT's bootstrap names, proxy or not; a UDP tracker added by hand is announced to
directly. -/
theorem proxied_engine_leaks :
    .resolve (ascii "router.bittorrent.com") 6881 ∈ (run Sample.net Sample.rest [.tick { now := 5000 }] Sample.node).host.calls ∧
    ∃ payload, .udpSend (.v4 ⟨[9, 9, 9, 9], rfl⟩ 80) payload ∈
      (run Sample.net Sample.rest Sample.leakyOps Sample.node).host.calls := by
  refine ⟨by decide +kernel, buildConnectRequest (randU32 0), by decide +kernel⟩

end TypeBit.Network
