import TypeBit.Dht.Serving

/-! Whether the peers that the DHT engine tells others are still announced (`dht.rs`). An announce holds for half an hour, but
only ticks prune the store, and only infohashes of which every announce has expired. -/

namespace TypeBit.Dht
open Metainfo
set_option maxRecDepth 20000

/-- Of each infohash, every announce has expired or none has. -/
def Unmixed (d : Dht) (now : Nat) : Prop :=
  ∀ h v, d.peerStore.get? h = some v → Lapsed now v ∨ ∀ e ∈ v, now < e.2

namespace Moment

/-- A tick leaves no announce that has expired, and a `get_peers` reply lists only peers with an announce that has not. -/
def Fresh (digests : Digests) (m : Moment) : Prop :=
  match m.act with
  | .tick => ∀ h v, (m.engine.tick m.now).peerStore.get? h = some v → ∀ e ∈ v, m.now < e.2
  | .datagram source payload => ∀ t args, decode payload = .ok { t, body := .query .getPeers args } →
      (∃ token nodes, (m.engine.handleDatagram digests source payload m.now).1 = some (encode
        { t, body := .response m.engine.id (.getPeers m.engine.id token
          (m.engine.served (args.infoHash.getD NodeId.ZERO)) nodes) (observedCompact source) })) ∧
      ∀ a ∈ m.engine.served (args.infoHash.getD NodeId.ZERO),
        ∃ expiry, (a, expiry) ∈ m.engine.stored (args.infoHash.getD NodeId.ZERO).val ∧ m.now < expiry

/-- A tick meets no infohash with announces of both kinds, and a `get_peers` query comes for none of which an announce
expired since the last tick. -/
def Clean (last : Nat) (m : Moment) : Prop :=
  match m.act with
  | .tick => m.engine.Unmixed m.now
  | .datagram _ payload => ∀ t args, decode payload = .ok { t, body := .query .getPeers args } →
      ∀ e ∈ m.engine.stored (args.infoHash.getD NodeId.ZERO).val, ¬ (last < e.2 ∧ e.2 ≤ m.now)

def Late (digests : Digests) (last : Nat) (m : Moment) : Prop :=
  match m.act with
  | .tick => True
  | .datagram source payload => ∀ infoHash endpoint, Announces digests m.engine source payload infoHash endpoint →
      last < wadd m.now PEER_STORE_TTL_MS

end Moment

def lastTick (log : List Moment) : Nat :=
  log.foldl (fun last m => match m.act with
    | .tick => m.now
    | .datagram _ _ => last) 0

def Orderly (digests : Digests) (log : List Moment) : Prop :=
  ∀ pre m, pre ++ [m] <+: log → m.Clean (lastTick pre) ∧ m.Late digests (lastTick pre)

theorem listed_concat {pre log : List Moment} {m x : Moment} (listed : pre ++ [m] <+: log ++ [x]) :
    (pre = log ∧ m = x) ∨ pre ++ [m] <+: log := by
  rcases List.prefix_concat_iff.mp listed with same | earlier
  · obtain ⟨front, last⟩ := List.append_inj' same rfl
    exact .inl ⟨front, List.singleton_inj.mp last⟩
  · exact .inr earlier

theorem not_listed_nil (pre : List Moment) (m : Moment) : ¬ pre ++ [m] <+: [] := fun listed =>
  List.append_ne_nil_of_right_ne_nil pre (List.cons_ne_nil m []) (List.prefix_nil.mp listed)

theorem orderly_nil (digests : Digests) : Orderly digests [] := fun pre m listed => absurd listed (not_listed_nil pre m)

variable {digests : Digests} {log : List Moment}

theorem orderly_concat {m : Moment} :
    Orderly digests (log ++ [m]) ↔ Orderly digests log ∧ m.Clean (lastTick log) ∧ m.Late digests (lastTick log) := by
  constructor
  · intro orderly
    exact ⟨fun pre x before => orderly pre x (before.trans (List.prefix_append _ _)), orderly log m (List.prefix_refl _)⟩
  · rintro ⟨before, clean, late⟩ pre x listed
    rcases listed_concat listed with ⟨rfl, rfl⟩ | earlier
    · exact ⟨clean, late⟩
    · exact before pre x earlier

theorem lastTick_tick (log : List Moment) (d : Dht) (now : Nat) : lastTick (log ++ [⟨d, .tick, now⟩]) = now := by
  unfold lastTick
  rw [List.foldl_append]
  rfl

theorem lastTick_datagram (log : List Moment) (d : Dht) (source : NetAddr) (payload : Bytes) (now : Nat) :
    lastTick (log ++ [⟨d, .datagram source payload, now⟩]) = lastTick log := by
  unfold lastTick
  rw [List.foldl_append]
  rfl

/-! ### One act -/

theorem tick_fresh_iff (digests : Digests) (d : Dht) (now last : Nat) :
    (⟨d, .tick, now⟩ : Moment).Fresh digests ↔ (⟨d, .tick, now⟩ : Moment).Clean last := by
  show (∀ h v, (d.tick now).peerStore.get? h = some v → ∀ e ∈ v, now < e.2) ↔ d.Unmixed now
  have kept := (ticked_tick d now).store
  constructor
  · intro pruned h v found
    by_cases lapsed : Lapsed now v
    · exact .inl lapsed
    · refine .inr (pruned h v ?_)
      rw [kept h, found]
      simp [Option.filter, lapsed]
  · intro unmixed h v found
    rw [kept h, Option.filter_eq_some_iff] at found
    obtain ⟨there, live⟩ := found
    rcases unmixed h v there with lapsed | all
    · simp [lapsed] at live
    · exact all

def LiveAt (last : Nat) (d : Dht) : Prop := ∀ h, ∀ e ∈ d.stored h, last < e.2

variable {d : Dht} {now last : Nat}

theorem Moment.Fresh.told {source : NetAddr} {payload : Bytes}
    (fresh : (⟨d, .datagram source payload, now⟩ : Moment).Fresh digests) {t : Bytes} {args : Args}
    (asks : decode payload = .ok { t, body := .query .getPeers args }) {e : NetAddr × Nat}
    (kept : e ∈ d.stored (args.infoHash.getD NodeId.ZERO).val) :
    ∃ expiry, (e.1, expiry) ∈ d.stored (args.infoHash.getD NodeId.ZERO).val ∧ now < expiry :=
  (fresh t args asks).2 e.1 (List.mem_map_of_mem kept)

theorem LiveAt.of_get? (live : ∀ h v, d.peerStore.get? h = some v → ∀ e ∈ v, last < e.2) : LiveAt last d := by
  intro h e member
  unfold stored at member
  cases found : d.peerStore.get? h with
  | none =>
    rw [found] at member
    cases member
  | some v =>
    rw [found] at member
    exact live h v found e member

theorem WellKept.distinct_stored (well : WellKept digests log d) (h : Bytes) : ((d.stored h).map Prod.fst).Nodup := by
  unfold stored
  cases found : d.peerStore.get? h with
  | none => exact List.nodup_nil
  | some v => exact (well.kept h v found).distinct

theorem datagram_fresh_iff (well : WellKept digests log d)
    (live : LiveAt last d) (source : NetAddr) (payload : Bytes) (now : Nat) :
    (⟨d, .datagram source payload, now⟩ : Moment).Fresh digests ↔ (⟨d, .datagram source payload, now⟩ : Moment).Clean last := by
  constructor
  · rintro fresh t args asks e kept ⟨-, gone⟩
    obtain ⟨expiry, other, unexpired⟩ := Moment.Fresh.told fresh asks kept
    -- the peers of an infohash are distinct
    have distinct := well.distinct_stored (args.infoHash.getD NodeId.ZERO).val
    have expires : e.2 = expiry := congrArg Prod.snd (List.inj_on_of_nodup_map distinct kept other rfl)
    rw [expires] at gone
    exact Nat.not_le.mpr unexpired gone
  · intro clean t args asks
    refine ⟨get_peers_reply asks rfl source now, fun a member => ?_⟩
    obtain ⟨e, kept, rfl⟩ := List.mem_map.mp member
    have later := live _ e kept
    have unexpired := clean t args asks e kept
    exact ⟨e.2, kept, by omega⟩

/-! ### Runs -/

theorem liveAt_tick (fresh : (⟨d, .tick, now⟩ : Moment).Fresh digests) : LiveAt now (d.tick now) := LiveAt.of_get? fresh

theorem liveAt_datagram (live : LiveAt last d) {source : NetAddr} {payload : Bytes}
    (late : (⟨d, .datagram source payload, now⟩ : Moment).Late digests last) :
    LiveAt last (d.handleDatagram digests source payload now).2 := by
  rcases (datagram_store digests d source payload now).2 with same | ⟨infoHash, endpoint, announces, grown⟩
  · unfold LiveAt stored
    rw [same]
    exact live
  · apply LiveAt.of_get?
    intro h v found e member
    rw [grown, storePeer_store] at found
    have inserted := get?_of_capped found
    rw [OrdMap.get?_insert] at inserted
    split at inserted
    next here =>
      cases inserted
      rcases mem_announcedEntry member with rfl | before
      · exact late infoHash endpoint announces
      · exact live _ e before
    next =>
      refine live h e ?_
      unfold stored
      rw [inserted]
      exact member

/-- While the run is orderly, nothing that is kept expired before the last tick; and after an orderly beginning every act is
fresh exactly when it is clean. -/
structure Followed (digests : Digests) (log : List Moment) (d : Dht) : Prop where
  well : WellKept digests log d
  live : Orderly digests log → LiveAt (lastTick log) d
  decided : ∀ pre m, pre ++ [m] <+: log → Orderly digests pre → (m.Fresh digests ↔ m.Clean (lastTick pre))

theorem decided_concat {x : Moment}
    (decided : ∀ pre m, pre ++ [m] <+: log → Orderly digests pre → (m.Fresh digests ↔ m.Clean (lastTick pre)))
    (last : Orderly digests log → (x.Fresh digests ↔ x.Clean (lastTick log))) :
    ∀ pre m, pre ++ [m] <+: log ++ [x] → Orderly digests pre → (m.Fresh digests ↔ m.Clean (lastTick pre)) := by
  intro pre m listed before
  rcases listed_concat listed with ⟨rfl, rfl⟩ | earlier
  · exact last before
  · exact decided pre m earlier before

theorem followed_run (run : Run digests watching log d) : Followed digests log d := by
  apply spared_run (P := Followed digests) run
  · intro id port secret
    exact ⟨wellKept_new digests id port secret, fun _ => LiveAt.of_get? fun _ _ found => (nomatch found),
      fun pre m listed => absurd listed (not_listed_nil pre m)⟩
  · intro log d e followed spared
    refine ⟨followed.well.spared spared, ?_, followed.decided⟩
    unfold LiveAt stored
    rw [spared.peerStore]
    exact followed.live
  · intro log d now followed
    refine ⟨followed.well.tick now, ?_, ?_⟩
    · intro orderly
      rw [lastTick_tick]
      exact liveAt_tick ((tick_fresh_iff digests d now _).mpr (orderly_concat.mp orderly).2.1)
    · refine decided_concat followed.decided fun _ => tick_fresh_iff digests d now (lastTick log)
  · intro log d source payload now followed
    refine ⟨followed.well.datagram source payload now, ?_, ?_⟩
    · intro orderly
      obtain ⟨before, -, late⟩ := orderly_concat.mp orderly
      rw [lastTick_datagram]
      exact liveAt_datagram (followed.live before) late
    · exact decided_concat followed.decided fun before => datagram_fresh_iff followed.well (followed.live before) source payload now

/-- In every run, after an orderly beginning a tick prunes all that has expired and a query is told of live peers only, exactly
when the act is clean; so in an orderly run all of them do. -/
theorem store_fresh_iff {digests : Digests} {log : List Moment} {d : Dht} (run : Run digests watching log d) :
    (∀ pre m, pre ++ [m] <+: log → Orderly digests pre → (m.Fresh digests ↔ m.Clean (lastTick pre))) ∧
      (Orderly digests log → ∀ m ∈ log, m.Fresh digests) := by
  have decided := (followed_run run).decided
  refine ⟨decided, fun orderly m member => ?_⟩
  obtain ⟨pre, post, rfl⟩ := List.append_of_mem member
  have listed : pre ++ [m] <+: pre ++ m :: post := ⟨post, by rw [List.append_assoc, List.singleton_append]⟩
  have before : Orderly digests pre := fun front x earlier => orderly front x (earlier.trans (List.prefix_append _ _))
  exact (decided pre m listed before).mpr (orderly pre m listed).1

theorem orderly_holding : Orderly tokenDigests [⟨fresh, .datagram outsider (announceOf sought 51413), 0⟩] := by
  rw [← List.nil_append [_], orderly_concat]
  refine ⟨orderly_nil _, ?_, ?_⟩
  · intro t args asks
    have read : decode (announceOf sought 51413) = .ok { t := [1], body := .query .announcePeer (tokenArgs sought 51413) } := by
      decide
    cases read.symm.trans asks
  · intro infoHash endpoint _
    decide

theorem store_fresh_at_half_an_hour :
    (⟨holding, .tick, 1800000⟩ : Moment).Fresh tokenDigests ↔ (⟨holding, .tick, 1800000⟩ : Moment).Clean 0 :=
  (store_fresh_iff (run_holding.tick 1800000)).1 _ _ (List.prefix_refl _) orderly_holding

/-! ### Two announces of one infohash -/

def aged : Dht := (((fresh.handleDatagram tokenDigests outsider (announceOf sought 6881) 0).2).handleDatagram tokenDigests outsider
  (announceOf sought 6882) 60000).2

/-- Half an hour after the first announce a tick keeps it, and a query is told of its peer. -/
theorem tick_keeps_expired_announce : (∃ log, Run tokenDigests watching log aged) ∧
    (withPort 6881 outsider, 1800000) ∈ (aged.tick 1800001).stored sought.val ∧
    ¬ (⟨aged, .tick, 1800001⟩ : Moment).Fresh tokenDigests ∧
    ¬ (⟨aged.tick 1800001, .datagram outsider (questionOf sought), 1800001⟩ : Moment).Fresh tokenDigests := by
  have asks : decode (questionOf sought) =
      .ok { t := [1], body := .query .getPeers { id := lone.id, infoHash := some sought } } := by decide
  have entries : (aged.tick 1800001).peerStore.get? sought.val =
      some [(withPort 6881 outsider, 1800000), (withPort 6882 outsider, 1860000)] := by decide
  have kept : (aged.tick 1800001).stored sought.val =
      [(withPort 6881 outsider, 1800000), (withPort 6882 outsider, 1860000)] := by
    rw [stored, entries, Option.getD_some]
  have expired : (withPort 6881 outsider, 1800000) ∈ (aged.tick 1800001).stored sought.val := kept ▸ List.mem_cons_self
  refine ⟨⟨_, ((Run.new _ _ _).datagram outsider (announceOf sought 6881) 0).datagram outsider (announceOf sought 6882) 60000⟩,
    expired, ?_, ?_⟩
  · intro fresh
    have live := (liveAt_tick fresh) _ _ expired
    omega
  · intro fresh
    obtain ⟨expiry, member, unexpired⟩ := fresh.told asks expired
    have listed : (withPort 6881 outsider, expiry) ∈
        [(withPort 6881 outsider, 1800000), (withPort 6882 outsider, 1860000)] := kept ▸ member
    have ports : withPort 6881 outsider ≠ withPort 6882 outsider := by decide
    simp only [List.mem_cons, Prod.mk.injEq, ports, true_and, false_and, List.not_mem_nil, or_false] at listed
    omega

end TypeBit.Dht
