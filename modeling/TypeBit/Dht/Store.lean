import TypeBit.Dht.Waiting

/-! The peers that the DHT engine keeps for others (`dht.rs`). Only an announce with a valid token stores one, only a tick
drops what has expired, and both keep the store within its bounds. -/

namespace TypeBit.Dht
open Metainfo

/-! ### Capping a map -/

section Capped
variable {κ α : Type} [LinearOrder κ]

theorem entries_capped (limit : Nat) (m : OrdMap κ α) : (capped limit m).entries = m.entries.drop (m.size - limit) :=
  m.entries_erase_first (m.size - limit)

theorem size_capped_le (limit : Nat) (m : OrdMap κ α) : (capped limit m).size ≤ limit := by
  rw [OrdMap.size, entries_capped, List.length_drop]
  unfold OrdMap.size
  omega

theorem get?_of_capped {limit : Nat} {m : OrdMap κ α} {k : κ} {v : α} (found : (capped limit m).get? k = some v) :
    m.get? k = some v := by
  have member := (OrdMap.mem_entries_iff _ k v).mpr found
  rw [entries_capped] at member
  exact (OrdMap.mem_entries_iff m k v).mp (List.mem_of_mem_drop member)

theorem capped_of_le {limit : Nat} {m : OrdMap κ α} (fits : m.size ≤ limit) : capped limit m = m := by
  unfold capped
  rw [Nat.sub_eq_zero_of_le fits, List.take_zero, List.foldl_nil]

theorem get?_capped_of_over {limit : Nat} {m : OrdMap κ α} (overfull : m.size = limit + 1) {k : κ} {v : α}
    (found : m.get? k = some v) : (capped limit m).get? k = some v ↔ ∃ j ∈ m.keys, j < k := by
  rw [← OrdMap.mem_entries_iff, entries_capped, overfull, Nat.add_sub_cancel_left]
  have member := (OrdMap.mem_entries_iff m k v).mpr found
  have ordered := m.sorted
  unfold OrdMap.keys
  cases listed : m.entries with
  | nil =>
    rw [listed] at member
    cases member
  | cons e tail =>
    rw [listed] at member ordered
    have above := (List.pairwise_cons.mp ordered).1
    rw [List.drop_one, List.tail_cons]
    constructor
    · exact fun later => ⟨e.1, List.mem_map_of_mem List.mem_cons_self, above _ later⟩
    · rintro ⟨j, listedKey, below⟩
      rcases List.mem_cons.mp member with rfl | later
      · -- no key lies below the first
        obtain ⟨f, inside, rfl⟩ := List.mem_map.mp listedKey
        rcases List.mem_cons.mp inside with rfl | behind
        · exact absurd below (lt_irrefl _)
        · exact absurd below (lt_asymm (above f behind))
      · exact later

end Capped

/-! ### What the steps leave alone -/

def observed (d : Dht) : OrdMap Bytes (List (NetAddr × Nat)) × Option Bytes × OrdMap Nat (List (NetAddr × Nat)) × Option Nat :=
  (d.externalWitnesses, d.confirmedExternal, d.externalPortWitnesses, d.confirmedExternalPort)

/-- Neither the id, nor the secret, nor the peers kept for others, nor what others told us of ourselves differs. -/
structure Spares (d e : Dht) : Prop where
  id : e.id = d.id
  secret : e.secret = d.secret
  peerStore : e.peerStore = d.peerStore
  observed : e.observed = d.observed

theorem Spares.refl (d : Dht) : Spares d d := ⟨rfl, rfl, rfl, rfl⟩

theorem Spares.trans {d e f : Dht} (first : Spares d e) (second : Spares e f) : Spares d f where
  id := second.id.trans first.id
  secret := second.secret.trans first.secret
  peerStore := second.peerStore.trans first.peerStore
  observed := second.observed.trans first.observed

structure Quiet (d e : Dht) : Prop extends Spares d e where
  table : e.table = d.table

theorem Quiet.refl (d : Dht) : Quiet d d := ⟨.refl d, rfl⟩

theorem Quiet.trans {d e f : Dht} (first : Quiet d e) (second : Quiet e f) : Quiet d f where
  toSpares := first.toSpares.trans second.toSpares
  table := second.table.trans first.table

theorem foldl_keeps {α : Type} {kept : Dht → Dht → Prop} (refl : ∀ d, kept d d)
    (trans : ∀ {d e f}, kept d e → kept e f → kept d f) (step : Dht → α → Dht) (one : ∀ d a, kept d (step d a)) (l : List α)
    (d : Dht) : kept d (l.foldl step d) :=
  List.foldlRecOn l step (refl d) fun e before a _ => trans before (one e a)

theorem quiet_issue (d : Dht) (node : NodeEntry) (method : Method) (args : Args) (kind : PendingKind)
    (lookupTarget : Option (ByteArr 20)) (now : Nat) : Quiet d (d.issue node method args kind lookupTarget now).2 := by
  unfold issue nextTx pushPending
  dsimp only
  split
  · exact ⟨⟨rfl, rfl, rfl, rfl⟩, rfl⟩
  · exact ⟨⟨rfl, rfl, rfl, rfl⟩, rfl⟩

theorem quiet_queryNodes (idx now : Nat) (nodes : List NodeEntry) (l : Lookup) (d : Dht) :
    Quiet d (queryNodes idx now nodes l d) := by
  induction nodes generalizing l d with
  | nil => exact .refl d
  | cons node rest ih =>
    unfold queryNodes
    dsimp only
    have placed : Quiet d (d.putLookup idx { l with queried := l.queried ++ [node.id] }) := ⟨⟨rfl, rfl, rfl, rfl⟩, rfl⟩
    have issued := placed.trans (quiet_issue (d.putLookup idx { l with queried := l.queried ++ [node.id] }) node
      (lookupQuery (d.putLookup idx { l with queried := l.queried ++ [node.id] }) { l with queried := l.queried ++ [node.id] }).1
      (lookupQuery (d.putLookup idx { l with queried := l.queried ++ [node.id] }) { l with queried := l.queried ++ [node.id] }).2
      .lookup (some l.target) now)
    split
    next e filed =>
      rw [filed] at issued
      exact issued.trans (ih _ e)
    next e refused =>
      rw [refused] at issued
      exact issued

theorem quiet_driveLookup (d : Dht) (idx now : Nat) : Quiet d (d.driveLookup idx now).2 := by
  unfold driveLookup
  split
  · exact .refl d
  next old _ =>
    have placed : Quiet d (d.putLookup idx (d.refreshed old)) := ⟨⟨rfl, rfl, rfl, rfl⟩, rfl⟩
    dsimp only
    split
    · exact ⟨⟨rfl, rfl, rfl, rfl⟩, rfl⟩
    split
    · exact placed
    · exact placed.trans (quiet_queryNodes idx now _ _ _)

theorem quiet_driveLookups (now fuel idx : Nat) (d : Dht) : Quiet d (driveLookups now fuel idx d) := by
  induction fuel generalizing idx d with
  | zero => exact .refl d
  | succ fuel ih =>
    have driven := quiet_driveLookup d idx now
    unfold driveLookups
    split
    next e ended =>
      rw [ended] at driven
      have dropped : Quiet e { e with lookups := e.lookups.eraseIdx idx } := ⟨⟨rfl, rfl, rfl, rfl⟩, rfl⟩
      exact (driven.trans dropped).trans (ih idx _)
    next e running =>
      rw [running] at driven
      exact driven.trans (ih (idx + 1) e)

theorem spares_expireOne (now : Nat) (d : Dht) (tx : Nat) : Spares d (expireOne now d tx) := by
  unfold expireOne
  split
  · exact .refl d
  split
  · exact ⟨rfl, rfl, rfl, rfl⟩
  · exact ⟨rfl, rfl, rfl, rfl⟩

def driven (d : Dht) (now : Nat) : Dht := driveLookups now (d.expirePending now).lookups.length 0 (d.expirePending now)

theorem spares_driven (d : Dht) (now : Nat) : Spares d (d.driven now) :=
  (foldl_keeps .refl .trans _ (spares_expireOne now) _ d).trans (quiet_driveLookups now _ 0 _).toSpares

theorem quiet_announceOne (infoHash : ByteArr 20) (port now : Nat) (d : Dht) (holder : NetAddr × Bytes) :
    Quiet d (announceOne infoHash port now d holder) := by
  unfold announceOne
  split
  · exact .refl d
  · have noted : Quiet d { d with announced := d.announced ++ [holder.1] } := ⟨⟨rfl, rfl, rfl, rfl⟩, rfl⟩
    exact noted.trans (quiet_issue _ _ _ _ _ _ now)

theorem quiet_sendAnnouncesIfReady (d : Dht) (infoHash : ByteArr 20) (now : Nat) :
    Quiet d (d.sendAnnouncesIfReady infoHash now) := by
  unfold sendAnnouncesIfReady
  split
  · exact .refl d
  · exact foldl_keeps .refl .trans _ (quiet_announceOne infoHash _ now) _ d

theorem spares_learnNodes (nodes : List NodeEntry) (now : Nat) (d : Dht) : Spares d (d.learnNodes nodes now) := by
  apply foldl_keeps .refl .trans
  intro e n
  split
  · exact ⟨rfl, rfl, rfl, rfl⟩
  · exact .refl e

theorem spares_contributed (d : Dht) (node : NodeEntry) (values : List NetAddr) (token : Bytes) (nodes : List NodeEntry)
    (tid : ByteArr 20) (now : Nat) : Spares d (contributed d node values token nodes tid now) := by
  have learnt := spares_learnNodes nodes now d
  unfold contributed cachePeers
  split
  · exact learnt.trans ⟨rfl, rfl, rfl, rfl⟩
  · exact learnt.trans ⟨rfl, rfl, rfl, rfl⟩

theorem spares_consumeLookupResponse (d : Dht) (node : NodeEntry) (resp : Resp) (target : Option (ByteArr 20)) (now : Nat) :
    Spares d (d.consumeLookupResponse node resp target now) := by
  rw [consumeLookupResponse_eq]
  split
  · exact .refl d
  · exact (spares_contributed d node _ _ _ _ now).trans (quiet_sendAnnouncesIfReady _ _ now).toSpares

theorem spares_onResponse (d : Dht) (source : NetAddr) (t : Bytes) (id : NodeId) (resp : Resp) (ip : Option Bytes)
    (now : Nat) : Spares (noted d source id ip now) (d.onResponse source t id resp ip now) := by
  cases found : d.pending.get? (txOf t) with
  | none =>
    rw [onResponse_unmatched found]
    exact .refl _
  | some p =>
    have taken : Spares (noted d source id ip now) (settled d source t id ip now) := ⟨rfl, rfl, rfl, rfl⟩
    rw [onResponse_matched found]
    split
    · exact taken.trans (spares_consumeLookupResponse _ p.node resp p.lookupTarget now)
    · exact taken

theorem spares_onError (d : Dht) (t : Bytes) (now : Nat) : Spares d (d.onError t now) := by
  unfold onError
  split
  · exact .refl d
  · exact ⟨rfl, rfl, rfl, rfl⟩

theorem spares_importNodes (entries : List Bytes) (now : Nat) (acc : Nat × Dht) :
    Spares acc.2 (entries.foldl (importOne now) acc).2 := by
  induction entries generalizing acc with
  | nil => exact .refl acc.2
  | cons e rest ih =>
    have one : Spares acc.2 (importOne now acc e).2 := by
      unfold importOne
      split
      · exact .refl acc.2
      split
      · exact .refl acc.2
      · exact ⟨rfl, rfl, rfl, rfl⟩
    exact one.trans (ih _)

theorem spares_bootstrap (d : Dht) (seeds : List NetAddr) (now : Nat) : Spares d (d.bootstrap seeds now) := by
  apply foldl_keeps .refl .trans
  intro e s
  have stored : Spares e { e with table := (e.table.insert
      { id := NodeId.ZERO, addr := s, lastSeen := now, failed := 0 } now).2 } := ⟨rfl, rfl, rfl, rfl⟩
  exact stored.trans (quiet_issue _ _ _ _ _ _ now).toSpares

theorem quiet_getPeers (d : Dht) (infoHash : ByteArr 20) (announcePort now : Nat) :
    Quiet d (d.getPeers infoHash announcePort now) := by
  unfold getPeers
  split
  · exact .refl d
  · exact ⟨⟨rfl, rfl, rfl, rfl⟩, rfl⟩

/-! ### What a tick drops -/

def Lapsed (now : Nat) (v : List (NetAddr × Nat)) : Prop := ∀ e ∈ v, e.2 ≤ now

instance (now : Nat) (v : List (NetAddr × Nat)) : Decidable (Lapsed now v) := inferInstanceAs (Decidable (∀ e ∈ v, _))

variable {d e : Dht}

theorem pruneStore_lapsed {now : Nat} {h : Bytes} (lapsed : ∀ v, d.peerStore.get? h = some v → Lapsed now v) :
    pruneStore now d h = { d with peerStore := d.peerStore.erase h } := by
  unfold pruneStore
  split
  next absent => rw [OrdMap.erase_of_absent absent]
  next v found =>
    have none_kept : (v.filter fun e => decide (now < e.2)) = [] := by
      rw [List.filter_eq_nil_iff]
      intro e member
      have late := lapsed v found e member
      simpa using late
    dsimp only
    rw [if_pos none_kept]

theorem pruneStores (now : Nat) (hashes : List Bytes) (d : Dht)
    (lapsed : ∀ h ∈ hashes, ∀ v, d.peerStore.get? h = some v → Lapsed now v) :
    ∃ store, hashes.foldl (pruneStore now) d = { d with peerStore := store } ∧
      ∀ h, store.get? h = if h ∈ hashes then none else d.peerStore.get? h := by
  induction hashes generalizing d with
  | nil => exact ⟨d.peerStore, rfl, fun h => rfl⟩
  | cons first rest ih =>
    rw [List.foldl_cons, pruneStore_lapsed (lapsed first List.mem_cons_self)]
    have later : ∀ h ∈ rest, ∀ v, (d.peerStore.erase first).get? h = some v → Lapsed now v := by
      intro h member v found
      exact lapsed h (List.mem_cons_of_mem _ member) v (OrdMap.get?_of_erase found)
    obtain ⟨store, pruned, kept⟩ := ih { d with peerStore := d.peerStore.erase first } later
    refine ⟨store, pruned, fun h => ?_⟩
    rw [kept h, OrdMap.get?_erase]
    by_cases inRest : h ∈ rest
    · rw [if_pos inRest, if_pos (List.mem_cons_of_mem _ inRest)]
    · by_cases same : first = h
      · rw [if_neg inRest, if_pos same, if_pos (same ▸ List.mem_cons_self)]
      · have absent : h ∉ first :: rest := by
          rw [List.mem_cons, not_or]
          exact ⟨Ne.symm same, inRest⟩
        rw [if_neg inRest, if_neg same, if_neg absent]

/-- A tick drops the infohashes of which all announces have expired, and nothing else of the store; the table changes only as
the queries in flight expire. -/
structure Ticked (now : Nat) (d e : Dht) : Prop where
  id : e.id = d.id
  secret : e.secret = d.secret
  observed : e.observed = d.observed
  table : e.table = (d.expirePending now).table
  store : ∀ h, e.peerStore.get? h = (d.peerStore.get? h).filter fun v => !decide (Lapsed now v)

theorem ticked_tick (d : Dht) (now : Nat) : Ticked now d (d.tick now) := by
  have spared := spares_driven d now
  have table : (d.driven now).table = (d.expirePending now).table := (quiet_driveLookups now _ 0 _).table
  unfold tick
  dsimp only
  change Spares d (driveLookups now (d.expirePending now).lookups.length 0 (d.expirePending now)) at spared
  change (driveLookups now (d.expirePending now).lookups.length 0 (d.expirePending now)).table = _ at table
  generalize driveLookups now (d.expirePending now).lookups.length 0 (d.expirePending now) = e at spared table
  have listed : ∀ h, h ∈ (e.peerStore.entries.filter fun s => s.2.all fun p => decide (p.2 ≤ now)).map Prod.fst ↔
      ∃ v, e.peerStore.get? h = some v ∧ Lapsed now v := by
    intro h
    simp only [List.mem_map, List.mem_filter, List.all_eq_true, decide_eq_true_eq]
    constructor
    · rintro ⟨⟨j, v⟩, ⟨member, lapsed⟩, rfl⟩
      exact ⟨v, (OrdMap.mem_entries_iff _ j v).mp member, lapsed⟩
    · rintro ⟨v, found, lapsed⟩
      exact ⟨(h, v), ⟨(OrdMap.mem_entries_iff _ h v).mpr found, lapsed⟩, rfl⟩
  have lapsed : ∀ h ∈ (e.peerStore.entries.filter fun s => s.2.all fun p => decide (p.2 ≤ now)).map Prod.fst,
      ∀ v, e.peerStore.get? h = some v → Lapsed now v := by
    intro h member v found
    obtain ⟨u, same, lapsed⟩ := (listed h).mp member
    cases found.symm.trans same
    exact lapsed
  obtain ⟨store, pruned, kept⟩ := pruneStores now _ e lapsed
  rw [pruned]
  have filtered : ∀ h, store.get? h = (d.peerStore.get? h).filter (fun v => !decide (Lapsed now v)) := by
    intro h
    rw [kept h, ← spared.peerStore]
    cases found : e.peerStore.get? h with
    | none => simp
    | some v =>
      by_cases over_time : Lapsed now v
      · rw [if_pos ((listed h).mpr ⟨v, found, over_time⟩)]
        simp [Option.filter, over_time]
      · rw [if_neg]
        · simp [Option.filter, over_time]
        · rw [listed h]
          rintro ⟨u, same, lapsed⟩
          cases found.symm.trans same
          exact over_time lapsed
  have done : Ticked now d { e with peerStore := store } := ⟨spared.id, spared.secret, spared.observed, table, filtered⟩
  have trimmed : ∀ l, Ticked now d { ({ e with peerStore := store } : Dht) with announced := l } := fun l =>
    ⟨done.id, done.secret, done.observed, done.table, done.store⟩
  by_cases many : 200 < ({ e with peerStore := store } : Dht).announced.length
  · rw [if_pos many]
    exact trimmed _
  · rw [if_neg many]
    exact done

/-! ### What an announce stores -/

/-- A datagram that announces a peer with a valid token. -/
structure Announces (digests : Digests) (d : Dht) (source : NetAddr) (payload : Bytes) (infoHash : ByteArr 20)
    (endpoint : NetAddr) : Prop where
  read : ∃ t args token, decode payload = .ok { t, body := .query .announcePeer args } ∧ args.infoHash = some infoHash ∧
    args.token = some token ∧ d.makeToken digests source = token ∧ endpoint = withPort (announcedPort args source) source

theorem storePeer_congr (same : e.peerStore = d.peerStore) (infoHash : ByteArr 20) (endpoint : NetAddr) (now : Nat) :
    (e.storePeer infoHash endpoint now).peerStore = (d.storePeer infoHash endpoint now).peerStore := by
  unfold storePeer
  rw [same]

theorem datagram_store (digests : Digests) (d : Dht) (source : NetAddr) (payload : Bytes) (now : Nat) :
    (d.handleDatagram digests source payload now).2.secret = d.secret ∧
    ((d.handleDatagram digests source payload now).2.peerStore = d.peerStore ∨
      ∃ infoHash endpoint, Announces digests d source payload infoHash endpoint ∧
        (d.handleDatagram digests source payload now).2.peerStore = (d.storePeer infoHash endpoint now).peerStore) := by
  cases read : decode payload with
  | error e =>
    unfold handleDatagram
    rw [read]
    exact ⟨rfl, .inl rfl⟩
  | ok msg =>
    obtain ⟨t, body⟩ := msg
    cases body with
    | query q args =>
      unfold handleDatagram
      rw [read]
      dsimp only
      unfold answer
      cases q with
      | ping => exact ⟨rfl, .inl rfl⟩
      | findNode => exact ⟨rfl, .inl rfl⟩
      | getPeers => exact ⟨rfl, .inl rfl⟩
      | announcePeer =>
        dsimp only
        split
        next infoHash token hash given =>
          split
          next valid =>
            have announces : Announces digests d source payload infoHash (withPort (announcedPort args source) source) :=
              ⟨t, args, token, read, hash, given, of_decide_eq_true valid, rfl⟩
            have heard : ({ d with table := d.table.onResponse args.id source now } : Dht).peerStore = d.peerStore := rfl
            exact ⟨rfl, .inr ⟨infoHash, _, announces, storePeer_congr heard infoHash _ now⟩⟩
          next => exact ⟨rfl, .inl rfl⟩
        next => exact ⟨rfl, .inl rfl⟩
    | response id resp ip =>
      rw [handleDatagram_response read]
      have spared := spares_onResponse d source t id resp ip now
      have noticed : (noted d source id ip now).secret = d.secret ∧ (noted d source id ip now).peerStore = d.peerStore := by
        unfold noted
        split
        · unfold observeExternal
          split
          · exact ⟨rfl, rfl⟩
          split
          · exact ⟨rfl, rfl⟩
          dsimp only
          split
          · exact ⟨rfl, rfl⟩
          · exact ⟨rfl, rfl⟩
          · exact ⟨rfl, rfl⟩
        · exact ⟨rfl, rfl⟩
      exact ⟨spared.secret.trans noticed.1, .inl (spared.peerStore.trans noticed.2)⟩
    | error code text =>
      rw [handleDatagram_error read]
      have spared := spares_onError d t now
      exact ⟨spared.secret, .inl spared.peerStore⟩

def announcedEntry (v : List (NetAddr × Nat)) (endpoint : NetAddr) (now : Nat) : List (NetAddr × Nat) :=
  let all := v.filter (fun e => decide (e.1 ≠ endpoint)) ++ [(endpoint, wadd now PEER_STORE_TTL_MS)]
  all.drop (all.length - PEER_STORE_MAX_PER_HASH)

theorem storePeer_store (d : Dht) (infoHash : ByteArr 20) (endpoint : NetAddr) (now : Nat) :
    (d.storePeer infoHash endpoint now).peerStore = capped PEER_STORE_MAX_HASHES
      (d.peerStore.insert infoHash.val (announcedEntry ((d.peerStore.get? infoHash.val).getD []) endpoint now)) := by
  simp only [storePeer, announcedEntry]

theorem length_announcedEntry (v : List (NetAddr × Nat)) (endpoint : NetAddr) (now : Nat) :
    (announcedEntry v endpoint now).length ≤ PEER_STORE_MAX_PER_HASH := by
  unfold announcedEntry
  rw [List.length_drop]
  omega

variable {v : List (NetAddr × Nat)}

theorem mem_announcedEntry {endpoint : NetAddr} {now : Nat} {e : NetAddr × Nat}
    (member : e ∈ announcedEntry v endpoint now) : e = (endpoint, wadd now PEER_STORE_TTL_MS) ∨ e ∈ v := by
  rcases List.mem_append.mp (List.mem_of_mem_drop member) with old | new
  · exact .inr (List.mem_filter.mp old).1
  · exact .inl (List.mem_singleton.mp new)

theorem endpoint_mem_announcedEntry (v : List (NetAddr × Nat)) (endpoint : NetAddr) (now : Nat) :
    (endpoint, wadd now PEER_STORE_TTL_MS) ∈ announcedEntry v endpoint now := by
  unfold announcedEntry
  dsimp only
  rw [List.drop_append_of_le_length]
  · exact List.mem_append_right _ (List.mem_singleton.mpr rfl)
  · rw [List.length_append]
    show _ + 1 - 64 ≤ _
    omega

theorem nodup_announcedEntry (distinct : (v.map Prod.fst).Nodup) (endpoint : NetAddr) (now : Nat) :
    ((announcedEntry v endpoint now).map Prod.fst).Nodup := by
  have others : ((v.filter fun e => decide (e.1 ≠ endpoint)).map Prod.fst).Nodup :=
    distinct.sublist (List.filter_sublist.map Prod.fst)
  have fresh : endpoint ∉ (v.filter fun e => decide (e.1 ≠ endpoint)).map Prod.fst := by
    intro member
    obtain ⟨e, inside, same⟩ := List.mem_map.mp member
    have other := (List.mem_filter.mp inside).2
    simp [same] at other
  have all : ((v.filter (fun e => decide (e.1 ≠ endpoint)) ++ [(endpoint, wadd now PEER_STORE_TTL_MS)]).map
      Prod.fst).Nodup := by
    rw [List.map_append, List.map_singleton]
    exact List.nodup_append.mpr ⟨others, List.nodup_singleton _, by
      intro a inOld b inNew same
      rw [same, List.mem_singleton.mp inNew] at inOld
      exact fresh inOld⟩
  exact all.sublist ((List.drop_sublist _ _).map Prod.fst)

/-! ### Runs -/

/-- What a host has the engine do at a time. -/
inductive Act where
  | tick
  | datagram (source : NetAddr) (payload : Bytes)
  deriving DecidableEq

/-- An act, with the engine that meets it and the time. -/
structure Moment where
  engine : Dht
  act : Act
  now : Nat

def watching : Observer Moment where
  tick d now := [⟨d, .tick, now⟩]
  datagram d source payload now := [⟨d, .datagram source payload, now⟩]

variable {digests : Digests} {log : List Moment}

theorem spared_run {P : List Moment → Dht → Prop}
    (run : Run digests watching log d) (new : ∀ id port secret, P [] (.new id port secret))
    (spared : ∀ log d e, P log d → Spares d e → P log e)
    (tick : ∀ log d now, P log d → P (log ++ [⟨d, .tick, now⟩]) (d.tick now)) (datagram : ∀ log d source payload now, P log d →
      P (log ++ [⟨d, .datagram source payload, now⟩]) (d.handleDatagram digests source payload now).2) : P log d := by
  induction run with
  | new id port secret => exact new id port secret
  | importNodes before entries now ih => exact spared _ _ _ ih (spares_importNodes entries now (0, _))
  | ping before node now ih => exact spared _ _ _ ih (quiet_issue _ node .ping _ .ping none now).toSpares
  | bootstrap before seeds now ih => exact spared _ _ _ ih (spares_bootstrap _ seeds now)
  | getPeers before infoHash announcePort now ih => exact spared _ _ _ ih (quiet_getPeers _ infoHash announcePort now).toSpares
  | findNode before target now ih => exact spared _ _ _ ih ⟨rfl, rfl, rfl, rfl⟩
  | tick before now ih => exact tick _ _ now ih
  | datagram before source payload now ih => exact datagram _ _ source payload now ih

theorem run_of_reachable (reached : Reachable digests d) : ∃ log, Run digests watching log d := by
  induction reached with
  | new id port secret => exact ⟨_, .new id port secret⟩
  | importNodes before entries now ih => exact ih.imp fun _ run => run.importNodes entries now
  | ping before node now ih => exact ih.imp fun _ run => run.ping node now
  | bootstrap before seeds now ih => exact ih.imp fun _ run => run.bootstrap seeds now
  | getPeers before infoHash announcePort now ih => exact ih.imp fun _ run => run.getPeers infoHash announcePort now
  | findNode before target now ih => exact ih.imp fun _ run => run.findNode target now
  | tick before now ih =>
    obtain ⟨log, run⟩ := ih
    exact ⟨_, run.tick now⟩
  | datagram before source payload now ih =>
    obtain ⟨log, run⟩ := ih
    exact ⟨_, run.datagram source payload now⟩

/-! ### Whose peers the store holds -/

/-- The moment is an announce of this entry for the infohash, from an address with the same IP and with the token that is
made for that IP. -/
def Moment.Puts (digests : Digests) (m : Moment) (h : Bytes) (e : NetAddr × Nat) : Prop :=
  ∃ source payload t args infoHash token, m.act = .datagram source payload ∧
    decode payload = .ok { t, body := .query .announcePeer args } ∧ args.infoHash = some infoHash ∧ infoHash.val = h ∧
    args.token = some token ∧ token = m.engine.makeToken digests e.1 ∧ ipOf e.1 = ipOf source ∧
    e.2 = wadd m.now PEER_STORE_TTL_MS

theorem ipOf_withPort (port : Nat) (source : NetAddr) : ipOf (withPort port source) = ipOf source := by
  cases source <;> rfl

/-- The announces of one infohash are of distinct peers, few, and each was put there. -/
structure Kept (digests : Digests) (log : List Moment) (h : Bytes) (v : List (NetAddr × Nat)) : Prop where
  put : ∀ e ∈ v, ∃ m ∈ log, m.Puts digests h e
  distinct : (v.map Prod.fst).Nodup
  few : v.length ≤ PEER_STORE_MAX_PER_HASH

structure WellKept (digests : Digests) (log : List Moment) (d : Dht) : Prop where
  kept : ∀ h v, d.peerStore.get? h = some v → Kept digests log h v
  bounded : d.peerStore.size ≤ PEER_STORE_MAX_HASHES

theorem Kept.later {h : Bytes} (kept : Kept digests log h v) (more : List Moment) : Kept digests (log ++ more) h v where
  put e member := by
    obtain ⟨m, listed, puts⟩ := kept.put e member
    exact ⟨m, List.mem_append_left more listed, puts⟩
  distinct := kept.distinct
  few := kept.few

theorem WellKept.fewer (well : WellKept digests log d) (more : List Moment)
    (fewer : ∀ h v, e.peerStore.get? h = some v → d.peerStore.get? h = some v) : WellKept digests (log ++ more) e where
  kept h v found := (well.kept h v (fewer h v found)).later more
  bounded := by
    have keys : e.peerStore.keys ⊆ d.peerStore.keys := by
      intro h member
      obtain ⟨v, found⟩ := (OrdMap.mem_keys_iff _ h).mp member
      exact (OrdMap.mem_keys_iff _ h).mpr ⟨v, fewer h v found⟩
    have count := (List.subperm_of_subset e.peerStore.keys_nodup keys).length_le
    unfold OrdMap.keys at count
    rw [List.length_map, List.length_map] at count
    exact count.trans well.bounded

theorem WellKept.storePeer (well : WellKept digests log d)
    {source : NetAddr} {payload : Bytes} {infoHash : ByteArr 20} {endpoint : NetAddr}
    (announces : Announces digests d source payload infoHash endpoint) (now : Nat)
    (stored : e.peerStore = (d.storePeer infoHash endpoint now).peerStore) :
    WellKept digests (log ++ [⟨d, .datagram source payload, now⟩]) e := by
  rw [storePeer_store] at stored
  have old : Kept digests log infoHash.val ((d.peerStore.get? infoHash.val).getD []) := by
    cases found : d.peerStore.get? infoHash.val with
    | none => exact ⟨(fun _ member => nomatch member), List.nodup_nil, Nat.zero_le _⟩
    | some v => exact well.kept _ v found
  constructor
  · intro h v found
    rw [stored] at found
    have inserted := get?_of_capped found
    rw [OrdMap.get?_insert] at inserted
    split at inserted
    next here =>
      cases inserted
      cases here
      refine ⟨fun entry member => ?_, nodup_announcedEntry old.distinct endpoint now, length_announcedEntry _ endpoint now⟩
      rcases mem_announcedEntry member with rfl | before
      · obtain ⟨t, args, token, read, hash, given, valid, place⟩ := announces.read
        refine ⟨⟨d, .datagram source payload, now⟩, List.mem_append_right _ (List.mem_singleton.mpr rfl), source, payload,
          t, args, infoHash, token, rfl, read, hash, rfl, given, ?_, ?_, rfl⟩
        · rw [← valid, place]
          unfold makeToken
          rw [ipOf_withPort]
        · rw [place, ipOf_withPort]
      · exact (old.later _).put entry before
    next => exact (well.kept h v inserted).later _
  · rw [stored]
    exact size_capped_le _ _

theorem wellKept_new (digests : Digests) (id : NodeId) (port : Nat) (secret : ByteArr 16) :
    WellKept digests [] (.new id port secret) := ⟨(fun _ _ found => nomatch found), Nat.zero_le _⟩

theorem WellKept.spared (well : WellKept digests log d) (spared : Spares d e) : WellKept digests log e where
  kept h v found := well.kept h v (spared.peerStore ▸ found)
  bounded := spared.peerStore ▸ well.bounded

theorem WellKept.tick {digests : Digests} {log : List Moment} {d : Dht} (well : WellKept digests log d) (now : Nat) :
    WellKept digests (log ++ [⟨d, .tick, now⟩]) (d.tick now) := by
  apply well.fewer
  intro h v found
  rw [(ticked_tick d now).store h, Option.filter_eq_some_iff] at found
  exact found.1

theorem WellKept.datagram (well : WellKept digests log d) (source : NetAddr) (payload : Bytes) (now : Nat) :
    WellKept digests (log ++ [⟨d, .datagram source payload, now⟩]) (d.handleDatagram digests source payload now).2 := by
  rcases (datagram_store digests d source payload now).2 with same | ⟨infoHash, endpoint, announces, stored⟩
  · apply well.fewer
    intro h v found
    rwa [same] at found
  · exact well.storePeer announces now stored

theorem wellKept_run (run : Run digests watching log d) : WellKept digests log d := by
  apply spared_run (P := WellKept digests) run
  · exact wellKept_new digests
  · exact fun log d e well spared => well.spared spared
  · exact fun log d now well => well.tick now
  · exact fun log d source payload now well => well.datagram source payload now

/-- In every run, every peer that is kept for an infohash was put there by an announce for it from its IP, with the token of
that IP; the peers of an infohash are distinct and at most 64, and the infohashes at most 1024. -/
theorem store_integrity {digests : Digests} {log : List Moment} {d : Dht} (run : Run digests watching log d) :
    (∀ h v, d.peerStore.get? h = some v → (∀ e ∈ v, ∃ m ∈ log, m.Puts digests h e) ∧ (v.map Prod.fst).Nodup ∧
      v.length ≤ PEER_STORE_MAX_PER_HASH) ∧ d.peerStore.size ≤ PEER_STORE_MAX_HASHES := by
  have well := wellKept_run run
  refine ⟨fun h v found => ?_, well.bounded⟩
  obtain ⟨put, distinct, few⟩ := well.kept h v found
  exact ⟨put, distinct, few⟩

/-! ### One announce -/

/-- SHA-256 at the two inputs that the token of `outsider` hashes under a secret of zeros. -/
def tokenDigests : Digests where
  sha1 b := b
  sha256 b :=
    if b.length = 68 then
      [220, 14, 127, 169, 226, 84, 149, 41, 188, 221, 116, 122, 158, 140, 32, 68, 67, 157, 239, 52, 131, 13, 86, 97, 145, 68,
        172, 88, 221, 95, 64, 172]
    else
      [135, 37, 143, 20, 190, 74, 91, 42, 230, 49, 160, 142, 254, 157, 183, 138, 122, 224, 26, 135, 100, 242, 196, 243, 3, 32,
        142, 111, 186, 39, 111, 30]

def queryOf (method : Method) (args : Args) : Bytes := encode { t := [1], body := .query method args }

def tokenArgs (infoHash : ByteArr 20) (port : Nat) : Args :=
  { id := lone.id, infoHash := some infoHash, port := some port, token := some (ascii "87258f14be4a5b2a") }

def announceOf (infoHash : ByteArr 20) (port : Nat) : Bytes := queryOf .announcePeer (tokenArgs infoHash port)

def holding : Dht := (fresh.handleDatagram tokenDigests outsider (announceOf sought 51413) 0).2

theorem run_holding : Run tokenDigests watching [⟨fresh, .datagram outsider (announceOf sought 51413), 0⟩] holding :=
  (Run.new _ _ _).datagram outsider (announceOf sought 51413) 0

set_option maxRecDepth 20000 in
theorem store_integrity_of_one_announce : holding.peerStore.get? sought.val = some [(withPort 51413 outsider, 1800000)] ∧
    ∃ m ∈ [(⟨fresh, .datagram outsider (announceOf sought 51413), 0⟩ : Moment)],
      m.Puts tokenDigests sought.val (withPort 51413 outsider, 1800000) := by
  have stored : holding.peerStore.get? sought.val = some [(withPort 51413 outsider, 1800000)] := by decide
  exact ⟨stored, ((store_integrity run_holding).1 _ _ stored).1 _ (List.mem_singleton.mpr rfl)⟩

end TypeBit.Dht
