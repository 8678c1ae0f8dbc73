import TypeBit.Dht.Store
import TypeBit.Dht.Table

/-! The calls that the DHT engine makes on its routing table (`dht.rs`). Between them the table stays as it is, so that what
holds after any calls holds of the table of every engine. -/

namespace TypeBit.Dht
open Metainfo

def contactAt (id : NodeId) (addr : NetAddr) (now : Nat) : NodeEntry := { id, addr, lastSeen := now, failed := 0 }

/-- A call on the table: a node is put in, or the failure of a query is counted against its node. -/
inductive TableCall where
  | insert (e : NodeEntry) (now : Nat)
  | fail (p : Pending) (now : Nat)
  deriving DecidableEq

namespace TableCall

def call : TableCall → RoutingTable.Call
  | insert e now => .insert e now
  | fail p now => .onFailure p.node.id now

def apply (t : RoutingTable) (c : TableCall) : RoutingTable := t.call c.call

end TableCall

def importCalls (entries : List Bytes) (now : Nat) : List TableCall :=
  entries.filterMap fun e =>
    if e.length ≠ 26 then none
    else (parseNode NetAddr.fromCompact6 e).map fun n => .insert { n with lastSeen := now } now

def bootstrapCalls (seeds : List NetAddr) (now : Nat) : List TableCall :=
  seeds.map fun s => .insert (contactAt NodeId.ZERO s now) now

def expireCalls (now : Nat) : List Nat → Dht → List TableCall
  | [], _ => []
  | tx :: rest, d =>
      (match d.pending.get? tx with
        | some p => if p.retries < 3 then [] else [.fail p now]
        | none => []) ++ expireCalls now rest (expireOne now d tx)

def tickCalls (d : Dht) (now : Nat) : List TableCall :=
  expireCalls now ((d.pending.entries.filter fun e => decide (2000 < now - e.2.sentAt)).map Prod.fst) d

def listedCalls (d : Dht) (t : Bytes) (resp : Resp) (now : Nat) : List TableCall :=
  match d.pending.get? (txOf t), resp.parts with
  | some p, some (_, _, nodes) =>
      if p.kind = .lookup then (nodes.filter fun n => decide (n.id ≠ d.id)).map fun n => .insert n now else []
  | _, _ => []

def datagramCalls (d : Dht) (source : NetAddr) (payload : Bytes) (now : Nat) : List TableCall :=
  match decode payload with
  | .error _ => []
  | .ok { body := .query _ args, .. } => [.insert (contactAt args.id source now) now]
  | .ok { t, body := .response id resp _ } => .insert (contactAt id source now) now :: listedCalls d t resp now
  | .ok { t, body := .error _ _ } =>
      match d.pending.get? (txOf t) with
      | some p => [.fail p now]
      | none => []

/-- The engines that the public operations produce, with the calls that they made on the table. -/
inductive Traced (digests : Digests) : List TableCall → Dht → Prop
  | new (id : NodeId) (port : Nat) (secret : ByteArr 16) : Traced digests [] (.new id port secret)
  | importNodes {calls d} (before : Traced digests calls d) (entries : List Bytes) (now : Nat) :
      Traced digests (calls ++ importCalls entries now) (d.importNodes entries now).2
  | ping {calls d} (before : Traced digests calls d) (node : NodeEntry) (now : Nat) : Traced digests calls (d.ping node now).2
  | bootstrap {calls d} (before : Traced digests calls d) (seeds : List NetAddr) (now : Nat) :
      Traced digests (calls ++ bootstrapCalls seeds now) (d.bootstrap seeds now)
  | getPeers {calls d} (before : Traced digests calls d) (infoHash : ByteArr 20) (announcePort now : Nat) :
      Traced digests calls (d.getPeers infoHash announcePort now)
  | findNode {calls d} (before : Traced digests calls d) (target : NodeId) (now : Nat) :
      Traced digests calls (d.findNode target now)
  | tick {calls d} (before : Traced digests calls d) (now : Nat) : Traced digests (calls ++ tickCalls d now) (d.tick now)
  | datagram {calls d} (before : Traced digests calls d) (source : NetAddr) (payload : Bytes) (now : Nat) :
      Traced digests (calls ++ datagramCalls d source payload now) (d.handleDatagram digests source payload now).2

/-! ### What the operations do to the table -/

theorem table_importNodes (entries : List Bytes) (now : Nat) (acc : Nat × Dht) :
    (entries.foldl (importOne now) acc).2.table = (importCalls entries now).foldl TableCall.apply acc.2.table := by
  induction entries generalizing acc with
  | nil => rfl
  | cons e rest ih =>
    rw [List.foldl_cons, ih]
    unfold importCalls
    rw [List.filterMap_cons]
    by_cases whole : e.length ≠ 26
    · have same : importOne now acc e = acc := by
        unfold importOne
        rw [if_pos whole]
      rw [same, if_pos whole]
    · rw [if_neg whole]
      cases parsed : parseNode NetAddr.fromCompact6 e with
      | none =>
        have same : importOne now acc e = acc := by
          unfold importOne
          rw [if_neg whole, parsed]
        rw [same]
        rfl
      | some n =>
        have stored : (importOne now acc e).2.table = (acc.2.table.insert { n with lastSeen := now } now).2 := by
          unfold importOne
          rw [if_neg whole, parsed]
        rw [stored]
        rfl

theorem table_bootstrap (seeds : List NetAddr) (now : Nat) (d : Dht) :
    (d.bootstrap seeds now).table = (bootstrapCalls seeds now).foldl TableCall.apply d.table := by
  induction seeds generalizing d with
  | nil => rfl
  | cons s rest ih =>
    have seeded : (seedOne now d s).table = (d.table.insert (contactAt NodeId.ZERO s now) now).2 :=
      (quiet_issue { d with table := (d.table.insert (contactAt NodeId.ZERO s now) now).2 } (contactAt NodeId.ZERO s now) .ping
        { id := d.id } .ping none now).table
    show (bootstrap (seedOne now d s) rest now).table = _
    rw [ih, seeded]
    rfl

theorem table_expire (now : Nat) (txs : List Nat) (d : Dht) :
    (txs.foldl (expireOne now) d).table = (expireCalls now txs d).foldl TableCall.apply d.table := by
  induction txs generalizing d with
  | nil => rfl
  | cons tx rest ih =>
    rw [List.foldl_cons, ih, expireCalls, List.foldl_append]
    congr 1
    unfold expireOne
    cases d.pending.get? tx with
    | none => rfl
    | some p =>
      dsimp only
      split
      · rfl
      · rfl

theorem table_learnNodes (nodes : List NodeEntry) (now : Nat) (d : Dht) : (d.learnNodes nodes now).table =
    ((nodes.filter fun n => decide (n.id ≠ d.id)).map fun n => TableCall.insert n now).foldl TableCall.apply d.table := by
  induction nodes generalizing d with
  | nil => rfl
  | cons n rest ih =>
    show (learnNodes (if n.id ≠ d.id then { d with table := (d.table.insert n now).2 } else d) rest now).table = _
    rw [ih, List.filter_cons]
    by_cases other : n.id ≠ d.id
    · rw [if_pos other, if_pos (decide_eq_true other)]
      rfl
    · rw [if_neg other, if_neg (fun same => other (of_decide_eq_true same))]

theorem table_noted (d : Dht) (source : NetAddr) (id : NodeId) (ip : Option Bytes) (now : Nat) :
    (noted d source id ip now).table = (d.table.insert (contactAt id source now) now).2 := by
  unfold noted
  split
  · unfold observeExternal
    split
    · rfl
    split
    · rfl
    dsimp only
    split
    · rfl
    · rfl
    · rfl
  · rfl

theorem table_contributed (d : Dht) (node : NodeEntry) (values : List NetAddr) (token : Bytes) (nodes : List NodeEntry)
    (tid : ByteArr 20) (now : Nat) : (contributed d node values token nodes tid now).table = (d.learnNodes nodes now).table := by
  unfold contributed cachePeers
  split
  · rfl
  · rfl

structure Makes (calls : List TableCall) (d e : Dht) : Prop where
  id : e.id = d.id
  table : e.table = calls.foldl TableCall.apply d.table

theorem makes_importNodes (d : Dht) (entries : List Bytes) (now : Nat) :
    Makes (importCalls entries now) d (d.importNodes entries now).2 :=
  ⟨(spares_importNodes entries now (0, d)).id, table_importNodes entries now (0, d)⟩

theorem makes_bootstrap (d : Dht) (seeds : List NetAddr) (now : Nat) :
    Makes (bootstrapCalls seeds now) d (d.bootstrap seeds now) :=
  ⟨(spares_bootstrap d seeds now).id, table_bootstrap seeds now d⟩

theorem makes_tick (d : Dht) (now : Nat) : Makes (tickCalls d now) d (d.tick now) :=
  ⟨(ticked_tick d now).id, (ticked_tick d now).table.trans (table_expire now _ d)⟩

theorem makes_onResponse (d : Dht) (source : NetAddr) (t : Bytes) (id : NodeId) (resp : Resp) (ip : Option Bytes) (now : Nat) :
    Makes (.insert (contactAt id source now) now :: listedCalls d t resp now) d (d.onResponse source t id resp ip now) := by
  have heard := table_noted d source id ip now
  have sameId := (spares_onResponse d source t id resp ip now).id.trans (onlyTable_noted d source id ip now).id
  refine ⟨sameId, ?_⟩
  unfold listedCalls
  cases found : d.pending.get? (txOf t) with
  | none =>
    rw [onResponse_unmatched found, heard]
    rfl
  | some p =>
    have taken : (settled d source t id ip now).table = (d.table.insert (contactAt id source now) now).2 := heard
    have settledId : (settled d source t id ip now).id = d.id := (onlyTable_noted d source id ip now).id
    rw [onResponse_matched found]
    by_cases lookup : p.kind = .lookup
    · rw [if_pos lookup, consumeLookupResponse_eq]
      cases resp.parts with
      | none => exact taken
      | some parts =>
        obtain ⟨values, token, nodes⟩ := parts
        dsimp only
        rw [(quiet_sendAnnouncesIfReady _ _ now).table, table_contributed, table_learnNodes, taken, settledId, if_pos lookup]
        rfl
    · rw [if_neg lookup, taken]
      cases resp.parts with
      | none => rfl
      | some parts =>
        dsimp only
        rw [if_neg lookup]
        rfl

theorem makes_datagram (digests : Digests) (d : Dht) (source : NetAddr) (payload : Bytes) (now : Nat) :
    Makes (datagramCalls d source payload now) d (d.handleDatagram digests source payload now).2 := by
  unfold datagramCalls
  cases read : decode payload with
  | error e =>
    unfold handleDatagram
    rw [read]
    exact ⟨rfl, rfl⟩
  | ok msg =>
    obtain ⟨t, body⟩ := msg
    cases body with
    | query q args =>
      refine ⟨(onlyTable_query read source now).id, ?_⟩
      unfold handleDatagram
      rw [read]
      dsimp only
      unfold answer
      cases q with
      | ping => rfl
      | findNode => rfl
      | getPeers => rfl
      | announcePeer =>
        dsimp only
        split
        · split
          · rfl
          · rfl
        · rfl
    | response id resp ip =>
      rw [handleDatagram_response read]
      exact makes_onResponse d source t id resp ip now
    | error code text =>
      rw [handleDatagram_error read]
      refine ⟨(spares_onError d t now).id, ?_⟩
      unfold onError
      dsimp only
      cases d.pending.get? (txOf t) with
      | none => rfl
      | some p => rfl

def tableAfter (id : NodeId) (calls : List TableCall) : RoutingTable := calls.foldl TableCall.apply (.new id K)

variable {calls : List TableCall}

theorem Makes.extend {more : List TableCall} {d e : Dht} (makes : Makes more d e)
    (before : d.table = tableAfter d.id calls) : e.table = tableAfter e.id (calls ++ more) := by
  unfold tableAfter at *
  rw [List.foldl_append, makes.id, ← before, makes.table]

theorem Quiet.extend {d e : Dht} (quiet : Quiet d e) (before : d.table = tableAfter d.id calls) :
    e.table = tableAfter e.id calls := by
  rw [quiet.id, quiet.table, before]

theorem table_traced {digests : Digests} {d : Dht} (traced : Traced digests calls d) : d.table = tableAfter d.id calls := by
  induction traced with
  | new id port secret => rfl
  | importNodes before entries now ih => exact (makes_importNodes _ entries now).extend ih
  | ping before node now ih => exact (quiet_issue _ node .ping { id := _ } .ping none now).extend ih
  | bootstrap before seeds now ih => exact (makes_bootstrap _ seeds now).extend ih
  | getPeers before infoHash announcePort now ih => exact (quiet_getPeers _ infoHash announcePort now).extend ih
  | findNode before target now ih => exact ih
  | tick before now ih => exact (makes_tick _ now).extend ih
  | datagram before source payload now ih => exact (makes_datagram digests _ source payload now).extend ih

theorem sound_tableAfter (id : NodeId) (calls : List TableCall) :
    (tableAfter id calls).Sound ∧ (tableAfter id calls).id = id ∧ (tableAfter id calls).k = K := by
  have folded : tableAfter id calls = (calls.map TableCall.call).foldl RoutingTable.call (.new id K)  := by
    rw [List.foldl_map]
    rfl
  rw [folded]
  exact RoutingTable.sound_calls id K _

/-! ### Nodes come in without failures -/

theorem failed_of_parseNode {endpoint : Bytes → Option NetAddr} {c : Bytes} {n : NodeEntry} (parsed : parseNode endpoint c = some n) :
    n.failed = 0 := by
  obtain ⟨addr, -, rest⟩ := Option.bind_eq_some_iff.mp parsed
  split at rest
  · cases rest
    rfl
  · cases rest

theorem failed_of_parseNodes {r : Dict} {n : NodeEntry} (member : n ∈ parseNodes r) : n.failed = 0 := by
  rcases List.mem_append.mp member with v4 | v6
  · obtain ⟨c, -, parsed⟩ := List.mem_filterMap.mp v4
    exact failed_of_parseNode parsed
  · obtain ⟨c, -, parsed⟩ := List.mem_filterMap.mp v6
    exact failed_of_parseNode parsed

variable {id : NodeId} {resp : Resp} {ip : Option Bytes}

theorem decodeQuery_not_response {d : Dict} : decodeQuery d ≠ .ok (.response id resp ip) := by
  intro decoded
  unfold decodeQuery at decoded
  obtain ⟨q, -, decoded⟩ := bind_eq_ok.mp decoded
  obtain ⟨a, -, decoded⟩ := bind_eq_ok.mp decoded
  obtain ⟨sender, -, decoded⟩ := bind_eq_ok.mp decoded
  obtain ⟨known, -, decoded⟩ := bind_eq_ok.mp decoded
  obtain ⟨method, -, decoded⟩ := bind_eq_ok.mp decoded
  cases decoded

theorem decodeError_not_response {d : Dict} : decodeError d ≠ .ok (.response id resp ip) := by
  intro decoded
  unfold decodeError at decoded
  obtain ⟨e, -, decoded⟩ := bind_eq_ok.mp decoded
  cases decoded

theorem failed_of_decodeResponse {d : Dict}
    (decoded : decodeResponse d = .ok (.response id resp ip)) {values : List NetAddr} {token : Bytes} {nodes : List NodeEntry}
    (parts : resp.parts = some (values, token, nodes)) : ∀ n ∈ nodes, n.failed = 0 := by
  unfold decodeResponse at decoded
  obtain ⟨r, -, decoded⟩ := bind_eq_ok.mp decoded
  obtain ⟨sender, -, decoded⟩ := bind_eq_ok.mp decoded
  obtain ⟨known, -, decoded⟩ := bind_eq_ok.mp decoded
  cases decoded
  split at parts
  · cases parts
    exact fun n member => failed_of_parseNodes member
  split at parts
  · cases parts
    exact fun n member => failed_of_parseNodes member
  · cases parts

theorem failed_of_listed {payload t : Bytes}
    (read : decode payload = .ok { t, body := .response id resp ip }) {values : List NetAddr} {token : Bytes}
    {nodes : List NodeEntry} (parts : resp.parts = some (values, token, nodes)) : ∀ n ∈ nodes, n.failed = 0 := by
  unfold decode at read
  obtain ⟨v, -, read⟩ := bind_eq_ok.mp read
  obtain ⟨d, -, read⟩ := bind_eq_ok.mp read
  obtain ⟨t', -, read⟩ := bind_eq_ok.mp read
  obtain ⟨y, -, read⟩ := bind_eq_ok.mp read
  dsimp only at read
  split at read
  · obtain ⟨body, decoded, same⟩ := bind_eq_ok.mp read
    cases same
    exact absurd decoded decodeQuery_not_response
  split at read
  · obtain ⟨body, decoded, same⟩ := bind_eq_ok.mp read
    cases same
    exact failed_of_decodeResponse decoded parts
  split at read
  · obtain ⟨body, decoded, same⟩ := bind_eq_ok.mp read
    cases same
    exact absurd decoded decodeError_not_response
  · cases read

def Unfailed (calls : List TableCall) : Prop := ∀ e now, .insert e now ∈ calls → e.failed = 0

theorem Unfailed.append {first second : List TableCall} (before : Unfailed first) (later : Unfailed second) :
    Unfailed (first ++ second) := by
  intro e now member
  rcases List.mem_append.mp member with old | new
  · exact before e now old
  · exact later e now new

theorem unfailed_importCalls (entries : List Bytes) (now : Nat) : Unfailed (importCalls entries now) := by
  intro e now' member
  obtain ⟨entry, -, parsed⟩ := List.mem_filterMap.mp member
  split at parsed
  · cases parsed
  · obtain ⟨n, found, same⟩ := Option.map_eq_some_iff.mp parsed
    cases same
    exact (failed_of_parseNode found : n.failed = 0)

theorem unfailed_expireCalls (now : Nat) (txs : List Nat) (d : Dht) : Unfailed (expireCalls now txs d) := by
  induction txs generalizing d with
  | nil => exact fun e now' member => nomatch member
  | cons tx rest ih =>
    rw [expireCalls]
    refine Unfailed.append ?_ (ih _)
    intro e now' member
    split at member
    · split at member
      · cases member
      · cases List.mem_singleton.mp member
    · cases member

theorem unfailed_datagramCalls (d : Dht) (source : NetAddr) (payload : Bytes) (now : Nat) :
    Unfailed (datagramCalls d source payload now) := by
  intro e now' member
  unfold datagramCalls at member
  split at member
  next => cases member
  next =>
    cases List.mem_singleton.mp member
    rfl
  next t id resp ip read =>
    rcases List.mem_cons.mp member with heard | listed
    · cases heard
      rfl
    · unfold listedCalls at listed
      split at listed
      next p values token nodes _ parts =>
        split at listed
        · obtain ⟨n, inside, same⟩ := List.mem_map.mp listed
          cases same
          exact failed_of_listed read parts _ (List.mem_filter.mp inside).1
        · cases listed
      next => cases listed
  next =>
    split at member
    · cases List.mem_singleton.mp member
    · cases member

theorem unfailed_traced {digests : Digests} {d : Dht} (traced : Traced digests calls d) : Unfailed calls := by
  induction traced with
  | new id port secret => exact fun e now member => nomatch member
  | importNodes before entries now ih => exact ih.append (unfailed_importCalls entries now)
  | ping before node now ih => exact ih
  | bootstrap before seeds now ih =>
    refine ih.append fun e now' member => ?_
    obtain ⟨s, -, same⟩ := List.mem_map.mp member
    cases same
    rfl
  | getPeers before infoHash announcePort now ih => exact ih
  | findNode before target now ih => exact ih
  | tick before now ih => exact ih.append (unfailed_expireCalls now _ _)
  | datagram before source payload now ih => exact ih.append (unfailed_datagramCalls _ source payload now)

end TypeBit.Dht
