import Mathlib.Data.List.Sort
import TypeBit.Dht.Krpc

/-! The DHT engine (`dht.rs`): the routing table, the queries in flight, the iterative lookups, and what the
datagrams do. Times are milliseconds; the transaction counter is 32 bits wide, 16 of them travel. -/

namespace TypeBit
namespace Dht
open Metainfo

def K : Nat := 8
def ALPHA : Nat := 3
def LOOKUP_TIMEOUT_MS : Nat := 60000

/-! ### The routing table -/

def NodeEntry.isGood (n : NodeEntry) (now : Nat) : Bool := decide (n.failed = 0 ∧ now - n.lastSeen < 15 * 60 * 1000)

abbrev Bucket := List NodeEntry

namespace Bucket

/-- Insert or refresh a node: whether the bucket changed, and the bucket. -/
def insert (b : Bucket) (e : NodeEntry) (now k : Nat) : Bool × Bucket :=
  match b.find? (fun n => decide (n.id = e.id)) with
  | some node =>
      (true, b.eraseIdx (b.findIdx fun n => decide (n.id = e.id)) ++ [{ node with lastSeen := now, failed := 0, addr := e.addr }])
  | none =>
      if b.length < k then (true, b ++ [e])
      -- A full bucket gives up its oldest node that is not good.
      else if b.any (fun n => !n.isGood now) then (true, b.eraseIdx (b.findIdx fun n => !n.isGood now) ++ [e])
      else (false, b)

def remove (b : Bucket) (id : NodeId) : Bucket := b.eraseIdx (b.findIdx fun n => decide (n.id = id))

end Bucket

structure RoutingTable where
  id : NodeId
  buckets : List Bucket
  k : Nat
  deriving DecidableEq

namespace RoutingTable

def new (id : NodeId) (k : Nat) : RoutingTable := { id, buckets := List.replicate 160 [], k }

def leadingZeros (b : UInt8) : Nat := 7 - Nat.log2 b.toNat

def bucketFrom : Nat → Bytes → Nat
  | _, [] => 159
  | i, diff :: rest => if diff ≠ 0 then i * 8 + (7 - leadingZeros diff) else bucketFrom (i + 1) rest

/-- The bucket of an id: the first byte that differs from ours, and the highest bit in it. -/
def bucketIndex (t : RoutingTable) (id : NodeId) : Nat := bucketFrom 0 (t.id.distance id)

def insert (t : RoutingTable) (e : NodeEntry) (now : Nat) : Bool × RoutingTable :=
  if e.id = t.id then (false, t)
  else
    -- A real id takes over every entry of its endpoint, the bootstrap placeholder included.
    let buckets := if e.id ≠ NodeId.ZERO then t.buckets.map (fun b => b.filter fun n => decide (n.addr ≠ e.addr)) else t.buckets
    let idx := t.bucketIndex e.id
    let (stored, b) := Bucket.insert (buckets.getD idx []) e now t.k
    (stored, { t with buckets := buckets.set idx b })

def onFailure (t : RoutingTable) (id : NodeId) (now : Nat) : RoutingTable :=
  let idx := t.bucketIndex id
  let b := t.buckets.getD idx []
  match b.find? (fun n => decide (n.id = id)) with
  | none => t
  | some n =>
      let failed := min (n.failed + 1) (2 ^ 32 - 1)
      let counted := b.set (b.findIdx fun n => decide (n.id = id)) { n with failed, lastSeen := now }
      { t with buckets := t.buckets.set idx (if 3 < failed then Bucket.remove counted id else counted) }

def onResponse (t : RoutingTable) (id : NodeId) (addr : NetAddr) (now : Nat) : RoutingTable :=
  (t.insert { id, addr, lastSeen := now, failed := 0 } now).2

def byDistance (target : NodeId) (nodes : List NodeEntry) : List NodeEntry :=
  nodes.insertionSort fun a b => a.id.distance target ≤ b.id.distance target

def closest (t : RoutingTable) (target : NodeId) (n : Nat) : List NodeEntry := (byDistance target t.buckets.flatten).take n

end RoutingTable

/-! ### Queries in flight and lookups -/

inductive PendingKind where
  | ping
  | lookup
  | announce
  deriving DecidableEq, Repr

structure Pending where
  node : NodeEntry
  query : Bytes
  sentAt : Nat
  retries : Nat
  kind : PendingKind
  lookupTarget : Option (ByteArr 20)
  deriving DecidableEq

inductive LookupKind where
  | getPeers
  | findNode
  deriving DecidableEq, Repr

structure Lookup where
  kind : LookupKind
  target : ByteArr 20
  closest : List NodeEntry
  queried : List NodeId := []
  tokenNodes : List (NetAddr × Bytes) := []
  values : List NetAddr := []
  announcePort : Nat
  started : Nat
  done : Bool := false
  deriving DecidableEq

end Dht

open Dht in
/-- The DHT engine. -/
structure Dht where
  id : NodeId
  port : Nat
  table : RoutingTable
  secret : ByteArr 16
  txCounter : Nat := 0
  pending : OrdMap Nat Pending := ∅
  lookups : List Lookup := []
  announced : List NetAddr := []
  peerCache : OrdMap Bytes (List NetAddr) := ∅
  peerStore : OrdMap Bytes (List (NetAddr × Nat)) := ∅
  externalWitnesses : OrdMap Bytes (List (NetAddr × Nat)) := ∅
  confirmedExternal : Option Bytes := none
  externalPortWitnesses : OrdMap Nat (List (NetAddr × Nat)) := ∅
  confirmedExternalPort : Option Nat := none
  deriving DecidableEq

namespace Dht

def EXTERNAL_MIN_WITNESSES : Nat := 3
def EXTERNAL_WITNESS_TTL_MS : Nat := 10 * 60 * 1000
def EXTERNAL_MAX_OBSERVED : Nat := 64
def MAX_PENDING : Nat := 4096
def PEER_CACHE_MAX_HASHES : Nat := 256
def PEER_CACHE_MAX_PER_HASH : Nat := 256
def PEER_STORE_TTL_MS : Nat := 30 * 60 * 1000
def PEER_STORE_MAX_PER_HASH : Nat := 64
def PEER_STORE_MAX_HASHES : Nat := 1024

def new (id : NodeId) (port : Nat) (secret : ByteArr 16) : Dht := { id, port, table := .new id K, secret }

def importOne (now : Nat) (acc : Nat × Dht) (e : Bytes) : Nat × Dht :=
  if e.length ≠ 26 then acc
  else
    match parseNode NetAddr.fromCompact6 e with
    | none => acc
    | some n =>
        match acc.2.table.insert { n with lastSeen := now } now with
        | (stored, table) => (if stored then acc.1 + 1 else acc.1, { acc.2 with table })

def importNodes (d : Dht) (entries : List Bytes) (now : Nat) : Nat × Dht := entries.foldl (importOne now) (0, d)

def pushPending (d : Dht) (tx : Nat) (p : Pending) : Bool × Dht :=
  if MAX_PENDING ≤ d.pending.size then (false, d)
  else (true, { d with pending := d.pending.insert tx p })

def nextTx (d : Dht) : Nat × Dht :=
  let tx := (d.txCounter + 1) % 2 ^ 32
  (tx, { d with txCounter := tx })

/-- The two bytes of a transaction number that travel: `tx.to_be_bytes()[2..]`. -/
def wireTx (tx : Nat) : Bytes := [(tx / 2 ^ 8).toUInt8, tx.toUInt8]

def txOf : Bytes → Nat
  | [hi, lo] => hi.toNat * 2 ^ 8 + lo.toNat
  | [b] => b.toNat
  | _ => 0

def issue (d : Dht) (node : NodeEntry) (method : Method) (args : Args) (kind : PendingKind)
    (lookupTarget : Option (ByteArr 20)) (now : Nat) : (Nat × Bool) × Dht :=
  let (tx, d) := d.nextTx
  let query := encode { t := wireTx tx, body := .query method args }
  let (filed, d) := d.pushPending tx { node, query, sentAt := now, retries := 0, kind, lookupTarget }
  ((tx, filed), d)

def ping (d : Dht) (node : NodeEntry) (now : Nat) : Nat × Dht :=
  match d.issue node .ping { id := d.id } .ping none now with
  | ((tx, filed), d) => (if filed then tx else 0, d)

def seedOne (now : Nat) (d : Dht) (s : NetAddr) : Dht :=
  let e : NodeEntry := { id := NodeId.ZERO, addr := s, lastSeen := now, failed := 0 }
  (ping { d with table := (d.table.insert e now).2 } e now).2

def bootstrap (d : Dht) (seeds : List NetAddr) (now : Nat) : Dht := seeds.foldl (seedOne now) d

def getPeers (d : Dht) (infoHash : ByteArr 20) (announcePort now : Nat) : Dht :=
  if d.lookups.any (fun l => decide (l.target = infoHash) && !l.done) then d
  else { d with lookups := d.lookups ++
    [{ kind := .getPeers, target := infoHash, closest := d.table.closest infoHash K, announcePort, started := now }] }

def findNode (d : Dht) (target : NodeId) (now : Nat) : Dht :=
  { d with lookups := d.lookups ++
    [{ kind := .findNode, target, closest := d.table.closest target K, announcePort := 0, started := now }] }

/-! ### The tick -/

def expireOne (now : Nat) (d : Dht) (tx : Nat) : Dht :=
  match d.pending.get? tx with
  | none => d
  | some p =>
      if p.retries < 3 then { d with pending := d.pending.insert tx { p with retries := p.retries + 1, sentAt := now } }
      else { d with pending := d.pending.erase tx, table := d.table.onFailure p.node.id now }

def expirePending (d : Dht) (now : Nat) : Dht :=
  let expired := (d.pending.entries.filter fun e => decide (2000 < now - e.2.sentAt)).map Prod.fst
  expired.foldl (expireOne now) d

def merge (known fresh : List NodeEntry) : List NodeEntry :=
  fresh.foldl (fun known n => if known.any (fun c => decide (c.id = n.id)) then known else known ++ [n]) known

def refreshed (d : Dht) (l : Lookup) : Lookup :=
  { l with closest := (RoutingTable.byDistance l.target (merge l.closest (d.table.closest l.target K))).take K }

def toQuery (d : Dht) (l : Lookup) : List NodeEntry :=
  (l.closest.filter fun c => !l.queried.contains c.id && decide (c.id ≠ d.id)).take ALPHA

def lookupQuery (d : Dht) (l : Lookup) : Method × Args :=
  match l.kind with
  | .getPeers => (.getPeers, { id := d.id, infoHash := some l.target })
  | .findNode => (.findNode, { id := d.id, target := some l.target })

def putLookup (d : Dht) (idx : Nat) (l : Lookup) : Dht := { d with lookups := d.lookups.set idx l }

def queryNodes (idx now : Nat) : List NodeEntry → Lookup → Dht → Dht
  | [], _, d => d
  | node :: rest, l, d =>
      let l := { l with queried := l.queried ++ [node.id] }
      let d := d.putLookup idx l
      match d.issue node (d.lookupQuery l).1 (d.lookupQuery l).2 .lookup (some l.target) now with
      | ((_, true), d) => queryNodes idx now rest l d
      | ((_, false), d) => d

def driveLookup (d : Dht) (idx now : Nat) : Bool × Dht :=
  match d.lookups[idx]? with
  | none => (false, d)
  | some old =>
      let l := d.refreshed old
      let d := d.putLookup idx l
      if LOOKUP_TIMEOUT_MS < now - l.started then (true, d.putLookup idx { l with done := true })
      else if d.toQuery l = [] then (!l.queried.isEmpty, d)
      else (false, queryNodes idx now (d.toQuery l) l d)

def driveLookups (now : Nat) : Nat → Nat → Dht → Dht
  | 0, _, d => d
  | fuel + 1, idx, d =>
      match d.driveLookup idx now with
      | (true, d) => driveLookups now fuel idx { d with lookups := d.lookups.eraseIdx idx }
      | (false, d) => driveLookups now fuel (idx + 1) d

def pruneStore (now : Nat) (d : Dht) (h : Bytes) : Dht :=
  match d.peerStore.get? h with
  | none => d
  | some v =>
      let kept := v.filter fun e => decide (now < e.2)
      { d with peerStore := if kept = [] then d.peerStore.erase h else d.peerStore.insert h kept }

def tick (d : Dht) (now : Nat) : Dht :=
  let d := d.expirePending now
  let d := driveLookups now d.lookups.length 0 d
  let expired := (d.peerStore.entries.filter fun e => e.2.all fun p => decide (p.2 ≤ now)).map Prod.fst
  let d := expired.foldl (pruneStore now) d
  if 200 < d.announced.length then { d with announced := d.announced.drop (d.announced.length - 200) } else d

/-- The datagrams of one tick: at most sixteen of the queries in flight. -/
def outgoing (d : Dht) : List (NetAddr × Bytes) := (d.pending.entries.take 16).map fun e => (e.2.node.addr, e.2.query)

end Dht
end TypeBit
