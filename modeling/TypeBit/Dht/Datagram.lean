import TypeBit.Dht.Model

/-! What an incoming datagram does to the DHT engine (`dht.rs`): queries are answered, and a response or an
error settles the query that its transaction number selects. -/

namespace TypeBit.Dht
open Metainfo

/-! ### The external address -/

def addrKey : NetAddr → Bytes
  | .v4 ip _ => ip.val ++ List.replicate 12 0
  | .v6 ip _ => ip.val

def isRoutableV4 (v4 : Bytes) : Bool :=
  let a := (v4.getD 0 0).toNat
  let b := (v4.getD 1 0).toNat
  !(a == 0 || a == 10 || a == 127 || (a == 169 && b == 254) || (a == 172 && decide (16 ≤ b ∧ b ≤ 31)) || (a == 192 && b == 168))

def isRoutable (ip : Bytes) : Bool :=
  let first := ip.getD 0 0
  if (ip.take 10).all (· == 0) && ip.getD 10 0 == 0xFF && ip.getD 11 0 == 0xFF then isRoutableV4 (ip.drop 12)
  else if (ip.drop 4).all (· == 0) then isRoutableV4 (ip.take 4)
  else if ip.all (· == 0) then false
  else if (ip.take 15).all (· == 0) && ip.getD 15 0 == 1 then false
  else if first &&& 0xfe == 0xfc then false
  else if first == 0xfe && ip.getD 1 0 &&& 0xc0 == 0x80 then false
  else if first == 0xff then false
  else true

def observedCompact (source : NetAddr) : Option Bytes :=
  if isRoutable (addrKey source) then
    match source with
    | .v4 ip _ => some ip.val
    | .v6 ip _ => some ip.val
  else none

def observation (compact : Bytes) : Option (Bytes × Option Nat) :=
  match compact.length with
  | 4 => some (compact ++ List.replicate 12 0, none)
  | 6 => some (compact.take 4 ++ List.replicate 12 0, some (NetAddr.port16 (compact.getD 4 0) (compact.getD 5 0)))
  | 16 => some (compact, none)
  | 18 => some (compact.take 16, some (NetAddr.port16 (compact.getD 16 0) (compact.getD 17 0)))
  | _ => none

def vote (votes : List (NetAddr × Nat)) (witness : NetAddr) (now : Nat) : List (NetAddr × Nat) :=
  let cast := if votes.any (fun v => decide (addrKey v.1 = addrKey witness)) then votes else votes ++ [(witness, now)]
  cast.filter fun v => decide (now - v.2 < EXTERNAL_WITNESS_TTL_MS)

def capped {κ α : Type} [LinearOrder κ] (limit : Nat) (m : OrdMap κ α) : OrdMap κ α :=
  (m.keys.take (m.size - limit)).foldl OrdMap.erase m

def observeExternal (d : Dht) (compact : Bytes) (witness : NetAddr) (now : Nat) : Dht :=
  match observation compact with
  | none => d
  | some (ip, port) =>
      if !isRoutable ip then d
      else
        let votes := vote ((d.externalWitnesses.get? ip).getD []) witness now
        let d := { d with
          externalWitnesses := capped EXTERNAL_MAX_OBSERVED (d.externalWitnesses.insert ip votes)
          confirmedExternal := if EXTERNAL_MIN_WITNESSES ≤ votes.length then some ip else d.confirmedExternal }
        match port with
        | none => d
        | some 0 => d
        | some port =>
            let votes := vote ((d.externalPortWitnesses.get? port).getD []) witness now
            { d with
              externalPortWitnesses := capped 32 (d.externalPortWitnesses.insert port votes)
              confirmedExternalPort := if EXTERNAL_MIN_WITNESSES ≤ votes.length then some port else d.confirmedExternalPort }

/-! ### Answering queries -/

def hmacSha256 (digests : Digests) (key data : Bytes) : Bytes :=
  let k := if 64 < key.length then digests.sha256 key else key
  let block := k ++ List.replicate (64 - k.length) 0
  let inner := digests.sha256 (block.map (· ^^^ 0x36) ++ data)
  digests.sha256 (block.map (· ^^^ 0x5c) ++ inner)

def hexDigit (n : Nat) : UInt8 := ch (n.digitChar)

def hex (b : Bytes) : Bytes := b.flatMap fun c => [hexDigit (c.toNat / 16), hexDigit (c.toNat % 16)]

def ipOf : NetAddr → Bytes
  | .v4 ip _ => ip.val
  | .v6 ip _ => ip.val

def portOf : NetAddr → Nat
  | .v4 _ port => port
  | .v6 _ port => port

def withPort (port : Nat) : NetAddr → NetAddr
  | .v4 ip _ => .v4 ip port
  | .v6 ip _ => .v6 ip port

def makeToken (digests : Digests) (d : Dht) (addr : NetAddr) : Bytes := hex ((hmacSha256 digests d.secret.val (ipOf addr)).take 8)

def verifyToken (digests : Digests) (d : Dht) (addr : NetAddr) (token : Bytes) : Bool := decide (d.makeToken digests addr = token)

def storePeer (d : Dht) (infoHash : ByteArr 20) (endpoint : NetAddr) (now : Nat) : Dht :=
  let kept := ((d.peerStore.get? infoHash.val).getD []).filter fun e => decide (e.1 ≠ endpoint)
  let all := kept ++ [(endpoint, wadd now PEER_STORE_TTL_MS)]
  let entry := all.drop (all.length - PEER_STORE_MAX_PER_HASH)
  { d with peerStore := capped PEER_STORE_MAX_HASHES (d.peerStore.insert infoHash.val entry) }

def announcedPort (args : Args) (source : NetAddr) : Nat :=
  if args.impliedPort = some 1 ∨ args.port.getD 0 = 0 then portOf source else args.port.getD (portOf source)

def answer (digests : Digests) (d : Dht) (source : NetAddr) (t : Bytes) (q : Method) (args : Args) (now : Nat) : Bytes × Dht :=
  let reply (d : Dht) (resp : Resp) := (encode { t, body := .response d.id resp (observedCompact source) }, d)
  match q with
  | .ping => reply d (.ping d.id)
  | .findNode => reply d (.findNode d.id (d.table.closest (args.target.getD d.id) K))
  | .getPeers =>
      let ih := args.infoHash.getD NodeId.ZERO
      let values := ((d.peerStore.get? ih.val).getD []).map Prod.fst
      reply d (.getPeers d.id (d.makeToken digests source) values (d.table.closest ih K))
  | .announcePeer =>
      match args.infoHash, args.token with
      | some ih, some tok =>
          if d.verifyToken digests source tok then
            reply (d.storePeer ih (withPort (announcedPort args source) source) now) (.announcePeer d.id)
          else (encode { t, body := .error 203 (ascii "bad token") }, d)
      | _, _ => (encode { t, body := .error 203 (ascii "bad token") }, d)

/-! ### Settling queries -/

def announceOne (infoHash : ByteArr 20) (port now : Nat) (d : Dht) (holder : NetAddr × Bytes) : Dht :=
  if d.announced.contains holder.1 then d
  else
    let d := { d with announced := d.announced ++ [holder.1] }
    let node : NodeEntry := { id := NodeId.ZERO, addr := holder.1, lastSeen := now, failed := 0 }
    (d.issue node .announcePeer { id := d.id, infoHash := some infoHash, port := some port, token := some holder.2 }
      .announce (some infoHash) now).2

def announcing (d : Dht) (infoHash : ByteArr 20) : Option Lookup :=
  d.lookups.find? fun l => decide (l.kind = .getPeers ∧ l.target = infoHash) && !l.done

def sendAnnouncesIfReady (d : Dht) (infoHash : ByteArr 20) (now : Nat) : Dht :=
  match d.announcing infoHash with
  | none => d
  | some l => (l.tokenNodes.take 20).foldl (announceOne infoHash l.announcePort now) d

def Resp.parts : Resp → Option (List NetAddr × Bytes × List NodeEntry)
  | .getPeers _ token values nodes => some (values, token, nodes)
  | .findNode _ nodes => some ([], [], nodes)
  | _ => none

def addNew (known fresh : List NetAddr) : List NetAddr :=
  fresh.foldl (fun known v => if known.contains v then known else known ++ [v]) known

def contribute (node : NodeEntry) (values : List NetAddr) (token : Bytes) (nodes : List NodeEntry) (l : Lookup) : Lookup :=
  { l with
    values := addNew l.values values
    tokenNodes := if token ≠ [] ∧ !l.tokenNodes.any (fun h => decide (h.1 = node.addr)) then l.tokenNodes ++ [(node.addr, token)]
      else l.tokenNodes
    closest := merge l.closest nodes }

def awaits (target : ByteArr 20) (node : NodeEntry) (l : Lookup) : Bool :=
  decide (l.target = target) && !l.done && l.queried.contains node.id

def cachePeers (d : Dht) (target : ByteArr 20) (values : List NetAddr) : Dht :=
  if values = [] then d
  else
    let entry := (addNew ((d.peerCache.get? target.val).getD []) values).take PEER_CACHE_MAX_PER_HASH
    { d with peerCache := capped PEER_CACHE_MAX_HASHES (d.peerCache.insert target.val entry) }

def learnNodes (d : Dht) (nodes : List NodeEntry) (now : Nat) : Dht :=
  nodes.foldl (fun d n => if n.id ≠ d.id then { d with table := (d.table.insert n now).2 } else d) d

def consumeLookupResponse (d : Dht) (node : NodeEntry) (resp : Resp) (target : Option (ByteArr 20)) (now : Nat) : Dht :=
  match resp.parts with
  | none => d
  | some (values, token, nodes) =>
      let d := d.learnNodes nodes now
      let tid := target.getD NodeId.ZERO
      let d := { d with
        lookups := d.lookups.map fun l => if awaits tid node l then contribute node values token nodes l else l }
      (d.cachePeers tid values).sendAnnouncesIfReady tid now

def onResponse (d : Dht) (source : NetAddr) (t : Bytes) (id : NodeId) (resp : Resp) (ip : Option Bytes) (now : Nat) : Dht :=
  let d := { d with table := d.table.onResponse id source now }
  let d := match ip with
    | some compact => d.observeExternal compact source now
    | none => d
  match d.pending.get? (txOf t) with
  | none => d
  | some p =>
      let d := { d with pending := d.pending.erase (txOf t) }
      match p.kind with
      | .lookup => d.consumeLookupResponse p.node resp p.lookupTarget now
      | .ping | .announce => d

def noted (d : Dht) (source : NetAddr) (id : NodeId) (ip : Option Bytes) (now : Nat) : Dht :=
  match ip with
  | some compact => observeExternal { d with table := d.table.onResponse id source now } compact source now
  | none => { d with table := d.table.onResponse id source now }

theorem onResponse_eq (d : Dht) (source : NetAddr) (t : Bytes) (id : NodeId) (resp : Resp) (ip : Option Bytes) (now : Nat) :
    d.onResponse source t id resp ip now = match (noted d source id ip now).pending.get? (txOf t) with
      | none => noted d source id ip now
      | some p =>
          let d := { noted d source id ip now with pending := (noted d source id ip now).pending.erase (txOf t) }
          match p.kind with
          | .lookup => d.consumeLookupResponse p.node resp p.lookupTarget now
          | .ping | .announce => d := rfl

def onError (d : Dht) (t : Bytes) (now : Nat) : Dht :=
  match d.pending.get? (txOf t) with
  | none => d
  | some p => { d with pending := d.pending.erase (txOf t), table := d.table.onFailure p.node.id now }

def handleDatagram (digests : Digests) (d : Dht) (source : NetAddr) (payload : Bytes) (now : Nat) : Option Bytes × Dht :=
  match decode payload with
  | .error _ => (none, d)
  | .ok { t, body := .query q args } =>
      let (reply, d) := answer digests { d with table := d.table.onResponse args.id source now } source t q args now
      (some reply, d)
  | .ok { t, body := .response id resp ip } => (none, d.onResponse source t id resp ip now)
  | .ok { t, body := .error _ _ } => (none, d.onError t now)

end TypeBit.Dht
