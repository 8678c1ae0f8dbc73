import TypeBit.Platform
import TypeBit.Wire.Extended

/-! KRPC messages (`dht.rs`): queries, responses and errors, and their bencoded form. -/

namespace TypeBit.Dht
open Bencode Metainfo Wire

abbrev NodeId := ByteArr 20

def NodeId.ZERO : NodeId := ⟨List.replicate 20 0, rfl⟩

def NodeId.distance (a b : NodeId) : Bytes := List.zipWith (· ^^^ ·) a.val b.val

structure NodeEntry where
  id : NodeId
  addr : NetAddr
  lastSeen : Nat
  failed : Nat
  deriving DecidableEq

inductive Method where
  | ping
  | findNode
  | getPeers
  | announcePeer
  deriving DecidableEq, Repr

def Method.name : Method → Bytes
  | ping => ascii "ping"
  | findNode => ascii "find_node"
  | getPeers => ascii "get_peers"
  | announcePeer => ascii "announce_peer"

structure Args where
  id : NodeId
  target : Option NodeId := none
  infoHash : Option (ByteArr 20) := none
  port : Option Nat := none
  token : Option Bytes := none
  impliedPort : Option Nat := none
  deriving DecidableEq

inductive Resp where
  | ping (id : NodeId)
  | findNode (id : NodeId) (nodes : List NodeEntry)
  | getPeers (id : NodeId) (token : Bytes) (values : List NetAddr) (nodes : List NodeEntry)
  | announcePeer (id : NodeId)
  deriving DecidableEq

inductive KrpcBody where
  | query (q : Method) (args : Args)
  | response (id : NodeId) (resp : Resp) (ip : Option Bytes)
  | error (code : Int) (msg : Bytes)
  deriving DecidableEq

structure KrpcMsg where
  t : Bytes
  body : KrpcBody
  deriving DecidableEq

/-! ### Encoding -/

def nodeToCompact4 (n : NodeEntry) : Bytes := n.id.val ++ (n.addr.toCompact6).getD (List.replicate 6 0)

def nodeToCompact6 (n : NodeEntry) : Bytes := n.id.val ++ (n.addr.toCompact18).getD (List.replicate 18 0)

def compactPeers (values : List NetAddr) : Bytes × Bytes :=
  ((values.filterMap NetAddr.toCompact6).flatten, (values.filterMap NetAddr.toCompact18).flatten)

def isV4 : NetAddr → Bool
  | .v4 _ _ => true
  | .v6 _ _ => false

def compactNodes (nodes : List NodeEntry) : Bytes × Bytes :=
  (((nodes.filter fun n => isV4 n.addr).map nodeToCompact4).flatten,
    ((nodes.filter fun n => !isV4 n.addr).map nodeToCompact6).flatten)

def Args.entries (args : Args) : List (String × BVal) :=
  [("id", .bytes args.id.val)] ++ entry? "target" args.target (fun t => .bytes t.val)
    ++ entry? "info_hash" args.infoHash (fun h => .bytes h.val) ++ entry? "port" args.port (fun p => .int p)
    ++ entry? "token" args.token .bytes ++ entry? "implied_port" args.impliedPort (fun p => .int p)

def Resp.entries : Resp → List (String × BVal)
  | ping _ => []
  | announcePeer _ => []
  | findNode _ nodes => [("nodes", .bytes (compactNodes nodes).1)] ++ PexMsg.bytes? "nodes6" (compactNodes nodes).2
  | getPeers _ token values nodes =>
      [("token", .bytes token)] ++ PexMsg.bytes? "values" (compactPeers values).1
        ++ PexMsg.bytes? "values6" (compactPeers values).2 ++ PexMsg.bytes? "nodes" (compactNodes nodes).1
        ++ PexMsg.bytes? "nodes6" (compactNodes nodes).2

def KrpcBody.entries : KrpcBody → List (String × BVal)
  | query q args => [("y", .bytes (ascii "q")), ("q", .bytes q.name), ("a", dict args.entries)]
  | response id resp ip =>
      let observed := ip.filter fun b => b.length = 4 ∨ b.length = 16
      [("y", .bytes (ascii "r")), ("r", dict ([("id", .bytes id.val)] ++ entry? "ip" observed .bytes ++ resp.entries))]
  | error code msg => [("y", .bytes (ascii "e")), ("e", .list [.int code, .bytes msg])]

def encode (msg : KrpcMsg) : Bytes := encodeValue (dict ([("t", .bytes msg.t)] ++ msg.body.entries))

/-! ### Decoding -/

def read20 (b : Bytes) : Result (ByteArr 20) := if full : b.length = 20 then .ok ⟨b, full⟩ else .error .dht

def endpointOf (b : Bytes) : Option NetAddr :=
  if b.length = 6 then NetAddr.fromCompact6 b else if b.length = 18 then NetAddr.fromCompact18 b else none

def parseValuesField (v v6 : Option BVal) : List NetAddr :=
  (match v with
    | some (.bytes b) => (chunks 6 b).filterMap NetAddr.fromCompact6
    | some (.list items) => items.filterMap fun item => item.asBytes.bind endpointOf
    | _ => []) ++
  match v6 with
  | some (.bytes b) => (chunks 18 b).filterMap NetAddr.fromCompact18
  | some (.list items) => items.filterMap fun item => item.asBytes.bind NetAddr.fromCompact18
  | _ => []

def parseNode (endpoint : Bytes → Option NetAddr) (c : Bytes) : Option NodeEntry := do
  let addr ← endpoint (c.drop 20)
  if full : (c.take 20).length = 20 then some { id := ⟨c.take 20, full⟩, addr, lastSeen := 0, failed := 0 } else none

def parseCompactNodes (v : Option BVal) : List NodeEntry :=
  (chunks 26 ((v.bind BVal.asBytes).getD [])).filterMap (parseNode NetAddr.fromCompact6)

def parseCompactNodes6 (v : Option BVal) : List NodeEntry :=
  (chunks 38 ((v.bind BVal.asBytes).getD [])).filterMap (parseNode NetAddr.fromCompact18)

def parseNodes (r : Dict) : List NodeEntry := parseCompactNodes (at? r "nodes") ++ parseCompactNodes6 (at? r "nodes6")

def decodeMethod (q : Bytes) : Result Method :=
  if q = Method.name .ping then .ok .ping
  else if q = Method.name .findNode then .ok .findNode
  else if q = Method.name .getPeers then .ok .getPeers
  else if q = Method.name .announcePeer then .ok .announcePeer
  else .error .dht

def decodeQuery (d : Dict) : Result KrpcBody := do
  let q ← okOr (strAt d "q") .dht
  let a ← okOr (dictAt d "a") .dht
  let id ← read20 (← okOr (bytesAt a "id") .dht)
  let args : Args := {
    id
    target := (bytesAt a "target").bind fun b => (read20 b).toOption
    infoHash := (bytesAt a "info_hash").bind fun b => (read20 b).toOption
    port := (intAt a "port").map fun i => (i % 2 ^ 16).toNat
    token := bytesAt a "token"
    impliedPort := (intAt a "implied_port").map fun i => (i % 2 ^ 8).toNat }
  let method ← decodeMethod q
  .ok (.query method args)

def decodeResponse (d : Dict) : Result KrpcBody := do
  let r ← okOr (dictAt d "r") .dht
  let id ← read20 (← okOr (bytesAt r "id") .dht)
  let ip := (bytesAt r "ip").filter fun b => b.length = 4 ∨ b.length = 6 ∨ b.length = 16 ∨ b.length = 18
  let resp :=
    if (at? r "token").isSome then
      Resp.getPeers id ((bytesAt r "token").getD []) (parseValuesField (at? r "values") (at? r "values6")) (parseNodes r)
    else if (at? r "nodes").isSome then .findNode id (parseNodes r)
    else .ping id
  .ok (.response id resp ip)

def decodeError (d : Dict) : Result KrpcBody := do
  let e ← okOr (listAt d "e") .dht
  let code := ((e[0]?.bind BVal.asInt).getD (-1) + 2 ^ 31) % 2 ^ 32 - 2 ^ 31
  let msg := ((e[1]?.bind BVal.asBytes).filter fun b => utf8Valid b.length b).getD []
  .ok (.error code msg)

def decode (payload : Bytes) : Result KrpcMsg := do
  let v ← BVal.parse payload
  let d ← okOr v.asDict .dht
  let t ← okOr (bytesAt d "t") .dht
  let y ← okOr (bytesAt d "y") .dht
  let body ←
    if y = ascii "q" then decodeQuery d
    else if y = ascii "r" then decodeResponse d
    else if y = ascii "e" then decodeError d
    else .error .dht
  .ok { t, body }

end TypeBit.Dht
