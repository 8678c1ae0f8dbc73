import TypeBit.Dht.Datagram
import TypeBit.Wire.Fields

/-! Decoding a KRPC message that was encoded (`dht.rs`). The format lists IPv4 endpoints before IPv6 ones, carries neither the
age nor the failures of a node, and does not tag responses: their kind is read off the fields that are there. -/

namespace TypeBit.Dht
open Bencode Metainfo Wire

/-! ### What the format carries -/

def Resp.id : Resp → NodeId
  | ping id => id
  | findNode id _ => id
  | getPeers id _ _ _ => id
  | announcePeer id => id

def Resp.PortsFit : Resp → Prop
  | ping _ => True
  | findNode _ nodes => ∀ n ∈ nodes, n.addr.PortFits
  | getPeers _ _ values nodes => (∀ v ∈ values, v.PortFits) ∧ ∀ n ∈ nodes, n.addr.PortFits
  | announcePeer _ => True

/-- The messages the engine builds: the integers fit their types, a text is UTF-8, and a response names its responder once. -/
def KrpcBody.Built : KrpcBody → Prop
  | query _ args => (∀ p ∈ args.port, p < 2 ^ 16) ∧ ∀ p ∈ args.impliedPort, p < 2 ^ 8
  | response id resp _ => resp.id = id ∧ resp.PortsFit
  | error code msg => (-2 ^ 31 ≤ code ∧ code < 2 ^ 31) ∧ utf8Valid msg.length msg = true

def normalValues (values : List NetAddr) : List NetAddr := values.filter isV4 ++ values.filter fun v => !isV4 v

def normalNodes (nodes : List NodeEntry) : List NodeEntry :=
  ((nodes.filter fun n => isV4 n.addr) ++ nodes.filter fun n => !isV4 n.addr).map fun n => { n with lastSeen := 0, failed := 0 }

def Resp.normal : Resp → Resp
  | ping id => .ping id
  | findNode id nodes => .findNode id (normalNodes nodes)
  | getPeers id token values nodes => .getPeers id token (normalValues values) (normalNodes nodes)
  | announcePeer id => .ping id

def KrpcMsg.normal (m : KrpcMsg) : KrpcMsg :=
  { m with
    body := match m.body with
      | .response id resp ip => .response id resp.normal (ip.filter fun b => b.length = 4 ∨ b.length = 16)
      | body => body }

def KrpcMsg.value (m : KrpcMsg) : BVal := dict ([("t", .bytes m.t)] ++ m.body.entries)

/-! ### Compact endpoints and nodes -/

variable {n port : Nat}

theorem chunks_append (positive : 0 < n) {c : Bytes} (full : c.length = n) (rest : Bytes) :
    chunks n (c ++ rest) = c :: chunks n rest := by
  have more : (c ++ rest).length / n = rest.length / n + 1 := by
    rw [List.length_append, full, Nat.add_comm, Nat.add_div_right _ positive]
  unfold chunks
  rw [more, List.range_succ_eq_map, List.map_cons, List.map_map]
  congr 1
  · rw [Nat.zero_mul, List.drop_zero, List.take_left' full]
  · apply List.map_congr_left
    intro i _
    have later : (i + 1) * n = c.length + i * n := by rw [full, Nat.succ_mul, Nat.add_comm]
    simp only [Function.comp_apply, Nat.succ_eq_add_one]
    rw [later, List.drop_length_add_append]

theorem chunks_flatten (positive : 0 < n) {l : List Bytes} (full : ∀ c ∈ l, c.length = n) : chunks n l.flatten = l := by
  induction l with
  | nil => simp [chunks]
  | cons c tail ih =>
    rw [List.flatten_cons, chunks_append positive (full c List.mem_cons_self),
      ih fun d member => full d (List.mem_cons_of_mem c member)]

theorem port16_bytes (fits : port < 2 ^ 16) : NetAddr.port16 (port / 2 ^ 8).toUInt8 port.toUInt8 = port := by
  unfold NetAddr.port16
  simp only [Nat.toUInt8_eq, UInt8.toNat_ofNat']
  omega

theorem fromCompact6_bytes (ip : ByteArr 4) (fits : port < 2 ^ 16) :
    NetAddr.fromCompact6 (ip.val ++ [(port / 2 ^ 8).toUInt8, port.toUInt8]) = some (.v4 ip port) := by
  obtain ⟨bytes, four⟩ := ip
  have whole : (bytes ++ [(port / 2 ^ 8).toUInt8, port.toUInt8]).length = 6 := by simp [four]
  unfold NetAddr.fromCompact6
  rw [dif_pos whole]
  simpa [List.take_left' four, four] using port16_bytes fits

theorem fromCompact18_bytes (ip : ByteArr 16) (fits : port < 2 ^ 16) :
    NetAddr.fromCompact18 (ip.val ++ [(port / 2 ^ 8).toUInt8, port.toUInt8]) = some (.v6 ip port) := by
  obtain ⟨bytes, sixteen⟩ := ip
  have whole : (bytes ++ [(port / 2 ^ 8).toUInt8, port.toUInt8]).length = 18 := by simp [sixteen]
  unfold NetAddr.fromCompact18
  rw [dif_pos whole]
  simpa [List.take_left' sixteen, sixteen] using port16_bytes fits

theorem read_values (positive : 0 < n) {write : NetAddr → Option Bytes} {read : Bytes → Option NetAddr}
    {family : NetAddr → Bool} {values : List NetAddr} (length : ∀ v c, write v = some c → c.length = n)
    (back : ∀ v ∈ values, (write v).bind read = if family v then some v else none) :
    (chunks n (values.filterMap write).flatten).filterMap read = values.filter family := by
  rw [chunks_flatten positive, List.filterMap_filterMap]
  · clear length
    induction values with
    | nil => rfl
    | cons v tail ih =>
      have later := ih fun w member => back w (List.mem_cons_of_mem v member)
      rw [List.filterMap_cons, back v List.mem_cons_self, later, List.filter_cons]
      split_ifs <;> rfl
  · intro c member
    obtain ⟨v, -, written⟩ := List.mem_filterMap.mp member
    exact length v c written

theorem length_toCompact6 (v : NetAddr) (c : Bytes) (written : v.toCompact6 = some c) : c.length = 6 := by
  cases v with
  | v4 ip port =>
    cases written
    simp [ip.2]
  | v6 ip port => cases written

theorem length_toCompact18 (v : NetAddr) (c : Bytes) (written : v.toCompact18 = some c) : c.length = 18 := by
  cases v with
  | v4 ip port => cases written
  | v6 ip port =>
    cases written
    simp [ip.2]

theorem toCompact6_back {v : NetAddr} (fits : v.PortFits) :
    v.toCompact6.bind NetAddr.fromCompact6 = if isV4 v then some v else none := by
  cases v with
  | v4 ip port => exact fromCompact6_bytes ip fits
  | v6 ip port => rfl

theorem toCompact18_back {v : NetAddr} (fits : v.PortFits) :
    v.toCompact18.bind NetAddr.fromCompact18 = if !isV4 v then some v else none := by
  cases v with
  | v4 ip port => rfl
  | v6 ip port => exact fromCompact18_bytes ip fits

theorem parseNode_append {endpoint : Bytes → Option NetAddr} (id : NodeId) {c : Bytes} {addr : NetAddr}
    (read : endpoint c = some addr) : parseNode endpoint (id.val ++ c) = some { id, addr, lastSeen := 0, failed := 0 } := by
  have rest : (id.val ++ c).drop 20 = c := List.drop_left' id.2
  have front : (id.val ++ c).take 20 = id.val := List.take_left' id.2
  unfold parseNode
  rw [rest, read]
  simp [front, id.2]

theorem read_nodes (positive : 0 < n) {write : NodeEntry → Bytes} {read : Bytes → Option NetAddr}
    {nodes : List NodeEntry} (length : ∀ m ∈ nodes, (write m).length = n)
    (back : ∀ m ∈ nodes, parseNode read (write m) = some { m with lastSeen := 0, failed := 0 }) :
    (chunks n (nodes.map write).flatten).filterMap (parseNode read) =
      nodes.map fun m => { m with lastSeen := 0, failed := 0 } := by
  have sized : ∀ c ∈ nodes.map write, c.length = n := by
    intro c member
    obtain ⟨m, present, rfl⟩ := List.mem_map.mp member
    exact length m present
  rw [chunks_flatten positive sized, List.filterMap_map, ← List.filterMap_eq_map]
  exact List.filterMap_congr back

theorem node4_back {n : NodeEntry} (fits : n.addr.PortFits) (v4 : isV4 n.addr = true) :
    (nodeToCompact4 n).length = 26 ∧
      parseNode NetAddr.fromCompact6 (nodeToCompact4 n) = some { n with lastSeen := 0, failed := 0 } := by
  obtain ⟨id, addr, lastSeen, failed⟩ := n
  cases addr with
  | v4 ip port =>
    refine ⟨?_, parseNode_append id (fromCompact6_bytes ip fits)⟩
    simp [nodeToCompact4, NetAddr.toCompact6, id.2, ip.2]
  | v6 ip port => cases v4

theorem node6_back {n : NodeEntry} (fits : n.addr.PortFits) (v6 : isV4 n.addr = false) :
    (nodeToCompact6 n).length = 38 ∧
      parseNode NetAddr.fromCompact18 (nodeToCompact6 n) = some { n with lastSeen := 0, failed := 0 } := by
  obtain ⟨id, addr, lastSeen, failed⟩ := n
  cases addr with
  | v4 ip port => cases v6
  | v6 ip port =>
    refine ⟨?_, parseNode_append id (fromCompact18_bytes ip fits)⟩
    simp [nodeToCompact6, NetAddr.toCompact18, id.2, ip.2]

/-! ### Fields of a response -/

/-- A field holds these bytes, or is left out because there are none. -/
def Written (v : Option BVal) (b : Bytes) : Prop := v = some (.bytes b) ∨ (v = none ∧ b = [])

theorem Written.bytes {v : Option BVal} {b : Bytes} (written : Written v b) : (v.bind BVal.asBytes).getD [] = b := by
  rcases written with rfl | ⟨rfl, rfl⟩ <;> rfl

theorem written_bytes? (name : String) (b : Bytes) : Written (at? (fields (PexMsg.bytes? name b)) name) b := by
  rw [at?_fields_bytes?]
  by_cases empty : b = []
  · exact .inr ⟨if_neg fun both => both.2 empty, empty⟩
  · exact .inl (if_pos ⟨rfl, empty⟩)

theorem parseNodes_written {r : Dict} {nodes : List NodeEntry} (fits : ∀ n ∈ nodes, n.addr.PortFits)
    (v4 : Written (at? r "nodes") (compactNodes nodes).1) (v6 : Written (at? r "nodes6") (compactNodes nodes).2) :
    parseNodes r = normalNodes nodes := by
  have first : parseCompactNodes (at? r "nodes") =
      (nodes.filter fun n => isV4 n.addr).map fun n => { n with lastSeen := 0, failed := 0 } := by
    unfold parseCompactNodes
    rw [v4.bytes]
    apply read_nodes (by decide)
    · intro n member
      obtain ⟨present, family⟩ := List.mem_filter.mp member
      exact (node4_back (fits n present) family).1
    · intro n member
      obtain ⟨present, family⟩ := List.mem_filter.mp member
      exact (node4_back (fits n present) family).2
  have second : parseCompactNodes6 (at? r "nodes6") =
      (nodes.filter fun n => !isV4 n.addr).map fun n => { n with lastSeen := 0, failed := 0 } := by
    unfold parseCompactNodes6
    rw [v6.bytes]
    apply read_nodes (by decide)
    · intro n member
      obtain ⟨present, family⟩ := List.mem_filter.mp member
      exact (node6_back (fits n present) (by simpa using family)).1
    · intro n member
      obtain ⟨present, family⟩ := List.mem_filter.mp member
      exact (node6_back (fits n present) (by simpa using family)).2
  rw [parseNodes, first, second, normalNodes, List.map_append]

theorem parseValuesField_written {v v6 : Option BVal} {values : List NetAddr} (fits : ∀ a ∈ values, a.PortFits)
    (first : Written v (compactPeers values).1) (second : Written v6 (compactPeers values).2) :
    parseValuesField v v6 = normalValues values := by
  have four : (chunks 6 (compactPeers values).1).filterMap NetAddr.fromCompact6 = values.filter isV4 :=
    read_values (by decide) length_toCompact6 fun a member => toCompact6_back (fits a member)
  have six : (chunks 18 (compactPeers values).2).filterMap NetAddr.fromCompact18 = values.filter fun a => !isV4 a :=
    read_values (by decide) length_toCompact18 fun a member => toCompact18_back (fits a member)
  rw [normalValues, ← four, ← six]
  rcases first with rfl | ⟨rfl, none⟩ <;> rcases second with rfl | ⟨rfl, none'⟩ <;> simp_all [parseValuesField, chunks]

/-! ### Reading back -/

theorem read20_val (id : ByteArr 20) : read20 id.val = .ok id := dif_pos id.2

theorem decodeMethod_name (q : Method) : decodeMethod q.name = .ok q := by cases q <;> decide

theorem utf8Valid_name (q : Method) : utf8Valid q.name.length q.name = true := by cases q <;> decide

theorem at?_args (args : Args) :
    at? (fields args.entries) "id" = some (.bytes args.id.val) ∧
      at? (fields args.entries) "target" = args.target.map (fun t => .bytes t.val) ∧
      at? (fields args.entries) "info_hash" = args.infoHash.map (fun h => .bytes h.val) ∧
      at? (fields args.entries) "port" = args.port.map (fun p => .int p) ∧
      at? (fields args.entries) "token" = args.token.map .bytes ∧
      at? (fields args.entries) "implied_port" = args.impliedPort.map (fun p => .int p) := by
  simp +decide [Args.entries, at?_fields_append, at?_fields_cons, at?_fields_entry]

theorem bytes_back (o : Option Bytes) : (o.map BVal.bytes).bind BVal.asBytes = o := by cases o <;> rfl

theorem read20_back (o : Option (ByteArr 20)) :
    (((o.map fun b => BVal.bytes b.val).bind BVal.asBytes).bind fun b => (read20 b).toOption) = o := by
  cases o with
  | none => rfl
  | some id => exact congrArg Except.toOption (read20_val id)

theorem port_back {bits : Nat} {o : Option Nat} (fits : ∀ p ∈ o, p < 2 ^ bits) :
    (((o.map fun p : Nat => BVal.int p).bind BVal.asInt).map fun i => (i % 2 ^ bits).toNat) = o := by
  cases o with
  | none => rfl
  | some p =>
    have small : p % 2 ^ bits = p := Nat.mod_eq_of_lt (fits p rfl)
    have cast : ((p : Int) % 2 ^ bits).toNat = p % 2 ^ bits := by
      exact_mod_cast Int.toNat_natCast (p % 2 ^ bits)
    exact congrArg some (cast.trans small)

theorem decodeQuery_entries (t : Bytes) (q : Method) {args : Args} (built : (KrpcBody.query q args).Built) :
    decodeQuery (fields ([("t", .bytes t)] ++ (KrpcBody.query q args).entries)) = .ok (.query q args) := by
  have named : strAt (fields ([("t", .bytes t)] ++ (KrpcBody.query q args).entries)) "q" = some q.name := by
    simp +decide [strAt, bytesAt, at?_fields_cons, KrpcBody.entries, BVal.asBytes, utf8Valid_name]
  have given : dictAt (fields ([("t", .bytes t)] ++ (KrpcBody.query q args).entries)) "a" = some (fields args.entries) := by
    simp +decide [dictAt, at?_fields_cons, KrpcBody.entries, dict_fields, BVal.asDict]
  obtain ⟨id, target, infoHash, port, token, impliedPort⟩ := at?_args args
  unfold decodeQuery
  rw [named, given]
  simp only [okOr, bind, Except.bind, id, Option.bind_some, BVal.asBytes, read20_val, decodeMethod_name, bytesAt, intAt, target, infoHash, port, token,
    impliedPort, read20_back, bytes_back, port_back built.1, port_back built.2]

def replyFields (id : NodeId) (resp : Resp) (observed : Option Bytes) : Dict :=
  fields ([("id", .bytes id.val)] ++ entry? "ip" observed .bytes ++ resp.entries)

theorem at?_reply (id : NodeId) (resp : Resp) (observed : Option Bytes) {key : String} (notId : ascii "id" ≠ ascii key)
    (notIp : ascii "ip" ≠ ascii key) : at? (replyFields id resp observed) key = at? (fields resp.entries) key := by
  unfold replyFields
  rw [at?_fields_append, at?_fields_append, at?_fields_entry, if_neg notIp, at?_fields_singleton, if_neg notId, Option.or_none,
    Option.or_none]

theorem at?_entries (resp : Resp) : at? (fields resp.entries) "id" = none ∧ at? (fields resp.entries) "ip" = none := by
  cases resp <;> simp +decide [Resp.entries, at?_fields_append, at?_fields_cons, at?_fields_bytes?]

theorem at?_reply_id (id : NodeId) (resp : Resp) (observed : Option Bytes) :
    at? (replyFields id resp observed) "id" = some (.bytes id.val) := by
  unfold replyFields
  rw [at?_fields_append, (at?_entries resp).1, at?_fields_append, at?_fields_entry, at?_fields_singleton]
  simp +decide

theorem at?_reply_ip (id : NodeId) (resp : Resp) (observed : Option Bytes) :
    at? (replyFields id resp observed) "ip" = observed.map .bytes := by
  unfold replyFields
  rw [at?_fields_append, (at?_entries resp).2, at?_fields_append, at?_fields_entry, at?_fields_singleton]
  simp +decide

def readResp (id : NodeId) (r : Dict) : Resp :=
  if (at? r "token").isSome then
    Resp.getPeers id ((bytesAt r "token").getD []) (parseValuesField (at? r "values") (at? r "values6")) (parseNodes r)
  else if (at? r "nodes").isSome then .findNode id (parseNodes r)
  else .ping id

theorem readResp_reply {id : NodeId} {resp : Resp} (same : resp.id = id) (fits : resp.PortsFit) (observed : Option Bytes) :
    readResp id (replyFields id resp observed) = resp.normal := by
  subst same
  have token := at?_reply resp.id resp observed (by decide) (by decide : ascii "ip" ≠ ascii "token")
  have values := at?_reply resp.id resp observed (by decide) (by decide : ascii "ip" ≠ ascii "values")
  have values6 := at?_reply resp.id resp observed (by decide) (by decide : ascii "ip" ≠ ascii "values6")
  have nodes := at?_reply resp.id resp observed (by decide) (by decide : ascii "ip" ≠ ascii "nodes")
  have nodes6 := at?_reply resp.id resp observed (by decide) (by decide : ascii "ip" ≠ ascii "nodes6")
  unfold readResp bytesAt
  cases resp with
  | ping id => rw [token, nodes]; rfl
  | announcePeer id => rw [token, nodes]; rfl
  | findNode id list =>
    have untagged : at? (fields (Resp.findNode id list).entries) "token" = none := by
      simp +decide [Resp.entries, at?_fields_cons, at?_fields_bytes?]
    have v4 : at? (fields (Resp.findNode id list).entries) "nodes" = some (.bytes (compactNodes list).1) := by
      simp +decide [Resp.entries, at?_fields_cons, at?_fields_bytes?]
    have v6 : at? (fields (Resp.findNode id list).entries) "nodes6" =
        at? (fields (PexMsg.bytes? "nodes6" (compactNodes list).2)) "nodes6" := by
      simp +decide [Resp.entries, at?_fields_cons, at?_fields_bytes?]
    rw [parseNodes_written fits (.inl (nodes.trans v4)) ((nodes6.trans v6) ▸ written_bytes? _ _), token, nodes, untagged, v4]
    rfl
  | getPeers id tok peers list =>
    have tagged : at? (fields (Resp.getPeers id tok peers list).entries) "token" = some (.bytes tok) := by
      simp +decide [Resp.entries, at?_fields_append, at?_fields_cons, at?_fields_bytes?]
    have p4 : at? (fields (Resp.getPeers id tok peers list).entries) "values" =
        at? (fields (PexMsg.bytes? "values" (compactPeers peers).1)) "values" := by
      simp +decide [Resp.entries, at?_fields_append, at?_fields_cons, at?_fields_bytes?]
    have p6 : at? (fields (Resp.getPeers id tok peers list).entries) "values6" =
        at? (fields (PexMsg.bytes? "values6" (compactPeers peers).2)) "values6" := by
      simp +decide [Resp.entries, at?_fields_append, at?_fields_cons, at?_fields_bytes?]
    have v4 : at? (fields (Resp.getPeers id tok peers list).entries) "nodes" =
        at? (fields (PexMsg.bytes? "nodes" (compactNodes list).1)) "nodes" := by
      simp +decide [Resp.entries, at?_fields_append, at?_fields_cons, at?_fields_bytes?]
    have v6 : at? (fields (Resp.getPeers id tok peers list).entries) "nodes6" =
        at? (fields (PexMsg.bytes? "nodes6" (compactNodes list).2)) "nodes6" := by
      simp +decide [Resp.entries, at?_fields_append, at?_fields_cons, at?_fields_bytes?]
    rw [parseNodes_written fits.2 ((nodes.trans v4) ▸ written_bytes? _ _) ((nodes6.trans v6) ▸ written_bytes? _ _),
      parseValuesField_written fits.1 ((values.trans p4) ▸ written_bytes? _ _) ((values6.trans p6) ▸ written_bytes? _ _), token, tagged]
    rfl

theorem filter_twice (ip : Option Bytes) :
    ((ip.filter fun b => b.length = 4 ∨ b.length = 16).filter
      fun b => b.length = 4 ∨ b.length = 6 ∨ b.length = 16 ∨ b.length = 18) = ip.filter fun b => b.length = 4 ∨ b.length = 16 := by
  rw [Option.filter_filter]
  congr 1
  funext b
  by_cases four : b.length = 4 <;> by_cases sixteen : b.length = 16 <;> simp [four, sixteen]

theorem decodeResponse_entries (t : Bytes) {id : NodeId} {resp : Resp} {ip : Option Bytes}
    (built : (KrpcBody.response id resp ip).Built) :
    decodeResponse (fields ([("t", .bytes t)] ++ (KrpcBody.response id resp ip).entries)) =
      .ok (.response id resp.normal (ip.filter fun b => b.length = 4 ∨ b.length = 16)) := by
  have given : dictAt (fields ([("t", .bytes t)] ++ (KrpcBody.response id resp ip).entries)) "r" =
      some (replyFields id resp (ip.filter fun b => b.length = 4 ∨ b.length = 16)) := by
    simp +decide [dictAt, at?_fields_cons, KrpcBody.entries, dict_fields, BVal.asDict, replyFields]
  have read := readResp_reply built.1 built.2 (ip.filter fun b => b.length = 4 ∨ b.length = 16)
  unfold readResp at read
  unfold decodeResponse
  rw [given]
  simp only [okOr, bind, Except.bind, bytesAt, at?_reply_id, at?_reply_ip, Option.bind_some, BVal.asBytes, read20_val, bytes_back,
    filter_twice]
  exact congrArg (fun resp => Except.ok (KrpcBody.response id resp _)) read

theorem decodeError_entries (t : Bytes) {code : Int} {msg : Bytes} (built : (KrpcBody.error code msg).Built) :
    decodeError (fields ([("t", .bytes t)] ++ (KrpcBody.error code msg).entries)) = .ok (.error code msg) := by
  obtain ⟨⟨low, high⟩, text⟩ := built
  have given : listAt (fields ([("t", .bytes t)] ++ (KrpcBody.error code msg).entries)) "e" = some [.int code, .bytes msg] := by
    simp +decide [listAt, at?_fields_cons, KrpcBody.entries, BVal.asList]
  have whole : (code + 2 ^ 31) % 2 ^ 32 - 2 ^ 31 = code := by omega
  have kept : ((some msg).filter fun b => utf8Valid b.length b) = some msg := Option.filter_eq_some_iff.mpr ⟨rfl, text⟩
  unfold decodeError
  rw [given]
  change Except.ok (KrpcBody.error ((code + 2 ^ 31) % 2 ^ 32 - 2 ^ 31) (Option.getD (Option.filter _ (some msg)) [])) = _
  rw [whole, kept]
  rfl

def Plain (n : Nat) (v : BVal) : Prop := v.Valid ∧ v.depth < n

theorem plain_bytes (b : Bytes) (positive : 0 < n) : Plain n (.bytes b) := ⟨trivial, positive⟩

theorem plain_int {i : Int} (low : -2 ^ 63 ≤ i) (high : i < 2 ^ 63) (positive : 0 < n) : Plain n (.int i) :=
  ⟨⟨low, high⟩, positive⟩

theorem plain_dict {entries : List (String × BVal)} (each : ∀ e ∈ entries, Plain n e.2) : Plain (n + 1) (dict entries) :=
  ⟨valid_dict fun e member => (each e member).1, Nat.lt_succ_of_le (depth_dict fun e member => (each e member).2)⟩

theorem plain_entry {α : Type} {name : String} {value : Option α} {make : α → BVal}
    (each : ∀ v ∈ value, Plain n (make v)) : ∀ e ∈ entry? name value make, Plain n e.2 := by
  intro e member
  cases value with
  | none => cases member
  | some v =>
    cases List.mem_singleton.mp member
    exact each v rfl

theorem plain_bytes? {name : String} {b : Bytes} (positive : 0 < n) : ∀ e ∈ PexMsg.bytes? name b, Plain n e.2 := by
  intro e member
  unfold PexMsg.bytes? at member
  split at member
  · cases member
  · cases List.mem_singleton.mp member
    exact plain_bytes b positive

theorem plain_args {q : Method} {args : Args} (built : (KrpcBody.query q args).Built) : ∀ e ∈ args.entries, Plain 1 e.2 := by
  have number {bits : Nat} {o : Option Nat} (few : bits ≤ 16) (fits : ∀ p ∈ o, p < 2 ^ bits) : ∀ p ∈ o, Plain 1 (.int p) := by
    intro p there
    have most : 2 ^ bits ≤ 2 ^ 16 := Nat.pow_le_pow_right (by decide) few
    have small := fits p there
    exact plain_int (by omega) (by omega) (by decide)
  unfold Args.entries
  simp only [List.forall_mem_append, List.forall_mem_singleton]
  exact ⟨⟨⟨⟨⟨plain_bytes _ (by decide), plain_entry fun t _ => plain_bytes _ (by decide)⟩,
    plain_entry fun h _ => plain_bytes _ (by decide)⟩, plain_entry (number (by decide) built.1)⟩,
    plain_entry fun b _ => plain_bytes b (by decide)⟩, plain_entry (number (by decide) built.2)⟩

theorem plain_resp (resp : Resp) : ∀ e ∈ resp.entries, Plain 1 e.2 := by
  cases resp with
  | ping id => exact fun e none => absurd none List.not_mem_nil
  | announcePeer id => exact fun e none => absurd none List.not_mem_nil
  | findNode id nodes =>
    unfold Resp.entries
    simp only [List.forall_mem_append, List.forall_mem_singleton]
    exact ⟨plain_bytes _ (by decide), plain_bytes? (by decide)⟩
  | getPeers id token values nodes =>
    unfold Resp.entries
    simp only [List.forall_mem_append, List.forall_mem_singleton]
    exact ⟨⟨⟨⟨plain_bytes _ (by decide), plain_bytes? (by decide)⟩, plain_bytes? (by decide)⟩, plain_bytes? (by decide)⟩,
      plain_bytes? (by decide)⟩

theorem plain_entries {body : KrpcBody} (built : body.Built) : ∀ e ∈ body.entries, Plain 2 e.2 := by
  cases body with
  | query q args =>
    simp only [KrpcBody.entries, List.forall_mem_cons]
    exact ⟨plain_bytes _ (by decide), plain_bytes _ (by decide), plain_dict (plain_args built), fun e none => absurd none List.not_mem_nil⟩
  | response id resp ip =>
    simp only [KrpcBody.entries, List.forall_mem_cons]
    refine ⟨plain_bytes _ (by decide), plain_dict ?_, fun e none => absurd none List.not_mem_nil⟩
    simp only [List.forall_mem_append, List.forall_mem_singleton]
    exact ⟨⟨plain_bytes _ (by decide), plain_entry fun b _ => plain_bytes b (by decide)⟩, plain_resp resp⟩
  | error code msg =>
    simp only [KrpcBody.entries, List.forall_mem_cons]
    refine ⟨plain_bytes _ (by decide), ⟨?_, by simp [BVal.depth, depthItems]⟩, fun e none => absurd none List.not_mem_nil⟩
    have range := built.1
    exact ⟨⟨by omega, by omega⟩, trivial, trivial⟩

/-- What is decoded is what was encoded, up to what the format does not carry. -/
theorem krpc_round_trip (m : KrpcMsg) (built : m.body.Built) (bounded : m.value.Bounded) : decode (encode m) = .ok m.normal := by
  obtain ⟨t, body⟩ := m
  have parsed : BVal.parse (encode ⟨t, body⟩) = .ok (.dict (fields ([("t", .bytes t)] ++ body.entries))) := by
    have plain : ∀ e ∈ [("t", BVal.bytes t)] ++ body.entries, Plain 2 e.2 :=
      List.forall_mem_append.mpr ⟨List.forall_mem_singleton.mpr (plain_bytes t (by decide)), plain_entries built⟩
    apply parse_dict _ _ bounded
    · exact fun e member => (plain e member).1
    · exact fun e member => (plain e member).2.trans (by decide)
  have transaction : bytesAt (fields ([("t", .bytes t)] ++ body.entries)) "t" = some t := by
    cases body <;> simp +decide [bytesAt, at?_fields_cons, KrpcBody.entries, BVal.asBytes]
  unfold decode
  rw [parsed]
  cases body with
  | query q args =>
    have kind : bytesAt (fields ([("t", .bytes t)] ++ (KrpcBody.query q args).entries)) "y" = some (ascii "q") := by
      simp +decide [bytesAt, at?_fields_cons, KrpcBody.entries, BVal.asBytes]
    have body := decodeQuery_entries t q built
    simp only [bind, Except.bind, BVal.asDict, okOr, transaction, kind, body]
    rfl
  | response id resp ip =>
    have kind : bytesAt (fields ([("t", .bytes t)] ++ (KrpcBody.response id resp ip).entries)) "y" = some (ascii "r") := by
      simp +decide [bytesAt, at?_fields_cons, KrpcBody.entries, BVal.asBytes]
    have body := decodeResponse_entries t built
    simp only [bind, Except.bind, BVal.asDict, okOr, transaction, kind, body]
    rfl
  | error code msg =>
    have kind : bytesAt (fields ([("t", .bytes t)] ++ (KrpcBody.error code msg).entries)) "y" = some (ascii "e") := by
      simp +decide [bytesAt, at?_fields_cons, KrpcBody.entries, BVal.asBytes]
    have body := decodeError_entries t built
    simp only [bind, Except.bind, BVal.asDict, okOr, transaction, kind, body]
    rfl

def farPeer : NetAddr := .v6 (.replicate 16 1) 6881

def nearPeer : NetAddr := .ofOctets 192 0 2 9 6881

def mixedReply : KrpcMsg where
  t := [1]
  body := .response (.replicate 20 1) (.getPeers (.replicate 20 1) [7] [farPeer, nearPeer]
    [⟨.replicate 20 2, farPeer, 5, 0⟩, ⟨.replicate 20 3, nearPeer, 6, 1⟩]) (some [203, 0, 113, 9])

theorem krpc_round_trip_mixed : decode (encode mixedReply) = .ok {
    t := [1]
    body := .response (.replicate 20 1) (.getPeers (.replicate 20 1) [7] [nearPeer, farPeer]
      [⟨.replicate 20 3, nearPeer, 0, 0⟩, ⟨.replicate 20 2, farPeer, 0, 0⟩]) (some [203, 0, 113, 9]) } := by
  have built : mixedReply.body.Built := by
    refine ⟨rfl, ?_, ?_⟩
    · simp [farPeer, nearPeer, NetAddr.ofOctets, NetAddr.PortFits]
    · simp [farPeer, nearPeer, NetAddr.ofOctets, NetAddr.PortFits]
  have bounded : mixedReply.value.Bounded := by
    refine bounded_dict (by decide) ?_
    simp only [mixedReply, KrpcBody.entries, List.cons_append, List.nil_append, List.forall_mem_cons]
    have short {name : String} {b : Bytes} (key : (ascii name).length ≤ MAX_STR_LEN) (value : b.length ≤ MAX_STR_LEN) :
        (ascii name).length ≤ MAX_STR_LEN ∧ (BVal.bytes b).Bounded := ⟨key, value⟩
    refine ⟨short (by decide) (by decide), short (by decide) (by decide), ⟨by decide, bounded_dict (by decide) ?_⟩,
      fun e none => absurd none List.not_mem_nil⟩
    change ∀ e ∈ [("id", BVal.bytes _), ("ip", .bytes _), ("token", .bytes _), ("values", .bytes _), ("values6", .bytes _),
      ("nodes", .bytes _), ("nodes6", .bytes _)], _
    simp only [List.forall_mem_cons]
    exact ⟨short (by decide) (by decide), short (by decide) (by decide), short (by decide) (by decide),
      short (by decide) (by decide), short (by decide) (by decide), short (by decide) (by decide),
      short (by decide) (by decide), fun e none => absurd none List.not_mem_nil⟩
  exact krpc_round_trip mixedReply built bounded

end TypeBit.Dht
