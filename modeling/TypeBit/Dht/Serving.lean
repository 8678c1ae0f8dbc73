import TypeBit.Dht.Store

/-! Whether the DHT engine serves the peers that it acknowledged (`dht.rs`). An announce is answered with success before the
store is cut down to its bound, and the cut takes the smallest infohash, which may be the one just announced. -/

namespace TypeBit.Dht
open Bencode Metainfo Wire OrdMap
set_option maxRecDepth 20000

def stored (d : Dht) (h : Bytes) : List (NetAddr × Nat) := (d.peerStore.get? h).getD []

def served (d : Dht) (infoHash : ByteArr 20) : List NetAddr := (d.stored infoHash.val).map Prod.fst

/-- The store is full, and of larger infohashes only. -/
def Crowded (d : Dht) (infoHash : ByteArr 20) : Prop :=
  d.peerStore.size = PEER_STORE_MAX_HASHES ∧ ∀ h ∈ d.peerStore.keys, infoHash.val < h

/-! ### The two replies -/

theorem announce_reply {digests : Digests} {d : Dht} {payload t : Bytes} {args : Args} {infoHash : ByteArr 20} {token : Bytes}
    (read : decode payload = .ok { t, body := .query .announcePeer args }) (hash : args.infoHash = some infoHash)
    (given : args.token = some token) {source : NetAddr} (valid : d.verifyToken digests source token = true) (now : Nat) :
    (d.handleDatagram digests source payload now).1 =
        some (encode { t, body := .response d.id (.announcePeer d.id) (observedCompact source) }) ∧
      (d.handleDatagram digests source payload now).2.peerStore =
        (d.storePeer infoHash (withPort (announcedPort args source) source) now).peerStore ∧
      (d.handleDatagram digests source payload now).2.id = d.id ∧
      (d.handleDatagram digests source payload now).2.secret = d.secret := by
  have heard : ({ d with table := d.table.onResponse args.id source now } : Dht).verifyToken digests source token = true := valid
  unfold handleDatagram
  rw [read]
  dsimp only
  unfold answer
  dsimp only
  rw [hash, given]
  dsimp only
  rw [if_pos heard]
  exact ⟨rfl, rfl, rfl, rfl⟩

theorem get_peers_reply {digests : Digests} {d : Dht} {question t : Bytes} {args : Args} {infoHash : ByteArr 20}
    (asks : decode question = .ok { t, body := .query .getPeers args }) (hash : args.infoHash.getD NodeId.ZERO = infoHash)
    (asker : NetAddr) (now : Nat) : ∃ token nodes, (d.handleDatagram digests asker question now).1 = some (encode
      { t, body := .response d.id (.getPeers d.id token (d.served infoHash) nodes) (observedCompact asker) }) := by
  refine ⟨d.makeToken digests asker, (d.table.onResponse args.id asker now).closest infoHash K, ?_⟩
  unfold handleDatagram
  rw [asks]
  dsimp only
  unfold answer
  dsimp only
  rw [hash]
  rfl

/-! ### What the bound costs -/

theorem absent_of_crowded {d : Dht} {infoHash : ByteArr 20} (crowded : Crowded d infoHash) :
    d.peerStore.get? infoHash.val = none := by
  cases found : d.peerStore.get? infoHash.val with
  | none => rfl
  | some v => exact absurd (crowded.2 _ ((mem_keys_iff _ _).mpr ⟨v, found⟩)) (lt_irrefl _)

theorem stays_iff {d : Dht} (bounded : d.peerStore.size ≤ PEER_STORE_MAX_HASHES) (infoHash : ByteArr 20)
    (entry : List (NetAddr × Nat)) :
    (capped PEER_STORE_MAX_HASHES (d.peerStore.insert infoHash.val entry)).get? infoHash.val = some entry ↔
      ¬ Crowded d infoHash := by
  have written : (d.peerStore.insert infoHash.val entry).get? infoHash.val = some entry := get?_insert_self ..
  cases found : d.peerStore.get? infoHash.val with
  | some v =>
    have size := size_insert_of_present found entry
    rw [capped_of_le (size ▸ bounded)]
    refine iff_of_true written fun crowded => ?_
    cases found.symm.trans (absent_of_crowded crowded)
  | none =>
    have size := size_insert_of_absent found entry
    by_cases full : d.peerStore.size = PEER_STORE_MAX_HASHES
    · rw [full] at size
      rw [get?_capped_of_over size written]
      unfold Crowded
      constructor
      · rintro ⟨j, listed, below⟩ ⟨-, above⟩
        obtain ⟨v, there⟩ := (mem_keys_iff _ j).mp listed
        rw [get?_insert, if_neg (ne_of_gt below)] at there
        exact lt_asymm below (above j ((mem_keys_iff _ j).mpr ⟨v, there⟩))
      · intro uncrowded
        by_contra lowest
        refine uncrowded ⟨full, fun h listed => ?_⟩
        obtain ⟨v, there⟩ := (mem_keys_iff _ h).mp listed
        have other : infoHash.val ≠ h := by
          rintro rfl
          cases found.symm.trans there
        have inserted : h ∈ (d.peerStore.insert infoHash.val entry).keys := by
          refine (mem_keys_iff _ h).mpr ⟨v, ?_⟩
          rw [get?_insert, if_neg other, there]
        rcases lt_or_gt_of_ne other with above | below
        · exact above
        · exact absurd ⟨h, inserted, below⟩ lowest
    · have room : (d.peerStore.insert infoHash.val entry).size ≤ PEER_STORE_MAX_HASHES := by omega
      rw [capped_of_le room]
      exact iff_of_true written fun crowded => full crowded.1

theorem served_storePeer_iff {d e : Dht} (bounded : d.peerStore.size ≤ PEER_STORE_MAX_HASHES) {infoHash : ByteArr 20}
    {endpoint : NetAddr} {now : Nat} (grown : e.peerStore = (d.storePeer infoHash endpoint now).peerStore) :
    endpoint ∈ e.served infoHash ↔ ¬ Crowded d infoHash := by
  have written : ∀ v, e.peerStore.get? infoHash.val = some v →
      v = announcedEntry ((d.peerStore.get? infoHash.val).getD []) endpoint now := by
    intro v found
    rw [grown, storePeer_store] at found
    have inserted := get?_of_capped found
    rw [get?_insert_self] at inserted
    exact (Option.some.inj inserted).symm
  rw [← stays_iff bounded infoHash (announcedEntry ((d.peerStore.get? infoHash.val).getD []) endpoint now), ← storePeer_store,
    ← grown]
  unfold served stored
  cases found : e.peerStore.get? infoHash.val with
  | none =>
    constructor
    · intro member
      cases member
    · intro same
      cases same
  | some v =>
    rw [written v found]
    exact iff_of_true (List.mem_map_of_mem (endpoint_mem_announcedEntry _ endpoint now)) rfl

/-- In every reachable state an announce with a valid token is acknowledged, and the next query for its infohash is told the
peer exactly when the store was not full of larger infohashes. -/
theorem announce_served_iff {digests : Digests} {d : Dht} (reached : Reachable digests d) {payload t : Bytes} {args : Args}
    {infoHash : ByteArr 20} {token : Bytes} (read : decode payload = .ok { t, body := .query .announcePeer args })
    (hash : args.infoHash = some infoHash) (given : args.token = some token) {source : NetAddr}
    (valid : d.verifyToken digests source token = true) (now : Nat) {question u : Bytes} {asked : Args}
    (asks : decode question = .ok { t := u, body := .query .getPeers asked }) (same : asked.infoHash = some infoHash)
    (asker : NetAddr) (later : Nat) :
    (d.handleDatagram digests source payload now).1 =
        some (encode { t, body := .response d.id (.announcePeer d.id) (observedCompact source) }) ∧
      (∃ token nodes, ((d.handleDatagram digests source payload now).2.handleDatagram digests asker question later).1 =
        some (encode { t := u, body := .response d.id (.getPeers d.id token
            ((d.handleDatagram digests source payload now).2.served infoHash) nodes) (observedCompact asker) })) ∧
      (withPort (announcedPort args source) source ∈ (d.handleDatagram digests source payload now).2.served infoHash ↔
        ¬ Crowded d infoHash) := by
  obtain ⟨acknowledged, stored, sameId, -⟩ := announce_reply read hash given valid now
  obtain ⟨log, run⟩ := run_of_reachable reached
  have whose : asked.infoHash.getD NodeId.ZERO = infoHash := by rw [same, Option.getD_some]
  have told := @get_peers_reply digests (d.handleDatagram digests source payload now).2 question u asked infoHash asks whose
    asker later
  rw [sameId] at told
  exact ⟨acknowledged, told, served_storePeer_iff (wellKept_run run).bounded stored⟩

def questionOf (infoHash : ByteArr 20) : Bytes := queryOf .getPeers { id := lone.id, infoHash := some infoHash }

theorem announce_served_first : withPort 51413 outsider ∈ holding.served sought ↔ ¬ Crowded fresh sought := by
  have read : decode (announceOf sought 51413) = .ok { t := [1], body := .query .announcePeer (tokenArgs sought 51413) } := by
    decide
  have asks : decode (questionOf sought) =
      .ok { t := [1], body := .query .getPeers { id := lone.id, infoHash := some sought } } := by decide
  have valid : fresh.verifyToken tokenDigests outsider (ascii "87258f14be4a5b2a") = true := by decide
  exact (announce_served_iff (.new _ _ _) read rfl rfl valid 0 asks rfl outsider 1).2.2

/-! ### A full store -/

def announceDict (infoHash : ByteArr 20) : Dict :=
  [(ascii "id", .bytes lone.id.val), (ascii "info_hash", .bytes infoHash.val), (ascii "port", .int 6881),
    (ascii "token", .bytes (ascii "87258f14be4a5b2a"))]

def announceValue (infoHash : ByteArr 20) : BVal :=
  .dict [(ascii "a", .dict (announceDict infoHash)), (ascii "q", .bytes (ascii "announce_peer")), (ascii "t", .bytes [1]),
    (ascii "y", .bytes (ascii "q"))]

theorem announceOf_value (infoHash : ByteArr 20) : announceOf infoHash 6881 = encodeValue (announceValue infoHash) := by
  have yt : ¬ ascii "y" < ascii "t" := by decide
  have y_ne_t : ascii "y" ≠ ascii "t" := by decide
  have qt : ascii "q" < ascii "t" := by decide
  have aq : ascii "a" < ascii "q" := by decide
  have hash_id : ¬ ascii "info_hash" < ascii "id" := by decide
  have hash_ne_id : ascii "info_hash" ≠ ascii "id" := by decide
  have port_id : ¬ ascii "port" < ascii "id" := by decide
  have port_ne_id : ascii "port" ≠ ascii "id" := by decide
  have port_hash : ¬ ascii "port" < ascii "info_hash" := by decide
  have port_ne_hash : ascii "port" ≠ ascii "info_hash" := by decide
  have token_id : ¬ ascii "token" < ascii "id" := by decide
  have token_ne_id : ascii "token" ≠ ascii "id" := by decide
  have token_hash : ¬ ascii "token" < ascii "info_hash" := by decide
  have token_ne_hash : ascii "token" ≠ ascii "info_hash" := by decide
  have token_port : ¬ ascii "token" < ascii "port" := by decide
  have token_ne_port : ascii "token" ≠ ascii "port" := by decide
  unfold announceOf queryOf encode
  simp only [dict, KrpcBody.entries, Args.entries, tokenArgs, entry?, Option.map_some, Option.map_none, Option.toList_some,
    Option.toList_none, List.cons_append, List.nil_append, List.append_nil, List.foldl_cons, List.foldl_nil, OrdMap.Raw.insert,
    yt, y_ne_t, qt, aq, hash_id, hash_ne_id, port_id, port_ne_id, port_hash, port_ne_hash, token_id, token_ne_id, token_hash,
    token_ne_hash, token_port, token_ne_port, if_true, if_false]
  rfl

def argsIn (id : NodeId) (a : Dict) : Args where
  id
  target := (bytesAt a "target").bind fun b => (read20 b).toOption
  infoHash := (bytesAt a "info_hash").bind fun b => (read20 b).toOption
  port := (intAt a "port").map fun i => (i % 2 ^ 16).toNat
  token := bytesAt a "token"
  impliedPort := (intAt a "implied_port").map fun i => (i % 2 ^ 8).toNat

theorem decode_query {payload : Bytes} {d a : Dict} (parsed : BVal.parse payload = .ok (.dict d)) {t q sender : Bytes}
    {id : NodeId} {method : Method} (transaction : bytesAt d "t" = some t) (kind : bytesAt d "y" = some (ascii "q"))
    (named : strAt d "q" = some q) (known : decodeMethod q = .ok method) (given : dictAt d "a" = some a)
    (sent : bytesAt a "id" = some sender) (whole : read20 sender = .ok id) :
    decode payload = .ok { t, body := .query method (argsIn id a) } := by
  have body : decodeQuery d = .ok (.query method (argsIn id a)) := by
    unfold decodeQuery
    rw [named, given]
    show (okOr (bytesAt a "id") _ >>= _) = _
    rw [sent]
    show (read20 sender >>= _) = _
    rw [whole]
    show (decodeMethod q >>= _) = _
    rw [known]
    rfl
  unfold decode
  rw [parsed]
  show (okOr (bytesAt d "t") _ >>= _) = _
  rw [transaction]
  show (okOr (bytesAt d "y") _ >>= _) = _
  rw [kind]
  show (decodeQuery d >>= _) = _
  rw [body]
  rfl

theorem decode_announceOf (infoHash : ByteArr 20) :
    decode (announceOf infoHash 6881) = .ok { t := [1], body := .query .announcePeer (tokenArgs infoHash 6881) } := by
  have valid : (announceValue infoHash).Valid := by
    simp only [announceValue, announceDict, BVal.Valid, ValidEntries]
    simp [OrdMap.Raw.Sorted]
    decide
  have bounded : (announceValue infoHash).Bounded := by
    simp [announceValue, announceDict, BVal.Bounded, BoundedEntries, infoHash.2]
    decide
  have parsed : BVal.parse (announceOf infoHash 6881) = .ok (announceValue infoHash) := by
    rw [parse_ok_iff, announceOf_value]
    exact encode_denotes (MAX_DEPTH + 1) _ (by simp [announceValue, announceDict, BVal.depth, depthEntries]; decide) valid bounded
  have hash : read20 infoHash.val = .ok infoHash := dif_pos infoHash.2
  have known : decodeMethod (ascii "announce_peer") = .ok .announcePeer := by decide
  have sent : read20 lone.id.val = .ok lone.id := rfl
  rw [decode_query parsed rfl rfl rfl known (rfl : _ = some (announceDict infoHash)) rfl sent]
  have args : argsIn lone.id (announceDict infoHash) = tokenArgs infoHash 6881 := by
    show ({ tokenArgs infoHash 6881 with infoHash := (read20 infoHash.val).toOption } : Args) = _
    rw [hash]
    rfl
  rw [args]

def spread (n : Nat) : ByteArr 20 := ⟨[1, (n / 256).toUInt8, n.toUInt8] ++ List.replicate 17 0, rfl⟩

def crowd : Nat → Dht
  | 0 => fresh
  | n + 1 => ((crowd n).handleDatagram tokenDigests outsider (announceOf (spread n) 6881) 0).2

theorem spread_injective {m n : Nat} (small : m < 2 ^ 16) (limited : n < 2 ^ 16) (same : (spread m).val = (spread n).val) :
    m = n := by
  have bytes : (m / 256).toUInt8 = (n / 256).toUInt8 ∧ m.toUInt8 = n.toUInt8 := by
    simpa [spread] using same
  have high := congrArg UInt8.toNat bytes.1
  have low := congrArg UInt8.toNat bytes.2
  simp only [Nat.toUInt8_eq, UInt8.toNat_ofNat'] at high low
  omega

theorem token_valid {d : Dht} (secret : d.secret = fresh.secret) :
    d.verifyToken tokenDigests outsider (ascii "87258f14be4a5b2a") = true := by
  unfold verifyToken makeToken
  rw [secret]
  decide

structure Crowd (n : Nat) : Prop where
  reached : Reachable tokenDigests (crowd n)
  id : (crowd n).id = fresh.id
  secret : (crowd n).secret = fresh.secret
  size : (crowd n).peerStore.size = n
  keys : ∀ h v, (crowd n).peerStore.get? h = some v → ∃ i < n, h = (spread i).val

theorem crowd_spec (n : Nat) (small : n ≤ PEER_STORE_MAX_HASHES) : Crowd n := by
  induction n with
  | zero => exact ⟨.new _ _ _, rfl, rfl, rfl, fun h v found => (nomatch found)⟩
  | succ n ih =>
    obtain ⟨reached, id, secret, size, keys⟩ := ih (by omega)
    have read := decode_announceOf (spread n)
    have valid := token_valid secret
    obtain ⟨-, stored, sameId, sameSecret⟩ := announce_reply read rfl rfl valid 0
    have absent : (crowd n).peerStore.get? (spread n).val = none := by
      cases found : (crowd n).peerStore.get? (spread n).val with
      | none => rfl
      | some v =>
        obtain ⟨i, below, same⟩ := keys _ v found
        have bound : PEER_STORE_MAX_HASHES = 1024 := rfl
        have equal := spread_injective (by omega) (by omega) same
        omega
    have grown := size_insert_of_absent absent (announcedEntry (((crowd n).peerStore.get? (spread n).val).getD [])
      (withPort (announcedPort (tokenArgs (spread n) 6881) outsider) outsider) 0)
    rw [storePeer_store, capped_of_le (by omega)] at stored
    have next : crowd (n + 1) = ((crowd n).handleDatagram tokenDigests outsider (announceOf (spread n) 6881) 0).2 := rfl
    rw [← next] at stored sameId sameSecret
    refine ⟨?_, sameId.trans id, sameSecret.trans secret, ?_, ?_⟩
    · rw [next]
      exact reached.datagram outsider (announceOf (spread n) 6881) 0
    · rw [stored, grown, size]
    · intro h v found
      rw [stored, get?_insert] at found
      split at found
      next here => exact ⟨n, Nat.lt_succ_self n, here.symm⟩
      next =>
        obtain ⟨i, below, same⟩ := keys h v found
        exact ⟨i, by omega, same⟩

theorem crowded_zero : Crowded (crowd 1024) NodeId.ZERO := by
  have spec := crowd_spec 1024 (le_refl _)
  refine ⟨spec.size, fun h listed => ?_⟩
  obtain ⟨v, found⟩ := (mem_keys_iff _ h).mp listed
  obtain ⟨i, -, rfl⟩ := spec.keys h v found
  exact List.Lex.rel (by decide)

/-- The infohash of zeros is announced to the full store, which acknowledges it and does not tell the next query. -/
theorem acknowledged_announce_not_served : Reachable tokenDigests (crowd 1024) ∧
    ((crowd 1024).handleDatagram tokenDigests outsider (announceOf NodeId.ZERO 6881) 0).1 = some (encode
      { t := [1], body := .response fresh.id (.announcePeer fresh.id) (observedCompact outsider) }) ∧
    ∃ token values nodes, (((crowd 1024).handleDatagram tokenDigests outsider (announceOf NodeId.ZERO 6881) 0).2.handleDatagram
      tokenDigests outsider (questionOf NodeId.ZERO) 0).1 = some (encode
        { t := [1], body := .response fresh.id (.getPeers fresh.id token values nodes) (observedCompact outsider) }) ∧
      withPort 6881 outsider ∉ values := by
  have spec := crowd_spec 1024 (le_refl _)
  have read := decode_announceOf NodeId.ZERO
  have asks : decode (questionOf NodeId.ZERO) =
      .ok { t := [1], body := .query .getPeers { id := lone.id, infoHash := some NodeId.ZERO } } := by decide
  obtain ⟨acknowledged, stored, sameId, -⟩ := announce_reply read rfl rfl (token_valid spec.secret) 0
  have told := @get_peers_reply tokenDigests ((crowd 1024).handleDatagram tokenDigests outsider (announceOf NodeId.ZERO 6881) 0).2
    _ _ _ NodeId.ZERO asks rfl outsider 0
  have bounded : (crowd 1024).peerStore.size ≤ PEER_STORE_MAX_HASHES := spec.size.le
  have dropped := mt (served_storePeer_iff bounded stored).mp (not_not.mpr crowded_zero)
  rw [sameId, spec.id] at told
  rw [spec.id] at acknowledged
  obtain ⟨token, nodes, reply⟩ := told
  exact ⟨spec.reached, acknowledged, token, _, nodes, reply, dropped⟩

end TypeBit.Dht
