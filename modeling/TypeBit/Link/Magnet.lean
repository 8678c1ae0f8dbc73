import TypeBit.Link.InfoHash
import TypeBit.Link.Ipv6
import TypeBit.Link.Percent
import TypeBit.Link.Utf8

/-! Magnet links (`magnet.rs`). -/

namespace TypeBit.Link
open Trackers Metainfo

structure Magnet where
  /-- Info hash (either v1 or v2). -/
  infoHash : Option InfoHash := none
  /-- Display name. -/
  name : Option Text := none
  /-- Tracker announce URLs. -/
  trackers : List Text := []
  /-- Exact peer endpoints. -/
  peers : List NetAddr := []
  webSeeds : List Text := []
  sources : List Text := []
  deriving DecidableEq

/-! ### Endpoints -/

def Magnet.parseIpv6 (s : Bytes) : Option (ByteArr 16) :=
  let groups := splitOn (ch ':') s
  if groups.length ≠ 8 then none else (groups.mapM fromStrRadix16).bind fromGroups

def Magnet.parseIpv4Endpoint (s : Bytes) : Option NetAddr := do
  let (ip, port) ← rsplitOnce (ch ':') s
  let port ← parseUint (2 ^ 16 - 1) port
  let ip ← ipv4Literal ip
  return .v4 ip port

/-- `ip:port` or `[ipv6]:port`; names are not resolved here. A bracketed address that is none is tried as `ip:port`,
but one without a port ends it. -/
def Magnet.parseEndpoint (s : Bytes) : Option NetAddr :=
  match (stripPrefix (ch '[' :: []) s).bind (splitOnce (ch ']')) with
  | some (ip, after) =>
      match parseUint (2 ^ 16 - 1) (after.dropWhile (· == ch ':')) with
      | none => none
      | some port =>
          match Magnet.parseIpv6 ip with
          | some bytes => some (.v6 bytes port)
          | none => Magnet.parseIpv4Endpoint s
  | none => Magnet.parseIpv4Endpoint s

/-! ### Base32 of a v1 hash -/

def ALPH : Bytes := ascii "abcdefghijklmnopqrstuvwxyz234567"

/-- The bits taken so far, of which the last `nbits` are not yet part of a byte, and the bytes. -/
structure Sha1Decoder where
  bits : Nat
  nbits : Nat
  out : Bytes

def Sha1Decoder.push (d : Sha1Decoder) (c : UInt8) : Option Sha1Decoder := do
  let v ← ALPH.idxOf? c
  let bits := (d.bits <<< 5) % 2 ^ 32 ||| v
  let nbits := d.nbits + 5
  if 8 ≤ nbits then
    let nbits := nbits - 8
    return ⟨bits, nbits, if d.out.length < 20 then d.out ++ [(bits >>> nbits).toUInt8] else d.out⟩
  else
    return ⟨bits, nbits, d.out⟩

def base32DecodeSha1 (s : Bytes) : Option Bytes := do
  let d ← s.foldlM Sha1Decoder.push ⟨0, 0, []⟩
  if d.out.length ≠ 20 then none else some d.out

/-! ### Parsing and rendering -/

namespace Magnet

def xtHash (v : Bytes) : Option InfoHash :=
  match stripPrefix (ascii "urn:btih:") v with
  | some h =>
      if h.length = 32 then (base32DecodeSha1 h).map InfoHash.v1
      else (InfoHash.fromHex h).toOption
  | none =>
      match stripPrefix (ascii "urn:btmh:") v with
      | some h => (InfoHash.fromMultihash h).toOption
      | none =>
          match stripPrefix (ascii "urn:sha1:") v with
          | some h => (base32DecodeSha1 h).map InfoHash.v1
          | none => none

def assign (m : Magnet) (k v : Bytes) : Magnet :=
  let text := Text.fromUtf8Lossy (percentDecode v)
  if k = ascii "xt" then
    match xtHash text.val with
    | some h => { m with infoHash := some h }
    | none => m
  else if k = ascii "dn" then { m with name := some text }
  else if k = ascii "tr" then { m with trackers := m.trackers ++ [text] }
  else if k = ascii "x.pe" ∨ k = ascii "x.pe1" then
    match parseEndpoint text.val with
    | some a => { m with peers := m.peers ++ [a] }
    | none => m
  else if k = ascii "ws" then { m with webSeeds := m.webSeeds ++ [text] }
  else if k = ascii "as" then { m with sources := m.sources ++ [text] }
  else m

def parsePart (m : Magnet) (part : Bytes) : Magnet :=
  if part = [] then m
  else match splitOnce (ch '=') part with
    | some (k, v) => m.assign k v
    | none => m.assign part []

def parse (uri : Bytes) : Result Magnet :=
  match stripPrefix (ascii "magnet:?") uri with
  | none => .error .magnet
  | some rest =>
      let m := (splitOn (ch '&') rest).foldl parsePart {}
      if m.infoHash = none then .error .magnet else .ok m

def topic (h : InfoHash) : Bytes :=
  ascii "xt=urn:" ++ if h.isV1 then ascii "btih:" ++ h.toHex else ascii "btmh:1220" ++ h.toHex

def toUri (m : Magnet) : Bytes :=
  ascii "magnet:?" ++ ((m.infoHash.map topic).getD [] ++
    ((m.name.map (fun n => ascii "&dn=" ++ percentEncode n.val)).getD [] ++
      m.trackers.flatMap (fun t => ascii "&tr=" ++ percentEncode t.val)))

/-! ### The round trip -/

section Parts
variable (m : Magnet)

theorem parsePart_field {k : Bytes} (filled : k ≠ []) (free : ch '=' ∉ k) (v : Bytes) :
    m.parsePart (k ++ ch '=' :: v) = m.assign k v := by
  have something : k ++ ch '=' :: v ≠ [] := List.append_ne_nil_of_left_ne_nil filled _
  rw [parsePart, if_neg something, splitOnce_append free]

theorem parsePart_name (n : Text) : m.parsePart (ascii "dn=" ++ percentEncode n.val) = { m with name := some n } := by
  have field := m.parsePart_field (k := ascii "dn") (by decide) (by decide) (percentEncode n.val)
  refine field.trans ?_
  rw [assign, if_neg (by decide), if_pos rfl, percentDecode_percentEncode, Text.fromUtf8Lossy_val]

theorem parsePart_tracker (t : Text) :
    m.parsePart (ascii "tr=" ++ percentEncode t.val) = { m with trackers := m.trackers ++ [t] } := by
  have field := m.parsePart_field (k := ascii "tr") (by decide) (by decide) (percentEncode t.val)
  refine field.trans ?_
  rw [assign, if_neg (by decide), if_neg (by decide), if_pos rfl, percentDecode_percentEncode, Text.fromUtf8Lossy_val]

theorem foldl_trackers (ts : List Text) :
    (ts.map (fun t => ascii "tr=" ++ percentEncode t.val)).foldl parsePart m =
      { m with trackers := m.trackers ++ ts } := by
  induction ts generalizing m with
  | nil => rw [List.map_nil, List.foldl_nil, List.append_nil]
  | cons t ts ih => rw [List.map_cons, List.foldl_cons, parsePart_tracker, ih, List.append_assoc, List.singleton_append]

theorem parsePart_topic {v : Bytes} (plain : ∀ c ∈ v, c < 0x80 ∧ c ≠ ch '%' ∧ c ≠ ch '&') :
    m.parsePart (ascii "xt=" ++ v) = (xtHash v).elim m (fun h => { m with infoHash := some h }) := by
  have field := m.parsePart_field (k := ascii "xt") (by decide) (by decide) v
  refine field.trans ?_
  have kept : percentDecode v = v := percentDecode_free fun member => (plain _ member).2.1 rfl
  have text : (Text.fromUtf8Lossy v).val = v := Text.fromUtf8Lossy_ascii fun c member => (plain c member).1
  rw [assign, if_pos rfl, kept, text]
  cases xtHash v <;> rfl

end Parts

theorem xtHash_btih {a : ByteArr 20} {s : Bytes} (form : HexForm a.val s) :
    xtHash (ascii "urn:btih:" ++ s) = some (.v1 a.val) := by
  have digits : s.length = 40 := by rw [form.length, a.property]
  rw [xtHash, stripPrefix_append]
  dsimp only
  rw [if_neg (by rw [digits]; decide), fromHex_v1 form]
  rfl

theorem xtHash_btmh (s : Bytes) : xtHash (ascii "urn:btmh:" ++ s) = (InfoHash.fromMultihash s).toOption := by
  have other : stripPrefix (ascii "urn:btih:") (ascii "urn:btmh:" ++ s) = none := rfl
  rw [xtHash, other, stripPrefix_append]

theorem parse_topic {v : Bytes} (plain : ∀ c ∈ v, c < 0x80 ∧ c ≠ ch '%' ∧ c ≠ ch '&') :
    parse (ascii "magnet:?xt=" ++ v) = (xtHash v).elim (.error .magnet) (fun h => .ok { infoHash := some h }) := by
  have free : ch '&' ∉ ascii "xt=" ++ v := by
    intro separator
    rcases List.mem_append.mp separator with key | value
    · exact absurd key (by decide)
    · exact (plain _ value).2.2 rfl
  have start : stripPrefix (ascii "magnet:?") (ascii "magnet:?xt=" ++ v) = some (ascii "xt=" ++ v) :=
    stripPrefix_append (ascii "magnet:?") (ascii "xt=" ++ v)
  rw [parse, start]
  dsimp only
  rw [splitOn_free free, List.foldl_cons, List.foldl_nil, parsePart_topic {} plain]
  cases xtHash v <;> rfl

set_option maxRecDepth 2000 in
theorem topic_spec {h : InfoHash} (built : h.Built) :
    ∃ v, topic h = ascii "xt=" ++ v ∧ xtHash v = some h ∧ ∀ c ∈ v, c < 0x80 ∧ c ≠ ch '%' ∧ c ≠ ch '&' := by
  have plain {start : Bytes} (kept : ∀ c ∈ start, c < 0x80 ∧ c ≠ ch '%' ∧ c ≠ ch '&') :
      ∀ c ∈ start ++ h.toHex, c < 0x80 ∧ c ≠ ch '%' ∧ c ≠ ch '&' := by
    intro c member
    rcases List.mem_append.mp member with before | digit
    · exact kept c before
    · exact isHex_plain ((hexForm_toHex h).isHex c digit)
  have form := hexForm_toHex h
  rcases built with ⟨a, rfl⟩ | ⟨a, rfl⟩
  · rw [asBytes_v1] at form
    refine ⟨ascii "urn:btih:" ++ (InfoHash.v1 a.val).toHex, rfl, xtHash_btih form, plain (by decide)⟩
  · rw [asBytes_v2] at form
    have read : xtHash (ascii "urn:btmh:1220" ++ (InfoHash.v2 a.val).toHex) = some (.v2 a.val) := by
      refine (xtHash_btmh (ascii "1220" ++ (InfoHash.v2 a.val).toHex)).trans ?_
      rw [fromMultihash_prefixed, fromHex_v2 form]
      rfl
    exact ⟨ascii "urn:btmh:1220" ++ (InfoHash.v2 a.val).toHex, rfl, read, plain (by decide)⟩

def fields (m : Magnet) : List Bytes :=
  (m.name.map (fun n => ascii "dn=" ++ percentEncode n.val)).toList ++
    m.trackers.map (fun t => ascii "tr=" ++ percentEncode t.val)

theorem toUri_eq {m : Magnet} {h : InfoHash} (hash : m.infoHash = some h) :
    m.toUri = ascii "magnet:?" ++ (topic h ++ m.fields.flatMap (ch '&' :: ·)) := by
  unfold toUri fields
  rw [hash, List.flatMap_append, List.flatMap_map]
  cases m.name with
  | none => rfl
  | some n =>
    simp only [Option.map_some, Option.getD_some, Option.toList_some, List.flatMap_singleton]
    rfl

theorem fields_free (m : Magnet) : ∀ q ∈ m.fields, ch '&' ∉ q := by
  intro q member separator
  rcases List.mem_append.mp member with name | tracker
  · obtain ⟨n, -, rfl⟩ := Option.mem_map.mp (Option.mem_toList.mp name)
    rcases List.mem_append.mp separator with key | text
    · exact absurd key (by decide)
    · exact percentEncode_free n.val text
  · obtain ⟨t, -, rfl⟩ := List.mem_map.mp tracker
    rcases List.mem_append.mp separator with key | text
    · exact absurd key (by decide)
    · exact percentEncode_free t.val text

/-- A rendered link is parsed to its hash, its name and its trackers in order, whatever text they hold; and percent
encoding is undone on all bytes. -/
theorem parse_toUri {m : Magnet} {h : InfoHash} (hash : m.infoHash = some h) (built : h.Built) :
    parse m.toUri = .ok { infoHash := m.infoHash, name := m.name, trackers := m.trackers } ∧
      ∀ s, percentDecode (percentEncode s) = s := by
  obtain ⟨v, topic_eq, found, plain⟩ := topic_spec built
  have topic_free : ch '&' ∉ topic h := by
    intro separator
    rw [topic_eq] at separator
    rcases List.mem_append.mp separator with key | value
    · exact absurd key (by decide)
    · exact (plain _ value).2.2 rfl
  have first : parsePart {} (topic h) = { infoHash := some h } := by
    rw [topic_eq, parsePart_topic {} plain, found]
    rfl
  have all : (topic h :: m.fields).foldl parsePart {} =
      { infoHash := m.infoHash, name := m.name, trackers := m.trackers } := by
    rw [List.foldl_cons, first, fields, List.foldl_append, foldl_trackers, hash]
    cases m.name with
    | none => rfl
    | some n =>
      rw [Option.map_some, Option.toList_some, List.foldl_cons, List.foldl_nil, parsePart_name]
      rfl
  refine ⟨?_, percentDecode_percentEncode⟩
  rw [parse, toUri_eq hash, stripPrefix_append]
  dsimp only
  rw [splitOn_flatMap topic_free m.fields_free, all, hash]
  rfl

/-- A v2 hash that begins as a multihash does, a name with every separator, and a tracker outside ASCII. -/
def samples : Magnet where
  infoHash := some (.v2 (ByteArr.replicate 32 0x12).val)
  name := some ⟨ascii "a &b=c%41+#", by decide⟩
  trackers := [⟨[0xC3, 0xA9], by decide⟩, ⟨ascii "udp://t:1/x?y=z&tr=", by decide⟩]

theorem parse_toUri_samples :
    parse samples.toUri = .ok samples ∧ ∀ s, percentDecode (percentEncode s) = s :=
  parse_toUri (m := samples) rfl (.inr ⟨_, rfl⟩)

end Magnet
end TypeBit.Link
