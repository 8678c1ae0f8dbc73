import TypeBit.Bencode.RoundTrip
import TypeBit.Link.InfoHash
import TypeBit.Network.Model
import TypeBit.PortMap.Codec

/-! Local service discovery (`lsd.rs` and its part of `engine.rs`): the announces on the local network, when they are
sent, and what a neighbour's announce leads to. -/

namespace TypeBit.Lsd
open Bencode Trackers Link Wire Socks PortMap Network
set_option maxRecDepth 20000

def LSD_INTERVAL_MIN_MS : Nat := 30000
def LSD_REPLY_GAP_MS : Nat := 10000
def LSD_ANNOUNCE_BURST_MAX : Nat := 20
def LSD_NEIGHBOR_WINDOW_MS : Nat := 90000
def LSD_ACTIVE_INTERVAL_MS : Nat := 20000
def MAX_INFOHASHES_PER_ANNOUNCE : Nat := 32

/-! ### Announces -/

def hostHeader : NetAddr → Bytes
  | .v4 ip _ => joined (ch '.') (ip.val.map fun o => Bencode.decimal o.toNat)
  | .v6 ip _ =>
      ch '[' :: joined (ch ':') ((List.range 8).map fun i => (Nat.toDigits 16 (be16 (ip.val.drop (2 * i)))).map ch) ++
        [ch ']']

def hexEncode (b : Bytes) : Bytes := b.flatMap fun (x : UInt8) => [Link.hexDigit (x >>> 4), Link.hexDigit (x &&& 0xf)]

/-- The packet of an announce; a response has the same shape. -/
def buildAnnounce (infohash : ByteArr 20) (port : Nat) (cookie : Option (ByteArr 8)) (group : NetAddr) : Bytes :=
  ascii "BT-SEARCH * HTTP/1.1\r\n" ++ ascii "Host: " ++ hostHeader group ++ ascii "\r\n" ++ ascii "Port: " ++
    Bencode.decimal port ++ ascii "\r\n" ++ ascii "Infohash: " ++ hexEncode infohash.val ++ ascii "\r\n" ++
    (match cookie with
      | some c => ascii "cookie: " ++ hexEncode c.val ++ ascii "\r\n"
      | none => []) ++ ascii "\r\n"

structure LsdAnnounce where
  port : Nat
  cookie : Option (ByteArr 8)
  infohashes : List (ByteArr 20)
  deriving DecidableEq

/-- What the loop of `parse` has read. -/
structure Headers where
  port : Option Nat := none
  cookie : Option (ByteArr 8) := none
  infohashes : List (ByteArr 20) := []

/-- A value in hexadecimal digits of exactly `n` bytes. -/
def hexArr (n : Nat) (value : Bytes) : Option (ByteArr n) :=
  (hexPairs value).bind fun b => if full : b.length = n then some ⟨b, full⟩ else none

/-- One line of the datagram; none where the whole of it is given up. -/
def parseHeader (acc : Headers) (line : Bytes) : Option Headers :=
  match splitOnce (ch ':') line with
  | none => some acc
  | some (name, rest) =>
      let value := rest.dropWhile isBlank
      if name = ascii "Port" then
        if acc.port.isSome then some acc
        else if utf8Valid value.length value then some { acc with port := parseUint (2 ^ 16 - 1) (trim value) } else none
      else if name = ascii "cookie" then
        if acc.cookie.isSome then some acc else some { acc with cookie := hexArr 8 value }
      else if name = ascii "Infohash" then
        -- What goes beyond the bound is ignored.
        if MAX_INFOHASHES_PER_ANNOUNCE ≤ acc.infohashes.length then some acc
        else some { acc with infohashes := acc.infohashes ++ (hexArr 20 value).toList }
      else some acc

def parse (data : Bytes) : Option LsdAnnounce :=
  if !(ascii "BT-SEARCH").isPrefixOf data then none
  else
    (((splitOn (ch '\n') data).drop 1).foldlM (fun acc line => parseHeader acc (trimCr line)) {}).bind fun found =>
      found.port.bind fun port => if found.infohashes = [] then none else some ⟨port, found.cookie, found.infohashes⟩

/-! ### The scheduler -/

structure LsdScheduler where
  cookie : ByteArr 8
  intervalMs : Nat
  lastAnnounceAt : Nat
  cursor : Nat := 0

namespace LsdScheduler

def new (cookie : ByteArr 8) (now intervalMs : Nat) : LsdScheduler :=
  { cookie, intervalMs := max intervalMs LSD_INTERVAL_MIN_MS, lastAnnounceAt := now - intervalMs }

theorem floor_new (cookie : ByteArr 8) (now intervalMs : Nat) : LSD_INTERVAL_MIN_MS ≤ (new cookie now intervalMs).intervalMs :=
  le_max_right _ _

def dueWith (s : LsdScheduler) (now intervalMs : Nat) : Bool := decide (intervalMs ≤ now - s.lastAnnounceAt)

def nextAnnounceWith (s : LsdScheduler) (active : List (ByteArr 20)) (now intervalMs : Nat) :
    Option (ByteArr 20) × LsdScheduler :=
  if active = [] then (none, s)
  else if now - s.lastAnnounceAt < intervalMs then (none, s)
  else (active[s.cursor % active.length]?, { s with cursor := s.cursor + 1, lastAnnounceAt := now })

end LsdScheduler

/-! ### The engine -/

/-- What the engine does on the local network. -/
inductive Effect where
  | multicast (group : NetAddr) (packet : Bytes)
  | unicast (addr : NetAddr) (packet : Bytes)
  | bootstrap (node : NetAddr)
  | enqueuePeer (infohash : ByteArr 20) (peer : NetAddr)
  deriving DecidableEq

/-- The part of the engine that takes part: its settings, whether it has a DHT node, and the discovery state. -/
structure LsdNode where
  lsdEnabled : Bool := true
  proxied : Bool := false
  udpOpen : Bool := true
  listenPort : Nat
  dht : Bool
  lsd : LsdScheduler
  lastReply : OrdMap NetAddr Nat := ∅
  lastActive : List (ByteArr 20) := []
  sent : Nat := 0
  received : Nat := 0
  discovered : Nat := 0
  lastRecvAt : Nat := 0
  dhtPromoted : OrdMap NetAddr Nat := ∅

namespace LsdNode

def sendLsdAnnounce (n : LsdNode) (ih : ByteArr 20) : List Effect :=
  [.multicast LSD_GROUP_V4 (buildAnnounce ih n.listenPort (some n.lsd.cookie) LSD_GROUP_V4),
    .multicast LSD_GROUP_V6 (buildAnnounce ih n.listenPort (some n.lsd.cookie) LSD_GROUP_V6)]

/-- The hashes that `announce_lsd` announces, of the active ones. -/
def announced (n : LsdNode) (active : List (ByteArr 20)) (now : Nat) : List (ByteArr 20) × LsdNode :=
  if !n.lsdEnabled || n.proxied || !n.udpOpen then ([], n)
  else if active = [] then ([], { n with lastActive := [] })
  else if n.lastActive ≠ active then
    (active.take LSD_ANNOUNCE_BURST_MAX, { n with lastActive := active, lsd := { n.lsd with lastAnnounceAt := now } })
  else
    -- A neighbour heard lately shortens the interval.
    let interval := if now - n.lastRecvAt < LSD_NEIGHBOR_WINDOW_MS then LSD_ACTIVE_INTERVAL_MS else n.lsd.intervalMs
    if !n.lsd.dueWith now interval then ([], n)
    else
      match n.lsd.nextAnnounceWith active now interval with
      | (none, s) => ([], { n with lsd := s })
      | (some ih, s) => ([ih], { n with lsd := s })

def announceLsd (n : LsdNode) (active : List (ByteArr 20)) (now : Nat) : List Effect × LsdNode :=
  let (hashes, n) := n.announced active now
  (hashes.flatMap n.sendLsdAnnounce, { n with sent := satAdd n.sent hashes.length })

def withPort (port : Nat) : NetAddr → NetAddr
  | .v4 ip _ => .v4 ip port
  | .v6 ip _ => .v6 ip port

def groupOf : NetAddr → NetAddr
  | .v4 .. => LSD_GROUP_V4
  | .v6 .. => LSD_GROUP_V6

/-- Entries of the last window only, once there are many. -/
def trimmed (m : OrdMap NetAddr Nat) (now window : Nat) : OrdMap NetAddr Nat :=
  if 1024 < m.size then m.filter fun _ t => decide (now - t < window) else m

/-- A neighbour over IPv4 becomes a DHT node, once a window. -/
def promote (n : LsdNode) (addr : NetAddr) (port now : Nat) : List Effect × LsdNode :=
  match addr with
  | .v6 .. => ([], n)
  | .v4 ip p =>
      if LSD_NEIGHBOR_WINDOW_MS ≤ now - (n.dhtPromoted.get? (.v4 ip p)).getD 0 ∧ n.dht = true then
        ([.bootstrap (.v4 ip port)],
          { n with dhtPromoted := trimmed (n.dhtPromoted.insert (.v4 ip p) now) now LSD_NEIGHBOR_WINDOW_MS })
      else ([], n)

/-- The announce gets an answer: nobody's own echo, from a port, and not too soon after the last. -/
def answers (n : LsdNode) (addr : NetAddr) (payload : Bytes) (now : Nat) : Option LsdAnnounce :=
  (parse payload).filter fun ann =>
    decide (ann.cookie ≠ some n.lsd.cookie) && decide (ann.port ≠ 0) &&
      decide (LSD_REPLY_GAP_MS ≤ now - (n.lastReply.get? addr).getD 0)

/-- `holds` tells of which torrents the engine has a session. -/
def handleLsdDatagram (holds : ByteArr 20 → Bool) (n : LsdNode) (addr : NetAddr) (payload : Bytes) (now : Nat) :
    List Effect × LsdNode :=
  let n := { n with received := satAdd n.received 1 }
  match n.answers addr payload now with
  | none => ([], n)
  | some ann =>
      let n := { n with lastReply := trimmed (n.lastReply.insert addr now) now LSD_REPLY_GAP_MS, lastRecvAt := now }
      let (promotion, n) := n.promote addr ann.port now
      let known := ann.infohashes.filter holds
      (promotion ++ known.flatMap (fun ih =>
          [.unicast addr (buildAnnounce ih n.listenPort (some n.lsd.cookie) (groupOf addr)),
            .enqueuePeer ih (withPort ann.port addr)]),
        { n with discovered := satAdd n.discovered known.length })

end LsdNode

/-! ### A datagram made of lines -/

def text (lines : List Bytes) : Bytes := lines.flatMap (· ++ crlf)

theorem splitOn_text {lines : List Bytes} (free : ∀ l ∈ lines, ch '\n' ∉ l) :
    splitOn (ch '\n') (text lines) = lines.map (· ++ [ch '\r']) ++ [[]] := by
  induction lines with
  | nil => rfl
  | cons l lines ih =>
    have line : ch '\n' ∉ l ++ [ch '\r'] := by
      rw [List.mem_append, not_or]
      exact ⟨free l List.mem_cons_self, by decide⟩
    have split : text (l :: lines) = (l ++ [ch '\r']) ++ ch '\n' :: text lines := by simp [text, crlf]
    rw [split, splitOn_append line, ih fun m member => free m (List.mem_cons_of_mem l member)]
    rfl

theorem parse_text {first : Bytes} (search : ascii "BT-SEARCH" <+: first) {headers : List Bytes}
    (free : ∀ l ∈ first :: headers, ch '\n' ∉ l) :
    parse (text (first :: headers)) = (headers.foldlM parseHeader {}).bind fun found =>
      found.port.bind fun port => if found.infohashes = [] then none else some ⟨port, found.cookie, found.infohashes⟩ := by
  have begins : (ascii "BT-SEARCH").isPrefixOf (text (first :: headers)) = true := by
    apply List.isPrefixOf_iff_prefix.mpr
    apply search.trans
    simp [text]
  have lines : ∀ acc : Headers, (headers.map (· ++ [ch '\r']) ++ [[]]).foldlM (fun acc line => parseHeader acc (trimCr line)) acc =
      headers.foldlM parseHeader acc := by
    intro acc
    rw [List.foldlM_append, List.foldlM_map]
    simp only [trimCr_append]
    have last : ∀ acc : Headers, [([] : Bytes)].foldlM (fun acc line => parseHeader acc (trimCr line)) acc = some acc :=
      fun _ => rfl
    simp [last]
  rw [parse, begins, splitOn_text free, List.map_cons, List.cons_append, List.drop_one, List.tail_cons, lines]
  rfl

/-- A header line, as the parser takes it apart. -/
theorem parseHeader_field (name : Bytes) {value : Bytes} (plain : ch ':' ∉ name)
    (begins : ∀ c ∈ value.head?, isBlank c = false) :
    splitOnce (ch ':') (name ++ ch ':' :: ch ' ' :: value) = some (name, ch ' ' :: value) ∧
      (ch ' ' :: value).dropWhile isBlank = value := by
  refine ⟨splitOnce_append plain _, ?_⟩
  rw [List.dropWhile_cons, if_pos (by decide)]
  cases value with
  | nil => rfl
  | cons c tail => rw [List.dropWhile_cons, begins c rfl, if_neg Bool.false_ne_true]

/-! ### Numbers and digits -/

theorem digit_props {c : UInt8} (digit : isDigit c = true) : c ≠ ch '\n' ∧ c ≠ ch '+' ∧ isBlank c = false ∧ c < 0x80 ∧
    (c - ch '0').toNat = digitValue c ∧ ∀ p ∈ whiteSpaces ++ whiteSpaces.map List.reverse, p.head?.any (· != c) = true :=
  forall_byte (P := fun c => isDigit c = true → c ≠ ch '\n' ∧ c ≠ ch '+' ∧ isBlank c = false ∧ c < 0x80 ∧
    (c - ch '0').toNat = digitValue c ∧ ∀ p ∈ whiteSpaces ++ whiteSpaces.map List.reverse, p.head?.any (· != c) = true)
    (by decide) c digit

theorem hex_props {c : UInt8} (digit : isHex c = true) : c ≠ ch '\n' ∧ isBlank c = false :=
  forall_byte (P := fun c => isHex c = true → c ≠ ch '\n' ∧ isBlank c = false) (by decide) c digit

theorem parseUint_decimal {n limit : Nat} (small : n ≤ limit) : parseUint limit (Bencode.decimal n) = some n := by
  have digits := decimal_digits n
  have folds : ∀ (ds : Bytes) (a : Nat), (∀ c ∈ ds, isDigit c = true) →
      ds.foldl (fun acc c => acc * 10 + (c - ch '0').toNat) a = digitsFold a ds := by
    intro ds
    induction ds with
    | nil => exact fun a _ => rfl
    | cons c ds ih =>
      intro a all
      rw [List.foldl_cons, (digit_props (all c List.mem_cons_self)).2.2.2.2.1]
      exact ih _ fun d member => all d (List.mem_cons_of_mem c member)
  have unsigned : (Bencode.decimal n).head? ≠ some (ch '+') := by
    intro sign
    exact (digit_props (digits _ (List.mem_of_head? sign))).2.1 rfl
  have every : (Bencode.decimal n).all (fun c => ch '0' ≤ c && c ≤ ch '9') = true := List.all_eq_true.mpr digits
  have read : ¬(Bencode.decimal n = [] ∨ (!(Bencode.decimal n).all (fun c => ch '0' ≤ c && c ≤ ch '9')) = true) := by
    rw [every]
    simp [decimal_ne_nil]
  unfold parseUint
  dsimp only
  rw [if_neg unsigned, if_neg read, folds _ 0 digits, digitsFold_decimal, if_pos small]

theorem dropParts_stays {parts : List Bytes} {c : UInt8} (other : ∀ p ∈ parts, p.head?.any (· != c) = true) (n : Nat)
    (tail : Bytes) : dropParts parts n (c :: tail) = c :: tail := by
  have none_fits : parts.findSome? (fun p => stripPrefix p (c :: tail)) = none := by
    apply List.findSome?_eq_none_iff.mpr
    intro p member
    cases p with
    | nil => exact absurd (other [] member) (by simp)
    | cons a p =>
      have differs : a ≠ c := by simpa using other (a :: p) member
      simp [stripPrefix, differs]
  cases n with
  | zero => rfl
  | succ n => rw [dropParts, none_fits]

theorem trim_decimal (n : Nat) : trim (Bencode.decimal n) = Bencode.decimal n := by
  have digits := decimal_digits n
  have stays : ∀ parts, (∀ p ∈ parts, p ∈ whiteSpaces ++ whiteSpaces.map List.reverse) → ∀ s : Bytes, s ≠ [] →
      (∀ c ∈ s, isDigit c = true) → dropParts parts s.length s = s := by
    intro parts among s some_byte all
    obtain ⟨c, tail, rfl⟩ := List.exists_cons_of_ne_nil some_byte
    exact dropParts_stays (fun p member => (digit_props (all c List.mem_cons_self)).2.2.2.2.2 p (among p member)) _ tail
  unfold trim
  rw [stays whiteSpaces (fun p member => List.mem_append_left _ member) _ (decimal_ne_nil n) digits]
  dsimp only
  have back := stays (whiteSpaces.map List.reverse) (fun p member => List.mem_append_right _ member)
    (Bencode.decimal n).reverse (by simp [decimal_ne_nil]) (by simpa using digits)
  rw [List.length_reverse] at back
  rw [back, List.reverse_reverse]

theorem hexForm_hexEncode (b : Bytes) : HexForm b (hexEncode b) := by
  unfold HexForm hexEncode
  rw [List.map_flatMap]
  apply List.flatMap_congr
  intro x _
  obtain ⟨hi, lo⟩ := hexNibble_hexDigit x
  simp [hi, lo]

@[simp] theorem hexArr_hexEncode {n : Nat} (b : ByteArr n) : hexArr n (hexEncode b.val) = some b := by
  simp [hexArr, hexPairs_form (hexForm_hexEncode b.val), b.property]

/-! ### The header lines -/

section headers
variable (acc : Headers)

theorem parseHeader_host (value : Bytes) : parseHeader acc (ascii "Host: " ++ value) = some acc := by
  have line : ascii "Host: " ++ value = ascii "Host" ++ ch ':' :: ch ' ' :: value := rfl
  unfold parseHeader
  rw [line, splitOnce_append (by decide)]
  rfl

theorem parseHeader_port {port : Nat} (fits : port < 2 ^ 16) (first : acc.port = none) :
    parseHeader acc (ascii "Port: " ++ Bencode.decimal port) = some { acc with port := some port } := by
  have digits := decimal_digits port
  have line : ascii "Port: " ++ Bencode.decimal port = ascii "Port" ++ ch ':' :: ch ' ' :: Bencode.decimal port := rfl
  obtain ⟨split, value⟩ := parseHeader_field (ascii "Port") (by decide)
    (fun c head => (digit_props (digits c (List.mem_of_head? head))).2.2.1)
  have valid : utf8Valid (Bencode.decimal port).length (Bencode.decimal port) = true :=
    utf8Valid_ascii fun c member => (digit_props (digits c member)).2.2.2.1
  unfold parseHeader
  rw [line, split]
  dsimp only
  rw [value, if_pos rfl, first, if_neg (by decide), if_pos valid, trim_decimal, parseUint_decimal (by omega)]

theorem parseHeader_hex (name : Bytes) (plain : ch ':' ∉ name) (b : Bytes) :
    splitOnce (ch ':') (name ++ ch ':' :: ch ' ' :: hexEncode b) = some (name, ch ' ' :: hexEncode b) ∧
      (ch ' ' :: hexEncode b).dropWhile isBlank = hexEncode b :=
  parseHeader_field name plain fun c head => (hex_props ((hexForm_hexEncode b).isHex c (List.mem_of_head? head))).2

theorem parseHeader_infohash (ih : ByteArr 20) (room : acc.infohashes.length < MAX_INFOHASHES_PER_ANNOUNCE) :
    parseHeader acc (ascii "Infohash: " ++ hexEncode ih.val) = some { acc with infohashes := acc.infohashes ++ [ih] } := by
  obtain ⟨split, value⟩ := parseHeader_hex (ascii "Infohash") (by decide) ih.val
  have line : ascii "Infohash: " ++ hexEncode ih.val = ascii "Infohash" ++ ch ':' :: ch ' ' :: hexEncode ih.val := rfl
  unfold parseHeader
  rw [line, split]
  dsimp only
  rw [value, if_neg (by decide), if_neg (by decide), if_pos rfl, if_neg (by omega), hexArr_hexEncode]
  rfl

theorem parseHeader_cookie (c : ByteArr 8) (first : acc.cookie = none) :
    parseHeader acc (ascii "cookie: " ++ hexEncode c.val) = some { acc with cookie := some c } := by
  obtain ⟨split, value⟩ := parseHeader_hex (ascii "cookie") (by decide) c.val
  have line : ascii "cookie: " ++ hexEncode c.val = ascii "cookie" ++ ch ':' :: ch ' ' :: hexEncode c.val := rfl
  unfold parseHeader
  rw [line, split]
  dsimp only
  rw [value, if_neg (by decide), if_pos rfl, first, if_neg (by decide), hexArr_hexEncode]

end headers

/-! ### An announce and what is read from it -/

theorem mem_joined {sep c : UInt8} {parts : List Bytes} (member : c ∈ joined sep parts) : c = sep ∨ ∃ p ∈ parts, c ∈ p := by
  induction parts with
  | nil => cases member
  | cons p parts ih =>
    cases parts with
    | nil => exact Or.inr ⟨p, List.mem_cons_self, member⟩
    | cons q parts =>
      rcases List.mem_append.mp member with here | later
      · exact Or.inr ⟨p, List.mem_cons_self, here⟩
      · rcases List.mem_cons.mp later with same | later
        · exact Or.inl same
        · apply (ih later).imp_right
          intro found
          obtain ⟨r, inside, holds⟩ := found
          exact ⟨r, List.mem_cons_of_mem p inside, holds⟩

theorem isHex_toDigits (n : Nat) : ∀ c ∈ (Nat.toDigits 16 n).map ch, isHex c = true := by
  have one : ∀ d < 16, isHex (ch d.digitChar) = true := by decide
  induction n using Nat.strong_induction_on with
  | _ n ih =>
    intro c member
    by_cases small : n < 16
    · rw [Nat.toDigits_of_lt_base small, List.map_singleton, List.mem_singleton] at member
      rw [member]
      exact one n small
    · rw [Nat.toDigits_of_base_le (by decide) (Nat.not_lt.mp small), List.map_append, List.mem_append] at member
      rcases member with earlier | last
      · exact ih (n / 16) (by omega) c earlier
      · rw [List.map_singleton, List.mem_singleton] at last
        rw [last]
        exact one (n % 16) (Nat.mod_lt n (by decide))

theorem hostHeader_free (group : NetAddr) : ch '\n' ∉ hostHeader group := by
  intro member
  cases group with
  | v4 ip port =>
    rcases mem_joined member with same | ⟨p, part, inside⟩
    · exact absurd same (by decide)
    · obtain ⟨o, -, rfl⟩ := List.mem_map.mp part
      exact (digit_props (decimal_digits _ _ inside)).1 rfl
  | v6 ip port =>
    simp only [hostHeader, List.cons_append, List.mem_cons, List.mem_append] at member
    rcases member with same | inside | last
    · exact absurd same (by decide)
    · rcases mem_joined inside with same | ⟨p, part, holds⟩
      · exact absurd same (by decide)
      · obtain ⟨i, -, rfl⟩ := List.mem_map.mp part
        exact (hex_props (isHex_toDigits _ _ holds)).1 rfl
    · exact absurd last (by decide)

/-- The header lines of an announce. -/
def headerLines (infohash : ByteArr 20) (port : Nat) (cookie : Option (ByteArr 8)) (group : NetAddr) : List Bytes :=
  [ascii "Host: " ++ hostHeader group, ascii "Port: " ++ Bencode.decimal port, ascii "Infohash: " ++ hexEncode infohash.val] ++
    (cookie.map fun c => ascii "cookie: " ++ hexEncode c.val).toList ++ [[]]

theorem buildAnnounce_eq (infohash : ByteArr 20) (port : Nat) (cookie : Option (ByteArr 8)) (group : NetAddr) :
    buildAnnounce infohash port cookie group =
      text (ascii "BT-SEARCH * HTTP/1.1" :: headerLines infohash port cookie group) := by
  have breaks : ascii "\r\n" = crlf := rfl
  have first : ascii "BT-SEARCH * HTTP/1.1\r\n" = ascii "BT-SEARCH * HTTP/1.1" ++ crlf := by decide
  cases cookie with
  | none => simp [buildAnnounce, headerLines, text, breaks, first]
  | some c => simp [buildAnnounce, headerLines, text, breaks, first]

theorem headerLines_free (infohash : ByteArr 20) (port : Nat) (cookie : Option (ByteArr 8)) (group : NetAddr) :
    ∀ l ∈ headerLines infohash port cookie group, ch '\n' ∉ l := by
  have hex : ∀ b : Bytes, ch '\n' ∉ hexEncode b := fun b member => (hex_props ((hexForm_hexEncode b).isHex _ member)).1 rfl
  have number : ch '\n' ∉ Bencode.decimal port := fun member => (digit_props (decimal_digits port _ member)).1 rfl
  have named : ∀ (name : String) (value : Bytes), ch '\n' ∉ ascii name → ch '\n' ∉ value → ch '\n' ∉ ascii name ++ value := by
    intro name value plain free
    rw [List.mem_append, not_or]
    exact ⟨plain, free⟩
  intro l member
  simp only [headerLines, List.mem_append, List.mem_cons, List.not_mem_nil, or_false, Option.mem_toList, Option.map_eq_some_iff,
    or_assoc] at member
  rcases member with rfl | rfl | rfl | ⟨c, -, rfl⟩ | rfl
  · exact named _ _ (by decide) (hostHeader_free group)
  · exact named _ _ (by decide) number
  · exact named _ _ (by decide) (hex _)
  · exact named _ _ (by decide) (hex _)
  · exact List.not_mem_nil

theorem parse_buildAnnounce (infohash : ByteArr 20) {port : Nat} (fits : port < 2 ^ 16) (cookie : Option (ByteArr 8))
    (group : NetAddr) : parse (buildAnnounce infohash port cookie group) = some ⟨port, cookie, [infohash]⟩ := by
  have free : ∀ l ∈ ascii "BT-SEARCH * HTTP/1.1" :: headerLines infohash port cookie group, ch '\n' ∉ l :=
    List.forall_mem_cons.mpr ⟨by decide, headerLines_free infohash port cookie group⟩
  rw [buildAnnounce_eq, parse_text (by decide) free, headerLines, List.append_assoc, List.foldlM_append]
  simp only [List.foldlM_cons, List.foldlM_nil, parseHeader_host, Option.bind_eq_bind, Option.bind_some]
  have named := parseHeader_infohash { port := some port } infohash (by simp [MAX_INFOHASHES_PER_ANNOUNCE])
  rw [parseHeader_port _ fits rfl, Option.bind_some, named]
  cases cookie with
  | none => rfl
  | some c =>
    have read := parseHeader_cookie { port := some port, infohashes := [infohash] } c rfl
    change ((parseHeader { port := some port, infohashes := [infohash] } (ascii "cookie: " ++ hexEncode c.val)).bind
      fun acc => parseHeader acc []).bind _ = _
    rw [read]
    rfl

theorem parseUint_le {limit p : Nat} {s : Bytes} (parsed : parseUint limit s = some p) : p ≤ limit := by
  unfold parseUint at parsed
  dsimp only at parsed
  generalize (if s.head? = some (ch '+') then s.drop 1 else s) = digits at parsed
  split at parsed
  · cases parsed
  · split at parsed
    next below =>
      cases parsed
      exact below
    next => cases parsed

/-- What the parser has read keeps to the bounds. -/
def Headers.Bounded (h : Headers) : Prop :=
  (∀ p ∈ h.port, p < 2 ^ 16) ∧ h.infohashes.length ≤ MAX_INFOHASHES_PER_ANNOUNCE

theorem parseHeader_bounded {acc more : Headers} {line : Bytes} (bounded : acc.Bounded)
    (read : parseHeader acc line = some more) : more.Bounded := by
  obtain ⟨port, few⟩ := bounded
  unfold parseHeader at read
  split at read
  · cases read
    exact ⟨port, few⟩
  next name rest found =>
    dsimp only at read
    split_ifs at read
    · cases read
      exact ⟨port, few⟩
    · cases read
      refine ⟨?_, few⟩
      intro p parsed
      exact Nat.lt_succ_of_le (parseUint_le parsed)
    · cases read
      exact ⟨port, few⟩
    · cases read
      exact ⟨port, few⟩
    · cases read
      exact ⟨port, few⟩
    · cases read
      refine ⟨port, ?_⟩
      calc (acc.infohashes ++ (hexArr 20 (rest.dropWhile isBlank)).toList).length
          = acc.infohashes.length + (hexArr 20 (rest.dropWhile isBlank)).toList.length := List.length_append
        _ ≤ acc.infohashes.length + 1 := Nat.add_le_add_left Option.length_toList_le _
        _ ≤ MAX_INFOHASHES_PER_ANNOUNCE := by omega
    · cases read
      exact ⟨port, few⟩

/-- An announce is read as it was built; and whatever is read names a port and some hashes, not too many. -/
theorem announce_round_trip :
    (∀ (infohash : ByteArr 20) (port : Nat) (cookie : Option (ByteArr 8)) (group : NetAddr), port < 2 ^ 16 →
      parse (buildAnnounce infohash port cookie group) = some ⟨port, cookie, [infohash]⟩) ∧
    ∀ (data : Bytes) (ann : LsdAnnounce), parse data = some ann →
      ann.port < 2 ^ 16 ∧ ann.infohashes ≠ [] ∧ ann.infohashes.length ≤ MAX_INFOHASHES_PER_ANNOUNCE := by
  refine ⟨fun infohash port cookie group fits => parse_buildAnnounce infohash fits cookie group, ?_⟩
  intro data ann read
  have loop : ∀ (lines : List Bytes) (acc more : Headers), acc.Bounded →
      lines.foldlM (fun acc line => parseHeader acc (trimCr line)) acc = some more → more.Bounded := by
    intro lines
    induction lines with
    | nil =>
      intro acc more bounded same
      cases same
      exact bounded
    | cons line lines ih =>
      intro acc more bounded rest
      rw [List.foldlM_cons] at rest
      obtain ⟨next, first, rest⟩ := Option.bind_eq_some_iff.mp rest
      exact ih next more (parseHeader_bounded bounded first) rest
  unfold parse at read
  split at read
  · cases read
  · obtain ⟨found, lines, read⟩ := Option.bind_eq_some_iff.mp read
    obtain ⟨port, said, read⟩ := Option.bind_eq_some_iff.mp read
    obtain ⟨fits, few⟩ := loop _ _ _ ⟨by simp, by simp⟩ lines
    split at read
    · cases read
    next some_hash =>
      cases read
      exact ⟨fits port said, some_hash, few⟩

/-! ### Runs -/

/-- What reaches the discovery: a datagram from the local network, or a tick with the hashes active by then. -/
inductive Input where
  | datagram (addr : NetAddr) (payload : Bytes)
  | tick (active : List (ByteArr 20))

namespace LsdNode
section
variable (holds : ByteArr 20 → Bool)

def step (n : LsdNode) (now : Nat) : Input → List Effect × LsdNode
  | .datagram addr payload => n.handleLsdDatagram holds addr payload now
  | .tick active => n.announceLsd active now

/-- The inputs of a run with their times, and the state that each finds. -/
def moments : LsdNode → List (Nat × Input) → List (LsdNode × Nat × Input)
  | _, [] => []
  | n, (now, input) :: rest => (n, now, input) :: moments (n.step holds now input).2 rest

/-- The step at a moment sends a response to the address. -/
def Responds (addr : NetAddr) (m : LsdNode × Nat × Input) : Prop :=
  ∃ packet, Effect.unicast addr packet ∈ (m.1.step holds m.2.1 m.2.2).1

end

section
variable (holds : ByteArr 20 → Bool) {n : LsdNode}

theorem promote_spec (n : LsdNode) (addr : NetAddr) (port now : Nat) :
    (n.promote addr port now).2.lastReply = n.lastReply ∧ (n.promote addr port now).2.lsd = n.lsd ∧
      (n.promote addr port now).2.lastActive = n.lastActive ∧ ∀ a packet, Effect.unicast a packet ∉ (n.promote addr port now).1 := by
  unfold promote
  split
  · simp
  · split
    · simp
    · simp

/-- A datagram leaves the announcing alone; if it is answered, the time goes on record. -/
theorem handle_spec (n : LsdNode) (addr : NetAddr) (payload : Bytes) (now : Nat) :
    let done := n.handleLsdDatagram holds addr payload now
    done.2.lsd = n.lsd ∧ done.2.lastActive = n.lastActive ∧
      ((done.2.lastReply = n.lastReply ∧ done.1 = []) ∨
        (LSD_REPLY_GAP_MS ≤ now - (n.lastReply.get? addr).getD 0 ∧
          done.2.lastReply = trimmed (n.lastReply.insert addr now) now LSD_REPLY_GAP_MS ∧
          ∀ a packet, Effect.unicast a packet ∈ done.1 → a = addr)) := by
  unfold handleLsdDatagram
  dsimp only
  cases answer : LsdNode.answers { n with received := satAdd n.received 1 } addr payload now with
  | none => exact ⟨rfl, rfl, Or.inl ⟨rfl, rfl⟩⟩
  | some ann =>
    have due : LSD_REPLY_GAP_MS ≤ now - (n.lastReply.get? addr).getD 0 := by
      have passed := (Option.filter_eq_some_iff.mp answer).2
      simp only [Bool.and_eq_true, decide_eq_true_eq] at passed
      exact passed.2
    dsimp only
    generalize marked : ({ n with
      received := satAdd n.received 1
      lastReply := trimmed (n.lastReply.insert addr now) now LSD_REPLY_GAP_MS
      lastRecvAt := now } : LsdNode) = v
    obtain ⟨reply, lsd, active, silent⟩ := v.promote_spec addr ann.port now
    rw [reply, lsd, active, ← marked]
    refine ⟨rfl, rfl, Or.inr ⟨due, rfl, ?_⟩⟩
    intro a packet member
    rw [marked] at member
    rcases List.mem_append.mp member with early | later
    · exact absurd early (silent a packet)
    · obtain ⟨ih, -, among⟩ := List.mem_flatMap.mp later
      simp at among
      exact among.1

theorem announced_frame (n : LsdNode) (active : List (ByteArr 20)) (now : Nat) :
    (n.announced active now).2.lastReply = n.lastReply ∧ (n.announced active now).2.lsd.intervalMs = n.lsd.intervalMs := by
  unfold announced
  split
  · exact ⟨rfl, rfl⟩
  split
  · exact ⟨rfl, rfl⟩
  split
  · exact ⟨rfl, rfl⟩
  dsimp only
  generalize (if now - n.lastRecvAt < LSD_NEIGHBOR_WINDOW_MS then LSD_ACTIVE_INTERVAL_MS else n.lsd.intervalMs) = interval
  have kept : (n.lsd.nextAnnounceWith active now interval).2.intervalMs = n.lsd.intervalMs := by
    unfold LsdScheduler.nextAnnounceWith
    split
    · rfl
    split
    · rfl
    · rfl
  split
  · exact ⟨rfl, rfl⟩
  split
  next s next_ => exact ⟨rfl, by rwa [next_] at kept⟩
  next ih s next_ => exact ⟨rfl, by rwa [next_] at kept⟩

theorem announceLsd_spec (n : LsdNode) (active : List (ByteArr 20)) (now : Nat) :
    (n.announceLsd active now).2.lastReply = n.lastReply ∧ ∀ a packet, Effect.unicast a packet ∉ (n.announceLsd active now).1 := by
  refine ⟨(n.announced_frame active now).1, ?_⟩
  intro a packet member
  obtain ⟨ih, -, among⟩ := List.mem_flatMap.mp member
  simp [sendLsdAnnounce] at among

/-- A run keeps the interval that the scheduler was made with. -/
theorem intervalMs_step (n : LsdNode) (now : Nat) (input : Input) : (n.step holds now input).2.lsd.intervalMs = n.lsd.intervalMs := by
  cases input with
  | tick active => exact (n.announced_frame active now).2
  | datagram addr payload => exact congrArg LsdScheduler.intervalMs (handle_spec holds n addr payload now).1

/-! ### How often a neighbour is answered -/

theorem get?_trimmed {m : OrdMap NetAddr Nat} {now window t : Nat} (positive : 0 < window) {addr : NetAddr}
    (held : m.get? addr = some t) : (trimmed m now window).get? addr = some t ∨ t + window ≤ now := by
  unfold trimmed
  split
  · rw [OrdMap.get?_filter, held]
    by_cases young : now - t < window
    · exact Or.inl (by simp [young])
    · exact Or.inr (by omega)
  · exact Or.inl held

/-- A response to `addr` at `t` is on record, or the gap behind it has passed. -/
def Recorded (n : LsdNode) (clock : Nat) (addr : NetAddr) (t : Nat) : Prop :=
  (∃ u, t ≤ u ∧ n.lastReply.get? addr = some u) ∨ t + LSD_REPLY_GAP_MS ≤ clock

/-- What is on record stays so, and holds the next response back. -/
theorem Recorded.step {clock t now : Nat} {addr : NetAddr} (recorded : n.Recorded clock addr t) (later : clock ≤ now)
    (input : Input) : (n.step holds now input).2.Recorded now addr t ∧
      (Responds holds addr (n, now, input) → t + LSD_REPLY_GAP_MS ≤ now) := by
  have positive : 0 < LSD_REPLY_GAP_MS := by decide
  have still : ∀ v : LsdNode, v.lastReply = n.lastReply → v.Recorded now addr t := by
    intro v same
    unfold Recorded
    rw [same]
    exact recorded.imp_right fun passed => passed.trans later
  cases input with
  | tick active =>
    obtain ⟨same, silent⟩ := n.announceLsd_spec active now
    refine ⟨still _ same, ?_⟩
    intro responds
    obtain ⟨packet, member⟩ := responds
    exact absurd member (silent addr packet)
  | datagram source payload =>
    obtain ⟨-, -, ⟨same, silent⟩ | ⟨due, marked, only⟩⟩ := handle_spec holds n source payload now
    · refine ⟨still _ same, ?_⟩
      intro responds
      obtain ⟨packet, member⟩ := responds
      exact absurd (silent ▸ member) List.not_mem_nil
    · refine ⟨?_, ?_⟩
      · rcases recorded with ⟨u, after, held⟩ | passed
        · by_cases here : source = addr
          · subst here
            rw [held] at due
            exact Or.inr (by simp only [Option.getD_some] at due; omega)
          · have kept := (OrdMap.get?_insert_ne n.lastReply now here).trans held
            rcases get?_trimmed positive kept with same | passed
            · exact Or.inl ⟨u, after, by rw [← same]; exact congrArg (·.get? addr) marked⟩
            · exact Or.inr (by omega)
        · exact Or.inr (passed.trans later)
      · intro responds
        obtain ⟨packet, member⟩ := responds
        have here := only addr packet member
        subst here
        rcases recorded with ⟨u, after, held⟩ | passed
        · rw [held] at due
          simp only [Option.getD_some] at due
          omega
        · exact passed.trans later

theorem Responds.recorded {now : Nat} {input : Input} {addr : NetAddr} (responds : Responds holds addr (n, now, input)) :
    (n.step holds now input).2.Recorded now addr now := by
  obtain ⟨packet, member⟩ := responds
  cases input with
  | tick active => exact absurd member ((n.announceLsd_spec active now).2 addr packet)
  | datagram source payload =>
    obtain ⟨-, -, ⟨-, silent⟩ | ⟨-, marked, only⟩⟩ := handle_spec holds n source payload now
    · exact absurd (silent ▸ member) List.not_mem_nil
    · have here := only addr packet member
      subst here
      have kept : (n.lastReply.insert addr now).get? addr = some now := OrdMap.get?_insert_self _ _ _
      rcases get?_trimmed (by decide : 0 < LSD_REPLY_GAP_MS) kept with same | passed
      · exact Or.inl ⟨now, le_rfl, by rw [← same]; exact congrArg (·.get? addr) marked⟩
      · exact Or.inr passed

theorem recorded_moments {events : List (Nat × Input)} {clock t : Nat} {addr : NetAddr} (recorded : n.Recorded clock addr t)
    (later : ∀ e ∈ events, clock ≤ e.1) (ordered : events.Pairwise (·.1 ≤ ·.1)) :
    ∀ m ∈ moments holds n events, Responds holds addr m → t + LSD_REPLY_GAP_MS ≤ m.2.1 := by
  induction events generalizing n clock with
  | nil => exact fun m member => absurd member List.not_mem_nil
  | cons e rest ih =>
    obtain ⟨now, input⟩ := e
    obtain ⟨first, others⟩ := List.pairwise_cons.mp ordered
    obtain ⟨kept, held_back⟩ := recorded.step holds (later _ List.mem_cons_self) input
    intro m member
    rcases List.mem_cons.mp member with rfl | among
    · exact held_back
    · exact ih kept first others m among

end
end LsdNode

/-- In a run whose clock does not go back, no address is sent responses to two datagrams less than the gap apart. -/
theorem responses_apart (holds : ByteArr 20 → Bool) (n : LsdNode) {events : List (Nat × Input)}
    (ordered : events.Pairwise (·.1 ≤ ·.1)) (addr : NetAddr) :
    (n.moments holds events).Pairwise fun a b => LsdNode.Responds holds addr a → LsdNode.Responds holds addr b →
      a.2.1 + LSD_REPLY_GAP_MS ≤ b.2.1 := by
  induction events generalizing n with
  | nil => exact List.Pairwise.nil
  | cons e rest ih =>
    obtain ⟨now, input⟩ := e
    obtain ⟨first, others⟩ := List.pairwise_cons.mp ordered
    refine List.pairwise_cons.mpr ⟨?_, ih _ others⟩
    intro m among responds
    exact LsdNode.recorded_moments holds (responds.recorded holds) first others m among

def nearNode : LsdNode := { listenPort := 6881, dht := true, lsd := .new (.replicate 8 1) 100000 60000 }

def farNode : LsdNode := { listenPort := 6882, dht := false, lsd := .new (.replicate 8 2) 100000 60000 }

def farAddr : NetAddr := .ofOctets 192 168 0 2 6771

/-- A neighbour announces the same torrent three times. -/
def repeated : List (Nat × Input) :=
  [100000, 105000, 110000].map fun now =>
    (now, .datagram farAddr (buildAnnounce (.replicate 20 7) 6882 (some (.replicate 8 2)) LSD_GROUP_V4))

/-- The first and the third are answered. -/
theorem responses_apart_repeated :
    ((nearNode.moments (fun _ => true) repeated).map fun m => (m.1.step (fun _ => true) m.2.1 m.2.2).1.any fun
      | .unicast addr _ => decide (addr = farAddr)
      | _ => false) = [true, false, true] ∧
      (nearNode.moments (fun _ => true) repeated).Pairwise fun a b =>
        LsdNode.Responds (fun _ => true) farAddr a → LsdNode.Responds (fun _ => true) farAddr b →
          a.2.1 + LSD_REPLY_GAP_MS ≤ b.2.1 :=
  ⟨by decide, responses_apart (fun _ => true) nearNode (by decide) farAddr⟩

/-! ### How often and in which turn the torrents are announced -/

namespace LsdNode
section
variable (holds : ByteArr 20 → Bool) {n : LsdNode} {active : List (ByteArr 20)}

/-- The hashes announced at a moment. -/
def announces (m : LsdNode × Nat × Input) : List (Nat × ByteArr 20) :=
  match m.2.2 with
  | .datagram .. => []
  | .tick active => (m.1.announced active m.2.1).1.map (m.2.1, ·)

/-- While the active torrents stay the same, a tick announces none, or the one at the cursor. -/
theorem announced_steady (some_active : active ≠ []) (steady : n.lastActive = active)
    (floor : LSD_ACTIVE_INTERVAL_MS ≤ n.lsd.intervalMs) (now : Nat) :
    n.announced active now = ([], n) ∨ ∃ ih, active[n.lsd.cursor % active.length]? = some ih ∧
      n.lsd.lastAnnounceAt + LSD_ACTIVE_INTERVAL_MS ≤ now ∧
        n.announced active now = ([ih], { n with lsd := { n.lsd with cursor := n.lsd.cursor + 1, lastAnnounceAt := now } }) := by
  have inside : n.lsd.cursor % active.length < active.length := Nat.mod_lt _ (List.length_pos_iff.mpr some_active)
  have positive : 0 < LSD_ACTIVE_INTERVAL_MS := by decide
  unfold announced
  rw [if_neg some_active, if_neg (not_not_intro steady)]
  by_cases closed : (!n.lsdEnabled || n.proxied || !n.udpOpen) = true
  · exact Or.inl (if_pos closed)
  rw [if_neg closed]
  dsimp only
  generalize paced : (if now - n.lastRecvAt < LSD_NEIGHBOR_WINDOW_MS then LSD_ACTIVE_INTERVAL_MS else n.lsd.intervalMs) = interval
  have least : LSD_ACTIVE_INTERVAL_MS ≤ interval := by
    rw [← paced]
    split
    · exact le_rfl
    · exact floor
  by_cases due : interval ≤ now - n.lsd.lastAnnounceAt
  · right
    refine ⟨active[n.lsd.cursor % active.length], List.getElem?_eq_getElem inside, by omega, ?_⟩
    simp [LsdScheduler.dueWith, LsdScheduler.nextAnnounceWith, due, some_active, Nat.not_lt.mpr due,
      List.getElem?_eq_getElem inside]
  · exact Or.inl (by simp [LsdScheduler.dueWith, due])

/-- The announces of a run, in turn from the cursor on and no two closer than the interval. -/
structure Paced (n : LsdNode) (active : List (ByteArr 20)) (log : List (Nat × ByteArr 20)) : Prop where
  turn : ∀ k < log.length, (log.map Prod.snd)[k]? = active[(n.lsd.cursor + k) % active.length]?
  after : ∀ e ∈ log, n.lsd.lastAnnounceAt + LSD_ACTIVE_INTERVAL_MS ≤ e.1
  apart : log.Pairwise fun a b => a.1 + LSD_ACTIVE_INTERVAL_MS ≤ b.1

theorem Paced.cons {now : Nat} {ih : ByteArr 20} {log : List (Nat × ByteArr 20)} {v : LsdNode}
    (here : active[n.lsd.cursor % active.length]? = some ih) (due : n.lsd.lastAnnounceAt + LSD_ACTIVE_INTERVAL_MS ≤ now)
    (next : v.lsd = { n.lsd with cursor := n.lsd.cursor + 1, lastAnnounceAt := now }) (paced : Paced v active log) :
    Paced n active ((now, ih) :: log) := by
  obtain ⟨turn, after, apart⟩ := paced
  rw [next] at turn after
  refine ⟨?_, ?_, List.pairwise_cons.mpr ⟨after, apart⟩⟩
  · intro k below
    cases k with
    | zero => exact here.symm
    | succ k =>
      have later := turn k (by simpa using below)
      simpa [Nat.add_assoc, Nat.add_comm 1 k] using later
  · refine List.forall_mem_cons.mpr ⟨due, ?_⟩
    intro e member
    have far := after e member
    dsimp only at far
    omega

theorem paced_moments (some_active : active ≠ []) {events : List (Nat × Input)} (steady : n.lastActive = active)
    (floor : LSD_INTERVAL_MIN_MS ≤ n.lsd.intervalMs) (same : ∀ e ∈ events, ∀ a, e.2 = .tick a → a = active) :
    Paced n active ((moments holds n events).flatMap announces) := by
  induction events generalizing n with
  | nil => exact ⟨fun k below => absurd below (Nat.not_lt_zero k), fun e member => absurd member List.not_mem_nil, .nil⟩
  | cons e rest ih =>
    obtain ⟨now, input⟩ := e
    obtain ⟨first, others⟩ := List.forall_mem_cons.mp same
    rw [moments, List.flatMap_cons]
    cases input with
    | datagram addr payload =>
      obtain ⟨lsd, remembered, -⟩ := handle_spec holds n addr payload now
      obtain ⟨turn, after, apart⟩ := ih (n := (n.handleLsdDatagram holds addr payload now).2) (remembered.trans steady)
        (by rw [lsd]; exact floor) others
      rw [lsd] at turn after
      exact ⟨turn, after, apart⟩
    | tick a =>
      have known := first a rfl
      subst known
      have least : LSD_ACTIVE_INTERVAL_MS ≤ n.lsd.intervalMs := le_trans (by decide) floor
      rcases announced_steady some_active steady least now with quiet | ⟨h, here, due, done⟩
      · have stepped : (n.step holds now (.tick a)).2 = { n with sent := satAdd n.sent 0 } := by
          simp [LsdNode.step, announceLsd, quiet]
        have silent : announces (n, now, .tick a) = [] := by simp [announces, quiet]
        rw [silent, stepped, List.nil_append]
        obtain ⟨turn, after, apart⟩ := ih (n := { n with sent := satAdd n.sent 0 }) steady floor others
        exact ⟨turn, after, apart⟩
      · have said : announces (n, now, .tick a) = [(now, h)] := by simp [announces, done]
        rw [said]
        refine Paced.cons here due ?_ (ih (n := (n.step holds now (.tick a)).2) ?_ ?_ others)
        · simp [LsdNode.step, announceLsd, done]
        · simpa [LsdNode.step, announceLsd, done] using steady
        · exact floor.trans_eq (n.intervalMs_step holds now _).symm

end
end LsdNode

/-- While the active torrents stay the same, any two announces are 20 seconds apart, whatever is heard in between, and each
round of announces goes through all torrents. -/
theorem announces_paced (holds : ByteArr 20 → Bool) (n : LsdNode) {active : List (ByteArr 20)} (some_active : active ≠ [])
    {events : List (Nat × Input)} (steady : n.lastActive = active) (floor : LSD_INTERVAL_MIN_MS ≤ n.lsd.intervalMs)
    (same : ∀ e ∈ events, ∀ a, e.2 = .tick a → a = active) :
    let log := (n.moments holds events).flatMap LsdNode.announces
    (log.Pairwise fun a b => a.1 + LSD_ACTIVE_INTERVAL_MS ≤ b.1) ∧
      ∀ k, k + active.length ≤ log.length →
        ((log.map Prod.snd).drop k).take active.length = active.rotate (n.lsd.cursor + k) := by
  intro log
  obtain ⟨turn, -, apart⟩ := LsdNode.paced_moments holds some_active steady floor same
  refine ⟨apart, ?_⟩
  intro k fits
  apply List.ext_getElem?
  intro i
  by_cases below : i < active.length
  · rw [List.getElem?_take_of_lt below, List.getElem?_drop, turn (k + i) (show _ < log.length by omega), List.getElem?_rotate below]
    congr 2
    omega
  · rw [List.getElem?_eq_none (by rw [List.length_take]; omega), List.getElem?_eq_none (by rw [List.length_rotate]; omega)]

def twoHashes : List (ByteArr 20) := [.replicate 20 7, .replicate 20 8]

/-- The near node after its first tick with two torrents. -/
def nearActive : LsdNode := (nearNode.step (fun _ => true) 100000 (.tick twoHashes)).2

theorem announces_paced_two :
    let log := (nearActive.moments (fun _ => true)
      [(125000, .tick twoHashes), (160000, .tick twoHashes), (220000, .tick twoHashes)]).flatMap LsdNode.announces
    log = [(160000, .replicate 20 7), (220000, .replicate 20 8)] ∧ (log.Pairwise fun a b => a.1 + LSD_ACTIVE_INTERVAL_MS ≤ b.1) ∧
      ∀ k, k + twoHashes.length ≤ log.length → ((log.map Prod.snd).drop k).take twoHashes.length = twoHashes.rotate (0 + k) :=
  ⟨by decide, announces_paced (fun _ => true) nearActive (by simp [twoHashes]) rfl
    ((LsdScheduler.floor_new _ _ _).trans_eq (nearNode.intervalMs_step _ _ _).symm) (by simp)⟩

/-! ### Two neighbours -/

namespace LsdNode

theorem handle_known {holds : ByteArr 20 → Bool} {n : LsdNode} {addr : NetAddr} {payload : Bytes} {now : Nat} {ann : LsdAnnounce}
    (answer : n.answers addr payload now = some ann) {ih : ByteArr 20} (listed : ih ∈ ann.infohashes) (held : holds ih = true) :
    Effect.enqueuePeer ih (withPort ann.port addr) ∈ (n.handleLsdDatagram holds addr payload now).1 ∧
      Effect.unicast addr (buildAnnounce ih n.listenPort (some n.lsd.cookie) (groupOf addr)) ∈
        (n.handleLsdDatagram holds addr payload now).1 := by
  have known : ih ∈ ann.infohashes.filter holds := List.mem_filter.mpr ⟨listed, held⟩
  have own : ∀ (v : LsdNode) (port : Nat), (v.promote addr port now).2.listenPort = v.listenPort ∧
      (v.promote addr port now).2.lsd = v.lsd := by
    intro v port
    unfold promote
    split
    · exact ⟨rfl, rfl⟩
    · split
      · exact ⟨rfl, rfl⟩
      · exact ⟨rfl, rfl⟩
  unfold handleLsdDatagram
  dsimp only
  have same : LsdNode.answers { n with received := satAdd n.received 1 } addr payload now = some ann := answer
  rw [same]
  dsimp only
  constructor
  · exact List.mem_append_right _ (List.mem_flatMap.mpr ⟨ih, known, by simp⟩)
  · refine List.mem_append_right _ (List.mem_flatMap.mpr ⟨ih, known, ?_⟩)
    rw [(own _ _).1, (own _ _).2]
    simp

theorem answers_announce {n : LsdNode} {addr : NetAddr} (group : NetAddr) (ih : ByteArr 20) {port now : Nat} {cookie : ByteArr 8}
    (fits : port < 2 ^ 16) (listens : port ≠ 0) (other : cookie ≠ n.lsd.cookie)
    (due : LSD_REPLY_GAP_MS ≤ now - (n.lastReply.get? addr).getD 0) :
    n.answers addr (buildAnnounce ih port (some cookie) group) now = some ⟨port, some cookie, [ih]⟩ := by
  unfold answers
  rw [parse_buildAnnounce ih fits]
  simp [other, listens, due]

end LsdNode

/-- A neighbour that has the announced torrent takes the announcer for a peer at its listen port and answers, and with the
answer the announcer takes the neighbour for a peer. -/
theorem mutual_discovery {a b c : LsdNode} {addrA addrB group : NetAddr} {packet : Bytes} {ih : ByteArr 20} {now later : Nat}
    {holdsA holdsB : ByteArr 20 → Bool} (announced : Effect.multicast group packet ∈ a.sendLsdAnnounce ih)
    (ports : a.listenPort < 2 ^ 16 ∧ a.listenPort ≠ 0 ∧ b.listenPort < 2 ^ 16 ∧ b.listenPort ≠ 0)
    (cookies : a.lsd.cookie ≠ b.lsd.cookie) (held : holdsA ih = true ∧ holdsB ih = true)
    (dueB : LSD_REPLY_GAP_MS ≤ now - (b.lastReply.get? addrA).getD 0)
    (later_a : c.lsd.cookie = a.lsd.cookie) (dueA : LSD_REPLY_GAP_MS ≤ later - (c.lastReply.get? addrB).getD 0) :
    let heard := (b.handleLsdDatagram holdsB addrA packet now).1
    Effect.enqueuePeer ih (LsdNode.withPort a.listenPort addrA) ∈ heard ∧
      ∃ reply, Effect.unicast addrA reply ∈ heard ∧
        Effect.enqueuePeer ih (LsdNode.withPort b.listenPort addrB) ∈ (c.handleLsdDatagram holdsA addrB reply later).1 := by
  obtain ⟨fitsA, listensA, fitsB, listensB⟩ := ports
  have built : packet = buildAnnounce ih a.listenPort (some a.lsd.cookie) group := by
    simp only [LsdNode.sendLsdAnnounce, List.mem_cons, List.not_mem_nil, or_false, Effect.multicast.injEq] at announced
    rcases announced with ⟨rfl, rfl⟩ | ⟨rfl, rfl⟩
    · rfl
    · rfl
  subst built
  have first := LsdNode.answers_announce group ih fitsA listensA cookies dueB
  obtain ⟨enqueued, answered⟩ := LsdNode.handle_known first (List.mem_singleton_self ih) held.2
  refine ⟨enqueued, _, answered, ?_⟩
  have second := LsdNode.answers_announce (LsdNode.groupOf addrA) ih fitsB listensB
    (fun same => cookies (later_a ▸ same.symm)) dueA
  exact (LsdNode.handle_known second (List.mem_singleton_self ih) held.1).1

def nearAddr : NetAddr := .ofOctets 192 168 0 1 6771

theorem mutual_discovery_near :
    let packet := buildAnnounce (.replicate 20 7) 6881 (some (.replicate 8 1)) LSD_GROUP_V4
    let heard := (farNode.handleLsdDatagram (fun _ => true) nearAddr packet 100000).1
    Effect.enqueuePeer (.replicate 20 7) (LsdNode.withPort 6881 nearAddr) ∈ heard ∧
      ∃ reply, Effect.unicast nearAddr reply ∈ heard ∧
        Effect.enqueuePeer (.replicate 20 7) (LsdNode.withPort 6882 farAddr) ∈
          (nearNode.handleLsdDatagram (fun _ => true) farAddr reply 100001).1 :=
  mutual_discovery (a := nearNode) (b := farNode) (c := nearNode) List.mem_cons_self (by decide) (by decide) ⟨rfl, rfl⟩
    (by decide) rfl (by decide)

end TypeBit.Lsd
