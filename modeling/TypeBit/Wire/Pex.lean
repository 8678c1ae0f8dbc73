import TypeBit.Dht.RoundTrip
import TypeBit.Wire.Payloads

/-! Peer lists with a flag for each peer (`pex.rs`): IPv4 endpoints, their flags, IPv6 endpoints and theirs travel in four
strings. Every pair comes back, IPv4 first, as long as neither string of endpoints is longer than the parser takes. -/

namespace TypeBit.Wire
open Bencode Metainfo Dht

abbrev Flagged := NetAddr × UInt8

def compactFlagged (write : NetAddr → Option Bytes) (peers : List Flagged) : List (Bytes × UInt8) :=
  peers.filterMap fun p => (write p.1).map fun b => (b, p.2)

def addedMsg (peers : List Flagged) : PexMsg :=
  let v4 := compactFlagged NetAddr.toCompact6 peers
  let v6 := compactFlagged NetAddr.toCompact18 peers
  { PexMsg.default with
    added := (v4.map Prod.fst).flatten
    addedF := v4.map Prod.snd
    added6 := (v6.map Prod.fst).flatten
    added6F := v6.map Prod.snd }

def encodeAdded (peers : List Flagged) : Bytes := (addedMsg peers).encode

/-- The endpoints of one family with their flags; an endpoint without flags has none of them set. -/
def decodeFlagged (n : Nat) (read : Bytes → Option NetAddr) (b flags : Bytes) : List Flagged :=
  (chunks n b).zipIdx.filterMap fun c => (read c.1).map fun a => (a, flags.getD c.2 0)

def decodeAdded (msg : PexMsg) : List Flagged :=
  decodeFlagged 6 NetAddr.fromCompact6 msg.added msg.addedF ++ decodeFlagged 18 NetAddr.fromCompact18 msg.added6 msg.added6F

def v4First (peers : List Flagged) : List Flagged := (peers.filter fun p => isV4 p.1) ++ peers.filter fun p => !isV4 p.1

/-! ### One family -/

section Family
variable {n : Nat} {write : NetAddr → Option Bytes} {read : Bytes → Option NetAddr} {family : NetAddr → Bool}

theorem zipIdx_flags (front : Bytes) (pairs : List (Bytes × UInt8)) :
    ((pairs.map Prod.fst).zipIdx front.length).map (fun c => (c.1, (front ++ pairs.map Prod.snd).getD c.2 0)) = pairs := by
  induction pairs generalizing front with
  | nil => rfl
  | cons p tail ih =>
    have here : (front ++ p.2 :: tail.map Prod.snd).getD front.length 0 = p.2 := by simp
    have later := ih (front ++ [p.2])
    rw [List.length_append, List.length_singleton, List.append_assoc, List.singleton_append] at later
    simp only [List.map_cons, List.zipIdx_cons, here, later]

theorem decodeFlagged_pairs (positive : 0 < n) {pairs : List (Bytes × UInt8)} (sized : ∀ p ∈ pairs, p.1.length = n) :
    decodeFlagged n read (pairs.map Prod.fst).flatten (pairs.map Prod.snd) =
      pairs.filterMap fun p => (read p.1).map fun a => (a, p.2) := by
  have whole : ∀ c ∈ pairs.map Prod.fst, c.length = n := by
    intro c member
    obtain ⟨p, present, rfl⟩ := List.mem_map.mp member
    exact sized p present
  have places := zipIdx_flags [] pairs
  unfold decodeFlagged
  rw [chunks_flatten positive whole]
  calc ((pairs.map Prod.fst).zipIdx 0).filterMap (fun c => (read c.1).map fun a => (a, (pairs.map Prod.snd).getD c.2 0))
      = (((pairs.map Prod.fst).zipIdx 0).map fun c => (c.1, (pairs.map Prod.snd).getD c.2 0)).filterMap
          (fun p => (read p.1).map fun a => (a, p.2)) := by
          rw [List.filterMap_map]
          rfl
    _ = pairs.filterMap fun p => (read p.1).map fun a => (a, p.2) := congrArg _ places

theorem length_compactFlagged {peers : List Flagged} (agree : ∀ v, (write v).isSome = family v) :
    (compactFlagged write peers).length = (peers.filter fun p => family p.1).length := by
  unfold compactFlagged
  rw [List.length_filterMap_eq_countP, List.countP_eq_length_filter]
  simp [agree]

variable {peers : List Flagged} (length : ∀ v c, write v = some c → c.length = n)
include length

theorem sized_compactFlagged : ∀ p ∈ compactFlagged write peers, p.1.length = n := by
  intro pair present
  obtain ⟨p, -, written⟩ := List.mem_filterMap.mp present
  obtain ⟨b, form, rfl⟩ := Option.map_eq_some_iff.mp written
  exact length p.1 b form

theorem decodeFlagged_back (positive : 0 < n)
    (back : ∀ p ∈ peers, (write p.1).bind read = if family p.1 then some p.1 else none) :
    decodeFlagged n read ((compactFlagged write peers).map Prod.fst).flatten ((compactFlagged write peers).map Prod.snd) =
      peers.filter fun p => family p.1 := by
  rw [decodeFlagged_pairs positive (sized_compactFlagged length)]
  unfold compactFlagged
  rw [List.filterMap_filterMap, ← List.filterMap_eq_filter]
  apply List.filterMap_congr
  intro p member
  calc ((write p.1).map fun b => (b, p.2)).bind (fun q => (read q.1).map fun a => (a, q.2))
      = ((write p.1).bind read).map fun a => (a, p.2) := by cases write p.1 <;> rfl
    _ = Option.guard (fun p => family p.1) p := by
          rw [back p member]
          by_cases mine : family p.1 = true <;> simp [Option.guard, mine]

theorem length_added (agree : ∀ v, (write v).isSome = family v) :
    ((compactFlagged write peers).map Prod.fst).flatten.length = n * (peers.filter fun p => family p.1).length := by
  have each : ∀ c ∈ (compactFlagged write peers).map Prod.fst, c.length = n := by
    intro c member
    obtain ⟨p, present, rfl⟩ := List.mem_map.mp member
    exact sized_compactFlagged length p present
  have sum : (((compactFlagged write peers).map Prod.fst).map List.length).sum =
      ((compactFlagged write peers).map Prod.fst).length * n := by
    rw [List.sum_eq_card_nsmul _ n]
    · simp
    · intro m member
      obtain ⟨c, present, rfl⟩ := List.mem_map.mp member
      exact each c present
  rw [List.length_flatten, sum, List.length_map, length_compactFlagged agree, Nat.mul_comm]

end Family

/-! ### The limits of the parser -/

theorem string_entry_short {budget : Nat} {ts : List Bytes} {entries : List (Bytes × BVal)}
    (tokens : List.Forall₂ (EntryToken (Denotes budget)) ts entries) :
    ∀ e ∈ entries, ∀ b, e.2 = .bytes b → b.length ≤ MAX_STR_LEN := by
  induction tokens with
  | nil => exact fun e member => absurd member List.not_mem_nil
  | cons token _ ih =>
    intro e member b value
    rcases List.mem_cons.mp member with rfl | later
    · obtain ⟨kt, vt, -, -, denotes⟩ := token
      rw [value] at denotes
      cases budget with
      | zero => exact denotes.elim
      | succ budget =>
        obtain ⟨ds, -, -, -, -, -, short⟩ := denotes
        exact short
    · exact ih e later b value

theorem parsed_string_short {payload : Bytes} {v : BVal} {d : Dict} {key : String} {b : Bytes} (parsed : BVal.parse payload = .ok v)
    (table : v.asDict = some d) (there : bytesAt d key = some b) : b.length ≤ MAX_STR_LEN := by
  cases v with
  | dict m =>
    cases table
    obtain ⟨ts, entries, -, tokens, -, rfl⟩ := (parse_ok_iff payload _).mp parsed
    obtain ⟨v, here, bytes⟩ := Option.bind_eq_some_iff.mp there
    unfold at? at here
    rw [get?_insertAll] at here
    have present : (ascii key, v) ∈ entries := by
      rcases Option.or_eq_some_iff.mp here with last | ⟨-, absent⟩
      · exact List.mem_reverse.mp (OrdMap.Raw.mem_of_get? last)
      · cases absent
    have value : v = .bytes b := by
      cases v with
      | bytes c => cases bytes; rfl
      | int i => cases bytes
      | list items => cases bytes
      | dict m => cases bytes
    exact string_entry_short tokens _ present b value
  | int i => cases table
  | bytes b => cases table
  | list items => cases table

theorem bytesIf_short {payload : Bytes} {v : BVal} {d : Dict} (parsed : BVal.parse payload = .ok v) (table : v.asDict = some d)
    (key : String) (accept : Nat → Bool) : (PexMsg.bytesIf d key accept).length ≤ MAX_STR_LEN := by
  unfold PexMsg.bytesIf
  cases there : bytesAt d key with
  | none => exact Nat.zero_le _
  | some b =>
    have short := parsed_string_short parsed table there
    rw [Option.filter_some]
    split_ifs
    · exact short
    · exact Nat.zero_le _

theorem parsed_added_short {payload : Bytes} {msg : PexMsg} (parsed : PexMsg.parse payload = .ok msg) :
    msg.added.length ≤ MAX_STR_LEN ∧ msg.added6.length ≤ MAX_STR_LEN := by
  obtain ⟨v, value, rest⟩ := bind_eq_ok.mp parsed
  obtain ⟨d, table, rest⟩ := bind_eq_ok.mp rest
  cases rest
  have table := okOr_eq_ok.mp table
  exact ⟨bytesIf_short value table "added" fun n => n % 6 = 0, bytesIf_short value table "added6" fun n => n % 18 = 0⟩

theorem length_decodeFlagged_le (n : Nat) (read : Bytes → Option NetAddr) (b flags : Bytes) :
    (decodeFlagged n read b flags).length ≤ b.length / n := by
  unfold decodeFlagged
  apply (List.length_filterMap_le _ _).trans
  simp [chunks]

/-! ### Pairs -/

theorem toCompact6_isSome (v : NetAddr) : v.toCompact6.isSome = isV4 v := by cases v <;> rfl

theorem toCompact18_isSome (v : NetAddr) : v.toCompact18.isSome = !isV4 v := by cases v <;> rfl

theorem decodeAdded_addedMsg {peers : List Flagged} (ports : ∀ p ∈ peers, p.1.PortFits) :
    decodeAdded (addedMsg peers) = v4First peers := by
  have v4 := decodeFlagged_back length_toCompact6 (by decide) fun p member => toCompact6_back (ports p member)
  have v6 := @decodeFlagged_back 18 _ _ (fun a => !isV4 a) peers length_toCompact18 (by decide)
    fun p member => toCompact18_back (ports p member)
  exact congrArg₂ (· ++ ·) v4 v6

def familySize (family : NetAddr → Bool) (peers : List Flagged) : Nat := (peers.filter fun p => family p.1).length

theorem lengths_addedMsg (peers : List Flagged) :
    (addedMsg peers).added.length = 6 * familySize isV4 peers ∧ (addedMsg peers).addedF.length = familySize isV4 peers ∧
      (addedMsg peers).added6.length = 18 * familySize (fun a => !isV4 a) peers ∧
      (addedMsg peers).added6F.length = familySize (fun a => !isV4 a) peers := by
  refine ⟨length_added length_toCompact6 toCompact6_isSome, ?_, length_added length_toCompact18 toCompact18_isSome, ?_⟩
  · exact (List.length_map _).trans (length_compactFlagged toCompact6_isSome)
  · exact (List.length_map _).trans (length_compactFlagged toCompact18_isSome)

theorem wellFormed_addedMsg (peers : List Flagged) : (addedMsg peers).WellFormed := by
  obtain ⟨added, flags, added6, flags6⟩ := lengths_addedMsg peers
  exact
    { added := by rw [added, Nat.mul_mod_right]
      flags := .inr (by rw [flags, added, Nat.mul_div_cancel_left _ (by decide)])
      dropped := rfl
      added6 := by rw [added6, Nat.mul_mod_right]
      flags6 := .inr (by rw [flags6, added6, Nat.mul_div_cancel_left _ (by decide)])
      dropped6 := rfl
      port := fun n absent => by cases absent
      port6 := fun n absent => by cases absent }

theorem fits_addedMsg {peers : List Flagged} (v4 : 6 * familySize isV4 peers ≤ MAX_STR_LEN)
    (v6 : 18 * familySize (fun a => !isV4 a) peers ≤ MAX_STR_LEN) : (addedMsg peers).Fits := by
  obtain ⟨added, flags, added6, flags6⟩ := lengths_addedMsg peers
  exact
    { added := by omega
      flags := by omega
      dropped := Nat.zero_le _
      added6 := by omega
      flags6 := by omega
      dropped6 := Nat.zero_le _ }

theorem familySize_decodeAdded_le (msg : PexMsg) :
    familySize isV4 (decodeAdded msg) ≤ msg.added.length / 6 ∧
      familySize (fun a => !isV4 a) (decodeAdded msg) ≤ msg.added6.length / 18 := by
  have v4 : ∀ p ∈ decodeFlagged 6 NetAddr.fromCompact6 msg.added msg.addedF, isV4 p.1 = true := by
    intro p member
    obtain ⟨c, -, read⟩ := List.mem_filterMap.mp member
    obtain ⟨a, parsed, rfl⟩ := Option.map_eq_some_iff.mp read
    unfold NetAddr.fromCompact6 at parsed
    split_ifs at parsed
    cases parsed
    rfl
  have v6 : ∀ p ∈ decodeFlagged 18 NetAddr.fromCompact18 msg.added6 msg.added6F, isV4 p.1 = false := by
    intro p member
    obtain ⟨c, -, read⟩ := List.mem_filterMap.mp member
    obtain ⟨a, parsed, rfl⟩ := Option.map_eq_some_iff.mp read
    unfold NetAddr.fromCompact18 at parsed
    split_ifs at parsed
    cases parsed
    rfl
  unfold familySize decodeAdded
  rw [List.filter_append, List.filter_append, List.length_append, List.length_append]
  constructor
  · have none : (decodeFlagged 18 NetAddr.fromCompact18 msg.added6 msg.added6F).filter (fun p => isV4 p.1) = [] :=
      List.filter_eq_nil_iff.mpr fun p member => by simp [v6 p member]
    rw [none, List.length_nil, Nat.add_zero]
    exact (List.length_filter_le _ _).trans (length_decodeFlagged_le _ _ _ _)
  · have none : (decodeFlagged 6 NetAddr.fromCompact6 msg.added msg.addedF).filter (fun p => !isV4 p.1) = [] :=
      List.filter_eq_nil_iff.mpr fun p member => by simp [v4 p member]
    rw [none, List.length_nil, Nat.zero_add]
    exact (List.length_filter_le _ _).trans (length_decodeFlagged_le _ _ _ _)

theorem familySize_v4First (peers : List Flagged) :
    familySize isV4 (v4First peers) = familySize isV4 peers ∧
      familySize (fun a => !isV4 a) (v4First peers) = familySize (fun a => !isV4 a) peers := by
  unfold familySize v4First
  simp [List.filter_append, List.filter_filter]

theorem added_back_iff {peers : List Flagged} (ports : ∀ p ∈ peers, p.1.PortFits) :
    (PexMsg.parse (encodeAdded peers)).map decodeAdded = .ok (v4First peers) ↔
      6 * familySize isV4 peers ≤ MAX_STR_LEN ∧ 18 * familySize (fun a => !isV4 a) peers ≤ MAX_STR_LEN := by
  constructor
  · intro back
    cases parsed : PexMsg.parse (encodeAdded peers) with
    | error e =>
      rw [parsed] at back
      cases back
    | ok msg =>
      rw [parsed] at back
      have same : decodeAdded msg = v4First peers := Except.ok.inj back
      obtain ⟨short, short6⟩ := parsed_added_short parsed
      obtain ⟨few, few6⟩ := familySize_decodeAdded_le msg
      obtain ⟨v4, v6⟩ := familySize_v4First peers
      rw [same, v4] at few
      rw [same, v6] at few6
      constructor <;> omega
  · intro fits
    have parsed := PexMsg.parse_encode_wellFormed (wellFormed_addedMsg peers) (fits_addedMsg fits.1 fits.2)
    unfold encodeAdded
    rw [parsed, Except.map, decodeAdded_addedMsg ports]

/-- Every well-formed payload within the parser's limits is read back, and every pair of a peer list likewise. -/
theorem payloads_round_trip :
    (∀ h : ExtHandshake, h.WellFormed → h.Fits → ExtHandshake.parseText h.encode = .ok h) ∧
      (∀ m : MetadataMsg, m.WellFormed → MetadataMsg.parse m.encode = .ok m) ∧
      (∀ m : PexMsg, m.WellFormed → m.Fits → PexMsg.parse m.encode = .ok m) ∧
      ∀ peers : List Flagged, (∀ p ∈ peers, p.1.PortFits) → 6 * familySize isV4 peers ≤ MAX_STR_LEN →
        18 * familySize (fun a => !isV4 a) peers ≤ MAX_STR_LEN →
        (PexMsg.parse (encodeAdded peers)).map decodeAdded = .ok (v4First peers) := by
  refine ⟨fun h => ExtHandshake.parseText_encode, fun m => MetadataMsg.parse_encode_wellFormed,
    fun m => PexMsg.parse_encode_wellFormed, ?_⟩
  intro peers ports v4 v6
  exact (added_back_iff ports).mpr ⟨v4, v6⟩

/-- A handshake with two extensions, and a list of peers of both families. -/
def sampleHandshake : ExtHandshake where
  m := (OrdMap.empty.insert (ascii "ut_metadata") 2).insert (ascii "ut_pex") 1
  v := some (ascii "TypeBit")
  reqq := some 250
  metadataSize := some 16384
  p := none
  yourport := some 6881

def sampleAdded : List Flagged := [(.v6 (ByteArr.replicate 16 1) 443, 2), (NetAddr.ofOctets 10 0 0 1 6881, 1)]

theorem payloads_round_trip_samples :
    ExtHandshake.parseText sampleHandshake.encode = .ok sampleHandshake ∧
      MetadataMsg.parse (MetadataMsg.data 1 40000 (ascii "d1:ai1ee")).encode = .ok (.data 1 40000 (ascii "d1:ai1ee")) ∧
      PexMsg.parse (addedMsg sampleAdded).encode = .ok (addedMsg sampleAdded) ∧
      (PexMsg.parse (encodeAdded sampleAdded)).map decodeAdded = .ok sampleAdded.reverse := by
  obtain ⟨handshake, metadata, exchange, pairs⟩ := payloads_round_trip
  have ports : ∀ p ∈ sampleAdded, p.1.PortFits :=
    List.forall_mem_cons.mpr ⟨(by decide : 443 < 2 ^ 16), List.forall_mem_singleton.mpr (by decide : 6881 < 2 ^ 16)⟩
  exact ⟨handshake sampleHandshake ⟨by decide, by decide, by decide, by decide, by decide, by decide⟩
      ⟨by decide, by decide, by decide⟩,
    metadata _ ⟨by decide, by decide⟩,
    exchange _ (wellFormed_addedMsg _) (fits_addedMsg (by decide) (by decide)),
    pairs sampleAdded ports (by decide) (by decide)⟩

def crowd : List Flagged := List.replicate (MAX_STR_LEN / 6 + 1) (NetAddr.ofOctets 10 0 0 1 6881, 0)

/-- The list is not read back. -/
theorem crowd_not_read_back :
    (∀ p ∈ crowd, p.1.PortFits) ∧ (PexMsg.parse (encodeAdded crowd)).map decodeAdded ≠ .ok (v4First crowd) := by
  have ports : ∀ p ∈ crowd, p.1.PortFits := by
    intro p member
    rw [List.eq_of_mem_replicate member]
    exact (by decide : 6881 < 2 ^ 16)
  have size : familySize isV4 crowd = MAX_STR_LEN / 6 + 1 := by
    unfold familySize crowd
    rw [List.filter_replicate_of_pos rfl, List.length_replicate]
  refine ⟨ports, ?_⟩
  intro back
  have fits := ((added_back_iff ports).mp back).1
  rw [size] at fits
  exact absurd fits (by decide)

end TypeBit.Wire
