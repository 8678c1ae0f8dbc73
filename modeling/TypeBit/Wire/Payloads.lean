import TypeBit.Link.Utf8
import TypeBit.Wire.Fields

/-! The extension payloads of `wire.rs` are read back: the extended handshake with its table of names, the metadata
messages whose raw bytes follow a dictionary, and the peer exchange with its parallel strings. -/

namespace TypeBit.Wire
open Bencode Metainfo Link

/-! ### Written dictionaries and what follows them -/

def Fit (e : String × BVal) : Prop :=
  (ascii e.1).length ≤ MAX_STR_LEN ∧ e.2.Valid ∧ e.2.depth < MAX_DEPTH ∧ e.2.Bounded

theorem each_entry {P : String × BVal → Prop} {α : Type} {name : String} {value : Option α} {make : α → BVal}
    (each : ∀ v ∈ value, P (name, make v)) : ∀ e ∈ entry? name value make, P e := by
  intro e member
  cases value with
  | none => cases member
  | some v =>
    cases List.mem_singleton.mp member
    exact each v rfl

theorem each_bytes? {P : String × BVal → Prop} {name : String} {b : Bytes} (each : P (name, .bytes b)) :
    ∀ e ∈ PexMsg.bytes? name b, P e := by
  intro e member
  unfold PexMsg.bytes? at member
  split at member
  · cases member
  · cases List.mem_singleton.mp member
    exact each

theorem fit_bytes {name : String} {b : Bytes} (short : (ascii name).length ≤ MAX_STR_LEN) (bounded : b.length ≤ MAX_STR_LEN) :
    Fit (name, .bytes b) :=
  ⟨short, trivial, (by decide : 0 < MAX_DEPTH), bounded⟩

theorem fit_int {name : String} {n : Nat} (short : (ascii name).length ≤ MAX_STR_LEN) (fits : n < 2 ^ 32) :
    Fit (name, .int n) := by
  have flat : 0 < MAX_DEPTH := by decide
  have range : -2 ^ 63 ≤ (n : Int) ∧ (n : Int) < 2 ^ 63 := by omega
  exact ⟨short, range, flat, trivial⟩

section Payload
variable {entries : List (String × BVal)} (few : entries.length ≤ MAX_ITEMS) (fit : ∀ e ∈ entries, Fit e)
include few fit

theorem bounded_fit : (dict entries).Bounded := bounded_dict few fun e member => ⟨(fit e member).1, (fit e member).2.2.2⟩

theorem parse_fit : BVal.parse (encodeValue (dict entries)) = .ok (.dict (fields entries)) := by
  apply parse_dict _ _ (bounded_fit few fit)
  · exact fun e member => (fit e member).2.1
  · exact fun e member => (fit e member).2.2.1

theorem value_fit (rest : Bytes) :
    Parser.value (encodeValue (dict entries) ++ rest) 0 0 = .ok (.dict (fields entries), (encodeValue (dict entries)).length) := by
  have deep : (dict entries).depth < MAX_DEPTH + 1 := Nat.lt_succ_of_le (depth_dict fun e member => (fit e member).2.2.1)
  have valid : (dict entries).Valid := valid_dict fun e member => (fit e member).2.1
  have denotes := encode_denotes (MAX_DEPTH + 1) (dict entries) deep valid (bounded_fit few fit)
  rw [← dict_fields]
  apply (valueWithin_reads _ (MAX_DEPTH + 1) 0 _ _).mpr
  exact ⟨_, denotes, Window.at_self _ rest, (Nat.zero_add _).symm⟩

end Payload

/-! ### Fields -/

theorem u32_back {o : Option Nat} (fits : ∀ n ∈ o, n < 2 ^ 32) :
    ((o.map fun n : Nat => BVal.int n).bind BVal.asInt).map asU32 = o := by
  cases o with
  | none => rfl
  | some n =>
    have small : asU32 n = n := by
      have bound := fits n rfl
      unfold asU32
      omega
    exact congrArg some small

theorem port_filter {o : Option Nat} (range : ∀ n ∈ o, 0 < n ∧ n ≤ 65535) :
    o.filter (fun p => decide (0 < p ∧ p ≤ 65535)) = o := by
  cases o with
  | none => rfl
  | some n => exact Option.filter_some_pos (decide_eq_true (range n rfl))

theorem text_filter {o : Option Bytes} (valid : ∀ b ∈ o, utf8Valid b.length b = true) :
    ((o.map BVal.bytes).bind BVal.asBytes).filter (fun b => utf8Valid b.length b) = o := by
  cases o with
  | none => rfl
  | some b => exact Option.filter_some_pos (valid b rfl)

/-! ### The extended handshake -/

namespace ExtHandshake

def readNames (h : ExtHandshake) : ExtHandshake :=
  { h with m := h.m.entries.foldl (fun m e => m.insert (Text.fromUtf8Lossy e.1).val e.2) ∅ }

def parseText (payload : Bytes) : Result ExtHandshake := (parse payload).map readNames

/-- Strings are UTF-8, numbers have 32 bits, and the observed port is a port. -/
structure WellFormed (h : ExtHandshake) : Prop where
  names : ∀ e ∈ h.m.entries, utf8Valid e.1.length e.1 = true
  version : ∀ v ∈ h.v, utf8Valid v.length v = true
  reqq : ∀ n ∈ h.reqq, n < 2 ^ 32
  metadataSize : ∀ n ∈ h.metadataSize, n < 2 ^ 32
  port : ∀ n ∈ h.p, n < 2 ^ 32
  yourport : ∀ n ∈ h.yourport, 0 < n ∧ n ≤ 65535

/-- The parser takes strings this long and tables this large. -/
structure Fits (h : ExtHandshake) : Prop where
  few : h.m.size ≤ MAX_ITEMS
  names : ∀ e ∈ h.m.entries, e.1.length ≤ MAX_STR_LEN
  version : ∀ v ∈ h.v, v.length ≤ MAX_STR_LEN

def offered (h : ExtHandshake) : Dict := h.m.entries.map (fun e => (e.1, BVal.int e.2.toNat))

def entries (h : ExtHandshake) : List (String × BVal) :=
  (if h.m.isEmpty then [] else [("m", .dict h.offered)]) ++ entry? "v" h.v .bytes ++
    entry? "reqq" h.reqq (fun n => .int n) ++ entry? "metadata_size" h.metadataSize (fun n => .int n) ++
    entry? "p" h.p (fun n => .int n) ++ entry? "yourport" h.yourport (fun n => .int n)

theorem encode_entries (h : ExtHandshake) : h.encode = encodeValue (dict h.entries) := rfl

theorem offered_sorted (h : ExtHandshake) : OrdMap.Raw.Sorted h.offered := List.pairwise_map.mpr h.m.sorted

theorem fit_offered {h : ExtHandshake} (fits : h.Fits) : Fit ("m", .dict h.offered) := by
  have valid (l : List (Bytes × UInt8)) : ValidEntries (l.map fun e => (e.1, BVal.int e.2.toNat)) := by
    induction l with
    | nil => trivial
    | cons e tail ih =>
      have small := e.2.toNat_lt
      exact ⟨⟨by omega, by omega⟩, ih⟩
  have flat (l : List (Bytes × UInt8)) : depthEntries (l.map fun e => (e.1, BVal.int e.2.toNat)) ≤ 1 := by
    induction l with
    | nil => exact Nat.zero_le 1
    | cons e tail ih => exact max_le (Nat.le_refl 1) ih
  have bounded (l : List (Bytes × UInt8)) (short : ∀ e ∈ l, e.1.length ≤ MAX_STR_LEN) :
      BoundedEntries (l.map fun e => (e.1, BVal.int e.2.toNat)) := by
    induction l with
    | nil => trivial
    | cons e tail ih =>
      exact ⟨short e List.mem_cons_self, trivial, ih fun f member => short f (List.mem_cons_of_mem e member)⟩
  have few : h.offered.length ≤ MAX_ITEMS := by
    unfold offered
    rw [List.length_map]
    exact fits.few
  exact ⟨(by decide : (ascii "m").length ≤ MAX_STR_LEN), ⟨h.offered_sorted, valid _⟩, lt_of_le_of_lt (flat _) (by decide), few, bounded _ fits.names⟩

theorem few_entries (h : ExtHandshake) : h.entries.length ≤ MAX_ITEMS := by
  have one {α : Type} (name : String) (o : Option α) (make : α → BVal) : ( entry? name o make).length ≤ 1 := by
    cases o <;> simp [ entry?]
  have v := one "v" h.v .bytes
  have reqq := one "reqq" h.reqq fun n => .int n
  have size := one "metadata_size" h.metadataSize fun n => .int n
  have p := one "p" h.p fun n => .int n
  have yourport := one "yourport" h.yourport fun n => .int n
  have m : (if h.m.isEmpty then [] else [("m", BVal.dict h.offered)]).length ≤ 1 := by split_ifs <;> simp
  have room : 6 ≤ MAX_ITEMS := by decide
  unfold entries
  simp only [List.length_append]
  omega

theorem fit_entries {h : ExtHandshake} (well : h.WellFormed) (fits : h.Fits) : ∀ e ∈ h.entries, Fit e := by
  unfold entries
  simp only [List.forall_mem_append]
  have port : ∀ n ∈ h.yourport, n < 2 ^ 32 := fun n there => lt_of_le_of_lt (well.yourport n there).2 (by decide)
  refine ⟨⟨⟨⟨⟨?_, ?_⟩, ?_⟩, ?_⟩, ?_⟩, ?_⟩
  · intro e member
    split_ifs at member
    · cases member
    · cases List.mem_singleton.mp member
      exact fit_offered fits
  · exact each_entry fun v there => fit_bytes (by decide) (fits.version v there)
  · exact each_entry fun n there => fit_int (by decide) (well.reqq n there)
  · exact each_entry fun n there => fit_int (by decide) (well.metadataSize n there)
  · exact each_entry fun n there => fit_int (by decide) (well.port n there)
  · exact each_entry fun n there => fit_int (by decide) (port n there)

theorem at?_entries (h : ExtHandshake) :
    at? (fields h.entries) "m" = (if h.m.isEmpty then none else some (.dict h.offered)) ∧
      at? (fields h.entries) "v" = h.v.map .bytes ∧
      at? (fields h.entries) "reqq" = h.reqq.map (fun n => .int n) ∧
      at? (fields h.entries) "metadata_size" = h.metadataSize.map (fun n => .int n) ∧
      at? (fields h.entries) "p" = h.p.map (fun n => .int n) ∧
      at? (fields h.entries) "yourport" = h.yourport.map (fun n => .int n) := by
  unfold entries
  cases h.m.isEmpty <;> simp +decide [at?_fields_append, at?_fields_cons, at?_fields_entry]

theorem offered_back (h : ExtHandshake) :
    h.offered.filterMap (fun e => e.2.asInt.map fun id => (e.1, (id % 256).toNat.toUInt8)) = h.m.entries := by
  unfold offered
  rw [List.filterMap_map]
  apply (List.filterMap_congr _).trans List.filterMap_some
  intro e _
  have cast : (((e.2.toNat : Int) % 256).toNat).toUInt8 = e.2 := by
    have small := e.2.toNat_lt
    have whole : ((e.2.toNat : Int) % 256).toNat = e.2.toNat := by omega
    rw [whole]
    exact UInt8.ofNat_toNat
  exact congrArg (fun id => some (e.1, id)) cast

theorem readNames_wellFormed {h : ExtHandshake} (well : h.WellFormed) : h.readNames = h := by
  have same : h.m.entries.foldl (fun m e => m.insert (Text.fromUtf8Lossy e.1).val e.2) ∅ = h.m := by
    calc h.m.entries.foldl (fun m e => m.insert (Text.fromUtf8Lossy e.1).val e.2) ∅
        = h.m.entries.foldl (fun m e => m.insert e.1 e.2) ∅ := by
          apply List.foldl_ext
          intro m e member
          exact congrArg (fun name => m.insert name e.2) (lossyChars_valid (well.names e member))
      _ = h.m := h.m.foldl_insert_entries
  unfold readNames
  rw [same]

theorem parse_encode_wellFormed {h : ExtHandshake} (well : h.WellFormed) (fits : h.Fits) : parse h.encode = .ok h := by
  obtain ⟨m, v, reqq, size, p, yourport⟩ := h.at?_entries
  have table : ((dictAt (fields h.entries) "m").getD []).filterMap
      (fun e => e.2.asInt.map fun id => (e.1, (id % 256).toNat.toUInt8)) = h.m.entries := by
    unfold dictAt
    rw [m]
    by_cases empty : h.m.isEmpty = true
    · rw [if_pos empty]
      exact (List.isEmpty_iff.mp empty).symm
    · rw [if_neg empty]
      exact h.offered_back
  have port : ∀ n ∈ h.yourport, n < 2 ^ 32 := fun n there => lt_of_le_of_lt (well.yourport n there).2 (by decide)
  unfold parse
  rw [encode_entries, parse_fit h.few_entries (fit_entries well fits)]
  simp only [okOr, bind, Except.bind, BVal.asDict, table, OrdMap.foldl_insert_entries, strAt, bytesAt, portAt, u32At, intAt, v, reqq, size, p,
    yourport, text_filter well.version, u32_back well.reqq, u32_back well.metadataSize, u32_back well.port, u32_back port,
    port_filter well.yourport]

theorem parseText_encode {h : ExtHandshake} (well : h.WellFormed) (fits : h.Fits) : parseText h.encode = .ok h := by
  unfold parseText
  rw [parse_encode_wellFormed well fits, Except.map, readNames_wellFormed well]

end ExtHandshake

/-! ### Metadata messages -/

namespace MetadataMsg

/-- Numbers have 32 bits. -/
def WellFormed : MetadataMsg → Prop
  | request piece => piece < 2 ^ 32
  | data piece totalSize _ => piece < 2 ^ 32 ∧ totalSize < 2 ^ 32
  | reject piece => piece < 2 ^ 32

def entries : MetadataMsg → List (String × BVal)
  | request piece => [("msg_type", .int 0), ("piece", .int piece)]
  | data piece totalSize _ => [("msg_type", .int 1), ("piece", .int piece), ("total_size", .int totalSize)]
  | reject piece => [("msg_type", .int 2), ("piece", .int piece)]

def trailing : MetadataMsg → Bytes
  | data _ _ bytes => bytes
  | _ => []

theorem encode_entries (m : MetadataMsg) : m.encode = encodeValue (dict m.entries) ++ m.trailing := by
  cases m with
  | data piece totalSize bytes => rfl
  | request piece => exact (List.append_nil _).symm
  | reject piece => exact (List.append_nil _).symm

theorem fit_entries {m : MetadataMsg} (well : m.WellFormed) : ∀ e ∈ m.entries, Fit e := by
  have kind (n : Nat) (small : n < 2 ^ 32) : Fit ("msg_type", .int n) := fit_int (by decide) small
  cases m with
  | request piece =>
    simp only [entries, List.forall_mem_cons]
    exact ⟨kind 0 (by decide), fit_int (by decide) well, fun e none => absurd none List.not_mem_nil⟩
  | data piece totalSize bytes =>
    simp only [entries, List.forall_mem_cons]
    exact ⟨kind 1 (by decide), fit_int (by decide) well.1, fit_int (by decide) well.2,
      fun e none => absurd none List.not_mem_nil⟩
  | reject piece =>
    simp only [entries, List.forall_mem_cons]
    exact ⟨kind 2 (by decide), fit_int (by decide) well, fun e none => absurd none List.not_mem_nil⟩

theorem asU32_of_lt {n : Nat} (small : n < 2 ^ 32) : asU32 n = n := by
  unfold asU32
  omega

theorem parse_encode_wellFormed {m : MetadataMsg} (well : m.WellFormed) : parse m.encode = .ok m := by
  have few : m.entries.length ≤ MAX_ITEMS := by cases m <;> simp [entries, MAX_ITEMS]
  have value := value_fit few (fit_entries well) m.trailing
  have rest : (encodeValue (dict m.entries) ++ m.trailing).drop (encodeValue (dict m.entries)).length = m.trailing :=
    List.drop_left
  unfold parse
  rw [encode_entries, value]
  simp only [okOr, bind, Except.bind, BVal.asDict, rest]
  cases m with
  | request piece => simp +decide [entries, intAt, u32At, at?_fields_cons, BVal.asInt, asU32_of_lt well]
  | data piece totalSize bytes =>
    simp +decide [entries, intAt, u32At, at?_fields_cons, BVal.asInt, asU32_of_lt well.1, asU32_of_lt well.2, trailing]
  | reject piece => simp +decide [entries, intAt, u32At, at?_fields_cons, BVal.asInt, asU32_of_lt well]

end MetadataMsg

/-! ### Peer exchange -/

namespace PexMsg

/-- Endpoints come in whole groups, flags one for each endpoint or not at all, and ports are ports. -/
structure WellFormed (m : PexMsg) : Prop where
  added : m.added.length % 6 = 0
  flags : m.addedF = [] ∨ m.addedF.length = m.added.length / 6
  dropped : m.dropped.length % 6 = 0
  added6 : m.added6.length % 18 = 0
  flags6 : m.added6F = [] ∨ m.added6F.length = m.added6.length / 18
  dropped6 : m.dropped6.length % 18 = 0
  port : ∀ n ∈ m.p, 0 < n ∧ n ≤ 65535
  port6 : ∀ n ∈ m.p6, 0 < n ∧ n ≤ 65535

/-- The parser takes strings this long. -/
structure Fits (m : PexMsg) : Prop where
  added : m.added.length ≤ MAX_STR_LEN
  flags : m.addedF.length ≤ MAX_STR_LEN
  dropped : m.dropped.length ≤ MAX_STR_LEN
  added6 : m.added6.length ≤ MAX_STR_LEN
  flags6 : m.added6F.length ≤ MAX_STR_LEN
  dropped6 : m.dropped6.length ≤ MAX_STR_LEN

def entries (m : PexMsg) : List (String × BVal) :=
  bytes? "added" m.added ++ bytes? "added.f" m.addedF ++ bytes? "dropped" m.dropped ++ bytes? "added6" m.added6 ++
    bytes? "added6.f" m.added6F ++ bytes? "dropped6" m.dropped6 ++ entry? "p" m.p (fun n => .int n) ++
    entry? "p6" m.p6 (fun n => .int n)

theorem encode_entries (m : PexMsg) : m.encode = encodeValue (dict m.entries) := rfl

theorem few_entries (m : PexMsg) : m.entries.length ≤ MAX_ITEMS := by
  have text (name : String) (b : Bytes) : (bytes? name b).length ≤ 1 := by
    unfold bytes?
    split_ifs <;> simp
  have number (name : String) (o : Option Nat) : ( entry? name o fun n => .int n).length ≤ 1 := by
    cases o <;> simp [ entry?]
  have added := text "added" m.added
  have flags := text "added.f" m.addedF
  have dropped := text "dropped" m.dropped
  have added6 := text "added6" m.added6
  have flags6 := text "added6.f" m.added6F
  have dropped6 := text "dropped6" m.dropped6
  have p := number "p" m.p
  have p6 := number "p6" m.p6
  have room : 8 ≤ MAX_ITEMS := by decide
  unfold entries
  simp only [List.length_append]
  omega

theorem fit_entries {m : PexMsg} (well : m.WellFormed) (fits : m.Fits) : ∀ e ∈ m.entries, Fit e := by
  have port {o : Option Nat} (range : ∀ n ∈ o, 0 < n ∧ n ≤ 65535) : ∀ n ∈ o, n < 2 ^ 32 :=
    fun n there => lt_of_le_of_lt (range n there).2 (by decide)
  unfold entries
  simp only [List.forall_mem_append]
  refine ⟨⟨⟨⟨⟨⟨⟨?_, ?_⟩, ?_⟩, ?_⟩, ?_⟩, ?_⟩, ?_⟩, ?_⟩
  · exact each_bytes? (fit_bytes (by decide) fits.added)
  · exact each_bytes? (fit_bytes (by decide) fits.flags)
  · exact each_bytes? (fit_bytes (by decide) fits.dropped)
  · exact each_bytes? (fit_bytes (by decide) fits.added6)
  · exact each_bytes? (fit_bytes (by decide) fits.flags6)
  · exact each_bytes? (fit_bytes (by decide) fits.dropped6)
  · exact each_entry fun n there => fit_int (by decide) (port well.port n there)
  · exact each_entry fun n there => fit_int (by decide) (port well.port6 n there)

def found (b : Bytes) : Option BVal := if b = [] then none else some (.bytes b)

theorem at?_entries (m : PexMsg) :
    at? (fields m.entries) "added" = found m.added ∧ at? (fields m.entries) "added.f" = found m.addedF ∧
      at? (fields m.entries) "dropped" = found m.dropped ∧ at? (fields m.entries) "added6" = found m.added6 ∧
      at? (fields m.entries) "added6.f" = found m.added6F ∧ at? (fields m.entries) "dropped6" = found m.dropped6 ∧
      at? (fields m.entries) "p" = m.p.map (fun n => .int n) ∧ at? (fields m.entries) "p6" = m.p6.map (fun n => .int n) := by
  simp +decide [entries, found, at?_fields_append, at?_fields_bytes?, at?_fields_entry]

theorem bytesIf_found {d : Dict} {key : String} {b : Bytes} {accept : Nat → Bool} (here : at? d key = found b)
    (passes : b = [] ∨ accept b.length = true) : bytesIf d key accept = b := by
  unfold bytesIf bytesAt
  rw [here, found]
  rcases passes with rfl | good
  · rfl
  · split_ifs with empty
    · exact empty.symm
    · exact congrArg (fun o => Option.getD o []) (Option.filter_some_pos (p := fun a : Bytes => accept a.length) good)

theorem parse_encode_wellFormed {m : PexMsg} (well : m.WellFormed) (fits : m.Fits) : parse m.encode = .ok m := by
  obtain ⟨added, flags, dropped, added6, flags6, dropped6, p, p6⟩ := m.at?_entries
  have port {o : Option Nat} (range : ∀ n ∈ o, 0 < n ∧ n ≤ 65535) : ∀ n ∈ o, n < 2 ^ 32 :=
    fun n there => lt_of_le_of_lt (range n there).2 (by decide)
  unfold parse
  rw [encode_entries, parse_fit m.few_entries (fit_entries well fits)]
  simp only [okOr, bind, Except.bind, BVal.asDict]
  rw [bytesIf_found added (.inr (decide_eq_true well.added)), bytesIf_found added6 (.inr (decide_eq_true well.added6)),
    bytesIf_found flags (well.flags.imp_right decide_eq_true), bytesIf_found flags6 (well.flags6.imp_right decide_eq_true),
    bytesIf_found dropped (.inr (decide_eq_true well.dropped)), bytesIf_found dropped6 (.inr (decide_eq_true well.dropped6))]
  simp only [portAt, u32At, intAt, p, p6, u32_back (port well.port), u32_back (port well.port6), port_filter well.port,
    port_filter well.port6]

end PexMsg
end TypeBit.Wire
