import TypeBit.Bencode.RoundTrip
import TypeBit.Wire.Extended

/-! Dictionaries written field by field: what a reader finds under a key, and when the parser reads them back. -/

namespace TypeBit.Wire
open Bencode Metainfo

def fields (entries : List (String × BVal)) : Dict := insertAll [] (entries.map fun e => (ascii e.1, e.2))

theorem dict_fields (entries : List (String × BVal)) : dict entries = .dict (fields entries) := by
  unfold dict fields insertAll
  rw [List.foldl_map]

/-! ### Lookups -/

@[simp] theorem at?_fields_nil (key : String) : at? (fields []) key = none := rfl

theorem at?_fields_append (first second : List (String × BVal)) (key : String) :
    at? (fields (first ++ second)) key = (at? (fields second) key).or (at? (fields first) key) := by
  unfold at? fields
  rw [get?_insertAll, get?_insertAll, get?_insertAll, List.map_append, List.reverse_append]
  simp [OrdMap.Raw.get?, List.find?_append, Option.map_or]

theorem at?_fields_singleton (name : String) (v : BVal) (key : String) :
    at? (fields [(name, v)]) key = if ascii name = ascii key then some v else none := by
  unfold at? fields insertAll
  rw [List.map_singleton, List.foldl_cons, List.foldl_nil, OrdMap.Raw.get?_insert]
  split_ifs <;> rfl

theorem at?_fields_cons (name : String) (v : BVal) (tail : List (String × BVal)) (key : String) :
    at? (fields ((name, v) :: tail)) key = (at? (fields tail) key).or (if ascii name = ascii key then some v else none) := by
  rw [← List.singleton_append, at?_fields_append, at?_fields_singleton]

theorem at?_fields_entry {α : Type} (name : String) (value : Option α) (make : α → BVal) (key : String) :
    at? (fields ( entry? name value make)) key = if ascii name = ascii key then value.map make else none := by
  cases value with
  | none => exact (ite_self none).symm
  | some v => exact at?_fields_singleton name (make v) key

theorem at?_fields_bytes? (name : String) (b : Bytes) (key : String) :
    at? (fields (PexMsg.bytes? name b)) key = if ascii name = ascii key ∧ b ≠ [] then some (.bytes b) else none := by
  unfold PexMsg.bytes?
  by_cases empty : b = []
  · rw [if_pos empty, if_neg (fun both => both.2 empty)]
    rfl
  · rw [if_neg empty, at?_fields_singleton]
    simp [empty]

/-! ### What the parser asks for -/

@[elab_as_elim]
theorem fields_induction {motive : Dict → Prop} (entries : List (String × BVal)) (nil : motive [])
    (insert : ∀ m, ∀ e ∈ entries, motive m → motive (OrdMap.Raw.insert (ascii e.1) e.2 m)) : motive (fields entries) := by
  apply insertAll_induction nil
  intro m e member kept
  obtain ⟨f, present, rfl⟩ := List.mem_map.mp member
  exact insert m f present kept

variable {entries : List (String × BVal)}

theorem valid_dict (each : ∀ e ∈ entries, e.2.Valid) : (dict entries).Valid := by
  rw [dict_fields, BVal.Valid]
  refine fields_induction entries ⟨List.Pairwise.nil, trivial⟩ ?_
  intro m e member valid
  exact ⟨OrdMap.Raw.sorted_insert _ _ valid.1, validEntries_insert valid.2 (each e member)⟩

theorem depthEntries_insert {k : Bytes} {v : BVal} {m : List (Bytes × BVal)} {n : Nat} (within : depthEntries m ≤ n)
    (value : v.depth < n) : depthEntries (OrdMap.Raw.insert k v m) ≤ n := by
  induction m with
  | nil => exact max_le value (Nat.zero_le n)
  | cons e tail ih =>
    obtain ⟨first, rest⟩ := max_le_iff.mp within
    unfold OrdMap.Raw.insert
    split_ifs
    · exact max_le value within
    · exact max_le value rest
    · exact max_le first (ih rest)

theorem depth_dict {n : Nat} (each : ∀ e ∈ entries, e.2.depth < n) : (dict entries).depth ≤ n := by
  rw [dict_fields, BVal.depth]
  refine fields_induction entries (Nat.zero_le n) ?_
  intro m e member within
  exact depthEntries_insert within (each e member)

theorem boundedEntries_insert {k : Bytes} {v : BVal} {m : List (Bytes × BVal)} (key : k.length ≤ MAX_STR_LEN) (value : v.Bounded)
    (bounded : BoundedEntries m) : BoundedEntries (OrdMap.Raw.insert k v m) := by
  induction m with
  | nil => exact ⟨key, value, trivial⟩
  | cons e tail ih =>
    unfold OrdMap.Raw.insert
    split_ifs
    · exact ⟨key, value, bounded⟩
    · exact ⟨key, value, bounded.2.2⟩
    · exact ⟨bounded.1, bounded.2.1, ih bounded.2.2⟩

theorem length_fields_le (entries : List (String × BVal)) : (fields entries).length ≤ entries.length := by
  induction entries using List.reverseRecOn with
  | nil => exact Nat.le_refl 0
  | append_singleton front e ih =>
    have step : fields (front ++ [e]) = OrdMap.Raw.insert (ascii e.1) e.2 (fields front) := by
      simp [fields, insertAll]
    rw [step, List.length_append, List.length_singleton]
    exact (OrdMap.Raw.length_insert_le _ _ _).trans (Nat.succ_le_succ ih)

theorem bounded_dict (few : entries.length ≤ MAX_ITEMS)
    (each : ∀ e ∈ entries, (ascii e.1).length ≤ MAX_STR_LEN ∧ e.2.Bounded) : (dict entries).Bounded := by
  rw [dict_fields, BVal.Bounded]
  refine ⟨(length_fields_le entries).trans few, fields_induction entries trivial ?_⟩
  intro m e member bounded
  exact boundedEntries_insert (each e member).1 (each e member).2 bounded

theorem parse_dict (valid : ∀ e ∈ entries, e.2.Valid)
    (deep : ∀ e ∈ entries, e.2.depth < MAX_DEPTH) (bounded : (dict entries).Bounded) :
    BVal.parse (encodeValue (dict entries)) = .ok (.dict (fields entries)) := by
  rw [← dict_fields]
  exact parse_encode ⟨dict entries, valid_dict valid⟩ (depth_dict deep) bounded

end TypeBit.Wire
