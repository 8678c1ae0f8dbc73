import TypeBit.Basic
import TypeBit.Lib.OrdMap

/-! Bencode values and their encoder (`bencode.rs`). A dictionary is the entry list of the
source's ordered map; `BVal.Valid` is what the Rust types guarantee of every value. -/

namespace TypeBit.Bencode

def MAX_DEPTH : Nat := 64
def MAX_STR_LEN : Nat := 16 * 1024 * 1024
def MAX_ITEMS : Nat := 1000000

inductive BVal where
  | int (i : Int)
  | bytes (b : Bytes)
  | list (items : List BVal)
  | dict (entries : List (Bytes × BVal))
  deriving Repr

namespace BVal

def asInt : BVal → Option Int
  | .int i => some i
  | _ => none

def asBytes : BVal → Option Bytes
  | .bytes b => some b
  | _ => none

def asList : BVal → Option (List BVal)
  | .list l => some l
  | _ => none

def asDict : BVal → Option (List (Bytes × BVal))
  | .dict m => some m
  | _ => none

def get (v : BVal) (key : Bytes) : Option BVal :=
  match v with
  | .dict m => OrdMap.Raw.get? m key
  | _ => none

end BVal

def decimal (n : Nat) : Bytes := (Nat.toDigits 10 n).map ch

def intText (i : Int) : Bytes := if i < 0 then ch '-' :: decimal i.natAbs else decimal i.natAbs

def encodeBytes (b : Bytes) : Bytes := decimal b.length ++ ch ':' :: b

mutual

def encodeValue : BVal → Bytes
  | .int i => ch 'i' :: intText i ++ [ch 'e']
  | .bytes b => encodeBytes b
  | .list items => ch 'l' :: encodeItems items ++ [ch 'e']
  | .dict entries => ch 'd' :: encodeEntries entries ++ [ch 'e']

def encodeItems : List BVal → Bytes
  | [] => []
  | v :: tail => encodeValue v ++ encodeItems tail

def encodeEntries : List (Bytes × BVal) → Bytes
  | [] => []
  | (k, v) :: tail => encodeBytes k ++ encodeValue v ++ encodeEntries tail

end

def BVal.encode (v : BVal) (out : Bytes) : Bytes := out ++ encodeValue v

mutual

def BVal.depth : BVal → Nat
  | .int _ => 0
  | .bytes _ => 0
  | .list items => depthItems items
  | .dict entries => depthEntries entries

def depthItems : List BVal → Nat
  | [] => 0
  | v :: tail => max (v.depth + 1) (depthItems tail)

def depthEntries : List (Bytes × BVal) → Nat
  | [] => 0
  | (_, v) :: tail => max (v.depth + 1) (depthEntries tail)

end

mutual

/-- What the source's types guarantee: 64-bit integers and strictly ordered dictionary keys. -/
def BVal.Valid : BVal → Prop
  | .int i => -2 ^ 63 ≤ i ∧ i < 2 ^ 63
  | .bytes _ => True
  | .list items => ValidItems items
  | .dict entries => OrdMap.Raw.Sorted entries ∧ ValidEntries entries

def ValidItems : List BVal → Prop
  | [] => True
  | v :: tail => v.Valid ∧ ValidItems tail

def ValidEntries : List (Bytes × BVal) → Prop
  | [] => True
  | (_, v) :: tail => v.Valid ∧ ValidEntries tail

end

mutual

/-- The parser's size limits, at every level: string, key, list and dictionary lengths. -/
def BVal.Bounded : BVal → Prop
  | .int _ => True
  | .bytes b => b.length ≤ MAX_STR_LEN
  | .list items => items.length ≤ MAX_ITEMS ∧ BoundedItems items
  | .dict entries => entries.length ≤ MAX_ITEMS ∧ BoundedEntries entries

def BoundedItems : List BVal → Prop
  | [] => True
  | v :: tail => v.Bounded ∧ BoundedItems tail

def BoundedEntries : List (Bytes × BVal) → Prop
  | [] => True
  | (k, v) :: tail => k.length ≤ MAX_STR_LEN ∧ v.Bounded ∧ BoundedEntries tail

end

/-- A bencode value as the source can build it. -/
structure Value where
  val : BVal
  valid : val.Valid

theorem encodeItems_eq (items : List BVal) : encodeItems items = (items.map encodeValue).flatten := by
  induction items with
  | nil => rfl
  | cons v tail ih => simp [encodeItems, ih]

theorem encodeEntries_eq (entries : List (Bytes × BVal)) :
    encodeEntries entries = (entries.map (fun e => encodeBytes e.1 ++ encodeValue e.2)).flatten := by
  induction entries with
  | nil => rfl
  | cons e tail ih => simp [encodeEntries, ih]

variable {items : List BVal} {v : BVal}

theorem depthItems_of_mem (present : v ∈ items) : v.depth + 1 ≤ depthItems items := by
  induction items with
  | nil => simp at present
  | cons head tail ih =>
    rcases List.mem_cons.mp present with rfl | later
    · simp [depthItems]
    · exact le_trans (ih later) (by simp [depthItems])

variable {entries : List (Bytes × BVal)} {e : Bytes × BVal}

theorem depthEntries_of_mem (present : e ∈ entries) : e.2.depth + 1 ≤ depthEntries entries := by
  induction entries with
  | nil => simp at present
  | cons head tail ih =>
    rcases List.mem_cons.mp present with rfl | later
    · simp [depthEntries]
    · exact le_trans (ih later) (by simp [depthEntries])

theorem valid_of_mem_items (valid : ValidItems items) (present : v ∈ items) : v.Valid := by
  induction items with
  | nil => simp at present
  | cons head tail ih =>
    rcases List.mem_cons.mp present with rfl | later
    · exact valid.1
    · exact ih valid.2 later

theorem valid_of_mem_entries (valid : ValidEntries entries) (present : e ∈ entries) : e.2.Valid := by
  induction entries with
  | nil => simp at present
  | cons head tail ih =>
    rcases List.mem_cons.mp present with rfl | later
    · exact valid.1
    · exact ih valid.2 later

theorem bounded_of_mem_items (bounded : BoundedItems items) (present : v ∈ items) : v.Bounded := by
  induction items with
  | nil => simp at present
  | cons head tail ih =>
    rcases List.mem_cons.mp present with rfl | later
    · exact bounded.1
    · exact ih bounded.2 later

theorem bounded_of_mem_entries (bounded : BoundedEntries entries)
    (present : e ∈ entries) : e.1.length ≤ MAX_STR_LEN ∧ e.2.Bounded := by
  induction entries with
  | nil => simp at present
  | cons head tail ih =>
    rcases List.mem_cons.mp present with rfl | later
    · exact ⟨bounded.1, bounded.2.1⟩
    · exact ih bounded.2.2 later

end TypeBit.Bencode
