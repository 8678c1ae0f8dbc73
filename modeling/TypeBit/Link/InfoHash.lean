import TypeBit.Link.Text
import TypeBit.Metainfo.Torrent

/-! The text forms of a torrent identity (`InfoHash` of `metainfo.rs`). -/

namespace TypeBit
set_option maxRecDepth 20000

namespace Link

def hexPairs : Bytes → Option Bytes
  | [] => some []
  | [_] => none
  | a :: b :: tail =>
      match hexNibble a, hexNibble b, hexPairs tail with
      | some hi, some lo, some rest => some ((hi <<< 4 ||| lo) :: rest)
      | _, _, _ => none

def hexDigit (n : UInt8) : UInt8 := (ascii "0123456789abcdef").getD n.toNat 0

end Link

namespace Metainfo
open Link

def hexDecodeInto (n : Nat) (s : Bytes) : Result Bytes :=
  if s.length ≠ n * 2 then .error .magnet
  else match hexPairs s with
    | some out => .ok out
    | none => .error .magnet

namespace InfoHash

def isV1 (h : InfoHash) : Bool := h.len == 20

def isV2 (h : InfoHash) : Bool := h.len == 32

def toHex (h : InfoHash) : Bytes := h.asBytes.flatMap (fun (b : UInt8) => [hexDigit (b >>> 4), hexDigit (b &&& 0xf)])

def fromHex (s : Bytes) : Result InfoHash :=
  if s.length = 40 then (hexDecodeInto 20 s).map v1
  else if s.length = 64 then (hexDecodeInto 32 s).map v2
  else .error .magnet

def fromMultihash (s : Bytes) : Result InfoHash :=
  match stripPrefix (ascii "1220") s with
  | some rest => fromHex rest
  | none => fromHex s

def Built (h : InfoHash) : Prop := (∃ a : ByteArr 20, h = v1 a.val) ∨ ∃ a : ByteArr 32, h = v2 a.val

end InfoHash
end Metainfo

/-! ### Digits of bytes -/

namespace Link
open Metainfo

theorem asBytes_v1 (a : ByteArr 20) : (InfoHash.v1 a.val).asBytes = a.val := List.take_left' a.property

theorem asBytes_v2 (a : ByteArr 32) : (InfoHash.v2 a.val).asBytes = a.val := List.take_of_length_le (Nat.le_of_eq a.property)

/-- The text writes the bytes in hexadecimal digits, of either case. -/
def HexForm (h s : Bytes) : Prop := s.map hexNibble = h.flatMap (fun (b : UInt8) => [some (b >>> 4), some (b &&& 0xf)])

instance (h s : Bytes) : Decidable (HexForm h s) := inferInstanceAs (Decidable ((_ : List (Option UInt8)) = _))

theorem HexForm.length {h s : Bytes} (form : HexForm h s) : s.length = h.length * 2 := by
  have lengths := congrArg List.length form
  rw [List.length_map] at lengths
  rw [lengths]
  clear form lengths
  induction h with
  | nil => rfl
  | cons b tail ih =>
    rw [List.flatMap_cons, List.length_append, ih]
    show 2 + tail.length * 2 = (tail.length + 1) * 2
    rw [Nat.succ_mul, Nat.add_comm]

theorem nibbles (b : UInt8) : (b >>> 4) <<< 4 ||| (b &&& 0xf) = b :=
  forall_byte (P := fun b => (b >>> 4) <<< 4 ||| (b &&& 0xf) = b) (by decide) b

theorem hexPairs_form {h s : Bytes} (form : HexForm h s) : hexPairs s = some h := by
  induction h generalizing s with
  | nil =>
    rw [List.map_eq_nil_iff.mp form]
    rfl
  | cons b tail ih =>
    obtain ⟨x, more, rfl, hi, rest⟩ := List.map_eq_cons_iff.mp form
    obtain ⟨y, others, rfl, lo, rest⟩ := List.map_eq_cons_iff.mp rest
    rw [hexPairs, hi, lo, ih rest]
    dsimp only
    rw [nibbles]

theorem hexNibble_hexDigit (b : UInt8) :
    hexNibble (hexDigit (b >>> 4)) = some (b >>> 4) ∧ hexNibble (hexDigit (b &&& 0xf)) = some (b &&& 0xf) :=
  forall_byte (P := fun b => hexNibble (hexDigit (b >>> 4)) = some (b >>> 4) ∧
    hexNibble (hexDigit (b &&& 0xf)) = some (b &&& 0xf)) (by decide) b

theorem hexForm_toHex (h : InfoHash) : HexForm h.asBytes h.toHex := by
  unfold HexForm InfoHash.toHex
  rw [List.map_flatMap]
  apply List.flatMap_congr
  intro b _
  obtain ⟨hi, lo⟩ := hexNibble_hexDigit b
  rw [List.map_cons, List.map_cons, List.map_nil, hi, lo]

theorem HexForm.isHex {h s : Bytes} (form : HexForm h s) : ∀ c ∈ s, isHex c = true := by
  intro c member
  have digit : hexNibble c ∈ s.map hexNibble := List.mem_map_of_mem member
  rw [show s.map hexNibble = _ from form] at digit
  obtain ⟨b, -, inside⟩ := List.mem_flatMap.mp digit
  simp only [List.mem_cons, List.not_mem_nil, or_false] at inside
  unfold Link.isHex
  rcases inside with hi | lo
  · rw [hi]
    rfl
  · rw [lo]
    rfl

theorem isHex_plain {c : UInt8} (digit : isHex c = true) : c < 0x80 ∧ c ≠ ch '%' ∧ c ≠ ch '&' :=
  forall_byte (P := fun c => isHex c = true → c < 0x80 ∧ c ≠ ch '%' ∧ c ≠ ch '&') (by decide) c digit

/-! ### Parsing -/

theorem hexDecodeInto_form {h s : Bytes} (form : HexForm h s) : hexDecodeInto h.length s = .ok h := by
  unfold hexDecodeInto
  rw [if_neg (not_not_intro form.length), hexPairs_form form]

theorem fromHex_v1 {h : ByteArr 20} {s : Bytes} (form : HexForm h.val s) : InfoHash.fromHex s = .ok (.v1 h.val) := by
  have digits : s.length = 40 := by rw [form.length, h.property]
  have decoded := hexDecodeInto_form form
  rw [h.property] at decoded
  rw [InfoHash.fromHex, if_pos digits, decoded]
  rfl

theorem fromHex_v2 {h : ByteArr 32} {s : Bytes} (form : HexForm h.val s) : InfoHash.fromHex s = .ok (.v2 h.val) := by
  have digits : s.length = 64 := by rw [form.length, h.property]
  have decoded := hexDecodeInto_form form
  rw [h.property] at decoded
  rw [InfoHash.fromHex, if_neg (by rw [digits]; decide), if_pos digits, decoded]
  rfl

theorem fromMultihash_prefixed (s : Bytes) : InfoHash.fromMultihash (ascii "1220" ++ s) = InfoHash.fromHex s := by
  rw [InfoHash.fromMultihash, stripPrefix_append]

end Link
end TypeBit
