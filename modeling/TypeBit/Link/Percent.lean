import TypeBit.Link.Text

/-! Percent encoding (`percent_encode` and `percent_decode` of `magnet.rs`). -/

namespace TypeBit.Link
set_option maxRecDepth 20000

def hexv (c : UInt8) : Option UInt8 := hexNibble c

/-- Decoding; a percent sign without two digits after it stands for itself. -/
def percentDecode : Bytes → Bytes
  | [] => []
  | [a] => [a]
  | [a, b] => [a, b]
  | a :: b :: c :: tail =>
      if a = ch '%' then
        match hexv b, hexv c with
        | some hi, some lo => (hi <<< 4 ||| lo) :: percentDecode tail
        | _, _ => a :: percentDecode (b :: c :: tail)
      else a :: percentDecode (b :: c :: tail)

def unreserved (c : UInt8) : Bool :=
  (ch '0' ≤ c && c ≤ ch '9') || (ch 'a' ≤ c && c ≤ ch 'z') || (ch 'A' ≤ c && c ≤ ch 'Z') ||
    c == ch '-' || c == ch '_' || c == ch '.' || c == ch '~'

def HEX : Bytes := ascii "0123456789ABCDEF"

def percentByte (c : UInt8) : Bytes :=
  if unreserved c then [c] else [ch '%', HEX.getD (c >>> 4).toNat 0, HEX.getD (c &&& 0xf).toNat 0]

def percentEncode (b : Bytes) : Bytes := b.flatMap percentByte

/-! ### The round trip -/

theorem percentDecode_cons {a : UInt8} (plain : a ≠ ch '%') (tail : Bytes) :
    percentDecode (a :: tail) = a :: percentDecode tail := by
  rcases tail with - | ⟨b, - | ⟨c, tail⟩⟩
  · rfl
  · rfl
  · rw [percentDecode, if_neg plain]

theorem percentDecode_free {s : Bytes} (free : ch '%' ∉ s) : percentDecode s = s := by
  induction s with
  | nil => rfl
  | cons a tail ih =>
    obtain ⟨plain, rest⟩ := List.ne_and_not_mem_of_not_mem_cons free
    rw [percentDecode_cons (Ne.symm plain), ih rest]

theorem unreserved_percent : unreserved (ch '%') = false := by decide

theorem hexv_HEX (c : UInt8) :
    hexv (HEX.getD (c >>> 4).toNat 0) = some (c >>> 4) ∧ hexv (HEX.getD (c &&& 0xf).toNat 0) = some (c &&& 0xf) ∧
      (c >>> 4) <<< 4 ||| (c &&& 0xf) = c :=
  forall_byte (P := fun c => hexv (HEX.getD (c >>> 4).toNat 0) = some (c >>> 4) ∧
    hexv (HEX.getD (c &&& 0xf).toNat 0) = some (c &&& 0xf) ∧ (c >>> 4) <<< 4 ||| (c &&& 0xf) = c) (by decide) c

theorem percentDecode_percentByte (c : UInt8) (tail : Bytes) :
    percentDecode (percentByte c ++ tail) = c :: percentDecode tail := by
  unfold percentByte
  split_ifs with kept
  · apply percentDecode_cons
    intro percent
    rw [percent, unreserved_percent] at kept
    cases kept
  · obtain ⟨hi, lo, whole⟩ := hexv_HEX c
    rw [List.cons_append, List.cons_append, List.cons_append, List.nil_append, percentDecode, if_pos rfl, hi, lo]
    dsimp only
    rw [whole]

theorem percentDecode_percentEncode (b : Bytes) : percentDecode (percentEncode b) = b := by
  induction b with
  | nil => rfl
  | cons c tail ih =>
    rw [percentEncode, List.flatMap_cons, percentDecode_percentByte, ← percentEncode, ih]

theorem percentEncode_free (b : Bytes) : ch '&' ∉ percentEncode b := by
  have each (c : UInt8) : ch '&' ∉ percentByte c :=
    forall_byte (P := fun c => ch '&' ∉ percentByte c) (by decide) c
  intro member
  obtain ⟨c, -, inside⟩ := List.mem_flatMap.mp member
  exact each c inside

end TypeBit.Link
