import Mathlib.Tactic.IntervalCases
import TypeBit.Link.Text

/-! Base64 of `crypto/base64.rs`, in the standard alphabet and in the one for addresses: three bytes are four digits, and what
is left over at the end is padded. -/

namespace TypeBit.Link
namespace Base64

inductive Variant where
  | standard
  | urlSafe
  deriving DecidableEq, Repr

def STD : Bytes := ascii "ABCDEFGHIJKLMNOPQRSTUVWXYZabcdefghijklmnopqrstuvwxyz0123456789+/"
def URLSAFE : Bytes := ascii "ABCDEFGHIJKLMNOPQRSTUVWXYZabcdefghijklmnopqrstuvwxyz0123456789-_"

def Variant.alphabet : Variant → Bytes
  | standard => STD
  | urlSafe => URLSAFE

def symbol (v : Variant) (d : UInt8) : UInt8 := v.alphabet.getD d.toNat 0

def encode (v : Variant) : Bytes → Bytes
  | a :: b :: c :: tail =>
      [symbol v (a >>> 2), symbol v ((a &&& 0x03) <<< 4 ||| b >>> 4), symbol v ((b &&& 0x0f) <<< 2 ||| c >>> 6),
        symbol v (c &&& 0x3f)] ++ encode v tail
  | [a] => [symbol v (a >>> 2), symbol v ((a &&& 0x03) <<< 4), ch '=', ch '=']
  | [a, b] => [symbol v (a >>> 2), symbol v ((a &&& 0x03) <<< 4 ||| b >>> 4), symbol v ((b &&& 0x0f) <<< 2), ch '=']
  | [] => []

def inv (v : Variant) (c : UInt8) : UInt8 :=
  match v.alphabet.idxOf? c with
  | some i => i.toUInt8
  | none => 0xFF

def groups : Bytes → Option Bytes
  | a :: b :: c :: d :: tail =>
      if 63 < a ∨ 63 < b ∨ 63 < c ∨ 63 < d then none
      else (groups tail).map ([a <<< 2 ||| b >>> 4, b <<< 4 ||| c >>> 2, c <<< 6 ||| d] ++ ·)
  | [a, b] => if 63 < a ∨ 63 < b then none else some [a <<< 2 ||| b >>> 4]
  | [a, b, c] => if 63 < a ∨ 63 < b ∨ 63 < c then none else some [a <<< 2 ||| b >>> 4, b <<< 4 ||| c >>> 2]
  | _ => some []

/-- Padding is passed over wherever it stands; a lone digit at the end is refused. -/
def decode (v : Variant) (s : Bytes) : Option Bytes :=
  let body := (s.filter (fun b => decide (b ≠ ch '='))).map (inv v)
  if body.length % 4 = 1 then none else groups body

/-! ### Digits -/

def sextets : Bytes → Bytes
  | a :: b :: c :: tail =>
      [a >>> 2, (a &&& 0x03) <<< 4 ||| b >>> 4, (b &&& 0x0f) <<< 2 ||| c >>> 6, c &&& 0x3f] ++ sextets tail
  | [a] => [a >>> 2, (a &&& 0x03) <<< 4]
  | [a, b] => [a >>> 2, (a &&& 0x03) <<< 4 ||| b >>> 4, (b &&& 0x0f) <<< 2]
  | [] => []

set_option maxRecDepth 2000 in
theorem symbol_ne_pad (v : Variant) {d : UInt8} (digit : d ≤ 63) : symbol v d ≠ ch '=' := by
  have all : ∀ n < 64, v.alphabet.getD n 0 ≠ ch '=' := by
    cases v <;> decide
  exact all d.toNat (Nat.lt_succ_of_le digit)

set_option maxRecDepth 2000 in
theorem inv_symbol (v : Variant) {d : UInt8} (digit : d ≤ 63) : inv v (symbol v d) = d := by
  have all : ∀ n < 64, v.alphabet.idxOf? (v.alphabet.getD n 0) = some n := by
    cases v <;> decide
  have found : v.alphabet.idxOf? (symbol v d) = some d.toNat := all d.toNat (Nat.lt_succ_of_le digit)
  rw [inv, found]
  exact UInt8.ofNat_toNat

section Bits

theorem eq_of_bits {x y : UInt8} (same : ∀ i < 8, x.toBitVec.getLsbD i = y.toBitVec.getLsbD i) : x = y :=
  UInt8.eq_of_toBitVec_eq (BitVec.eq_of_getLsbD_eq same)

theorem le_of_mask {x : UInt8} (masked : x &&& 0x3f = x) : x ≤ 63 := by
  rw [← masked]
  exact Nat.and_le_right

variable (a b c : UInt8)

theorem first_le : a >>> 2 ≤ 63 := by
  apply le_of_mask
  apply eq_of_bits
  intro i inside
  interval_cases i <;> simp

theorem second_le : (a &&& 0x03) <<< 4 ||| b >>> 4 ≤ 63 := by
  apply le_of_mask
  apply eq_of_bits
  intro i inside
  interval_cases i <;> simp

theorem third_le : (b &&& 0x0f) <<< 2 ||| c >>> 6 ≤ 63 := by
  apply le_of_mask
  apply eq_of_bits
  intro i inside
  interval_cases i <;> simp

theorem fourth_le : c &&& 0x3f ≤ 63 := by
  apply le_of_mask
  apply eq_of_bits
  intro i inside
  interval_cases i <;> simp

theorem byte_first : (a >>> 2) <<< 2 ||| ((a &&& 0x03) <<< 4 ||| b >>> 4) >>> 4 = a := by
  apply eq_of_bits
  intro i inside
  interval_cases i <;> simp

theorem byte_second : ((a &&& 0x03) <<< 4 ||| b >>> 4) <<< 4 ||| ((b &&& 0x0f) <<< 2 ||| c >>> 6) >>> 2 = b := by
  apply eq_of_bits
  intro i inside
  interval_cases i <;> simp

theorem byte_third : ((b &&& 0x0f) <<< 2 ||| c >>> 6) <<< 6 ||| (c &&& 0x3f) = c := by
  apply eq_of_bits
  intro i inside
  interval_cases i <;> simp

theorem or_zero_shift (x : UInt8) (n : UInt8) : x ||| 0 >>> n = x := by
  rw [UInt8.zero_shiftRight]
  exact UInt8.or_zero

end Bits

/-! ### The codec -/

theorem sextets_le (bs : Bytes) : ∀ d ∈ sextets bs, d ≤ 63 := by
  induction bs using sextets.induct with
  | case1 a b c tail ih =>
    intro d member
    rcases List.mem_append.mp member with here | later
    · simp only [List.mem_cons, List.not_mem_nil, or_false] at here
      rcases here with rfl | rfl | rfl | rfl
      · exact first_le a
      · exact second_le a b
      · exact third_le b c
      · exact fourth_le c
    · exact ih d later
  | case2 a =>
    have second := second_le a 0
    rw [or_zero_shift] at second
    simpa [sextets] using ⟨first_le a, second⟩
  | case3 a b =>
    have third := third_le b 0
    rw [or_zero_shift] at third
    simpa [sextets] using ⟨first_le a, second_le a b, third⟩
  | case4 => simp [sextets]

theorem filter_digits (v : Variant) {ds : Bytes} (digits : ∀ d ∈ ds, d ≤ 63) :
    (ds.map (symbol v)).filter (fun b => decide (b ≠ ch '=')) = ds.map (symbol v) := by
  apply List.filter_eq_self.mpr
  intro c member
  obtain ⟨d, inside, rfl⟩ := List.mem_map.mp member
  exact decide_eq_true (symbol_ne_pad v (digits d inside))

theorem filter_encode (v : Variant) (bs : Bytes) :
    (encode v bs).filter (fun b => decide (b ≠ ch '=')) = (sextets bs).map (symbol v) := by
  induction bs using sextets.induct with
  | case1 a b c tail ih =>
    have digits : ∀ d ∈ [a >>> 2, (a &&& 0x03) <<< 4 ||| b >>> 4, (b &&& 0x0f) <<< 2 ||| c >>> 6, c &&& 0x3f], d ≤ 63 :=
      fun d member => sextets_le (a :: b :: c :: tail) d (List.mem_append_left _ member)
    rw [encode, sextets, List.filter_append, List.map_append, ih, ← filter_digits v digits]
    rfl
  | case2 a =>
    have digits := filter_digits v (sextets_le [a])
    rw [sextets] at digits ⊢
    rw [← digits]
    show List.filter _ ([_, _].map (symbol v) ++ [ch '=', ch '=']) = _
    rw [List.filter_append]
    exact List.append_nil _
  | case3 a b =>
    have digits := filter_digits v (sextets_le [a, b])
    rw [sextets] at digits ⊢
    rw [← digits]
    show List.filter _ ([_, _, _].map (symbol v) ++ [ch '=']) = _
    rw [List.filter_append]
    exact List.append_nil _
  | case4 => rfl

theorem length_sextets (bs : Bytes) : (sextets bs).length % 4 ≠ 1 := by
  induction bs using sextets.induct with
  | case1 a b c tail ih =>
    rw [sextets, List.length_append]
    show (4 + (sextets tail).length) % 4 ≠ 1
    rwa [Nat.add_mod_left]
  | case2 a => exact (by decide : 2 % 4 ≠ 1)
  | case3 a b => exact (by decide : 3 % 4 ≠ 1)
  | case4 => exact (by decide : 0 % 4 ≠ 1)

theorem groups_sextets (bs : Bytes) : groups (sextets bs) = some bs := by
  induction bs using sextets.induct with
  | case1 a b c tail ih =>
    have digits : ¬ ((63 : UInt8) < a >>> 2 ∨ (63 : UInt8) < (a &&& 0x03) <<< 4 ||| b >>> 4 ∨ (63 : UInt8) < (b &&& 0x0f) <<< 2 ||| c >>> 6 ∨
        (63 : UInt8) < c &&& 0x3f) := by
      simp [first_le, second_le, third_le, fourth_le]
    show groups (a >>> 2 :: ((a &&& 0x03) <<< 4 ||| b >>> 4) :: ((b &&& 0x0f) <<< 2 ||| c >>> 6) :: (c &&& 0x3f) ::
      sextets tail) = _
    rw [groups, if_neg digits, ih, byte_first, byte_second, byte_third]
    rfl
  | case2 a =>
    have second := second_le a 0
    have first := byte_first a 0
    rw [or_zero_shift] at second first
    have digits : ¬ ((63 : UInt8) < a >>> 2 ∨ (63 : UInt8) < (a &&& 0x03) <<< 4) := by
      simp [first_le, second]
    rw [sextets, groups, if_neg digits, first]
  | case3 a b =>
    have third := third_le b 0
    have second := byte_second a b 0
    rw [or_zero_shift] at third second
    have digits : ¬ ((63 : UInt8) < a >>> 2 ∨ (63 : UInt8) < (a &&& 0x03) <<< 4 ||| b >>> 4 ∨ (63 : UInt8) < (b &&& 0x0f) <<< 2) := by
      simp [first_le, second_le, third]
    rw [sextets, groups, if_neg digits, byte_first, second]
  | case4 => rfl

theorem decode_encode (v : Variant) (bs : Bytes) : decode v (encode v bs) = some bs := by
  have digits : ((sextets bs).map (symbol v)).map (inv v) = sextets bs := by
    rw [List.map_map]
    calc (sextets bs).map (inv v ∘ symbol v) = (sextets bs).map id :=
          List.map_congr_left fun d member => inv_symbol v (sextets_le bs d member)
      _ = sextets bs := List.map_id _
  unfold decode
  dsimp only
  rw [filter_encode, digits, if_neg (length_sextets bs), groups_sextets]

end Base64
end TypeBit.Link
