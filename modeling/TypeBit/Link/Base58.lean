import Mathlib.Tactic.Ring
import TypeBit.Lib.Radix
import TypeBit.Link.Base

/-! Base58 both ways (`crypto/base58.rs`): leading zeros are counted apart, and what follows them is one number, written in
base 58 and in base 256. -/

namespace TypeBit.Link
open Radix Option

theorem exists_replicate_append {α : Type} [DecidableEq α] (x : α) (l : List α) :
    ∃ n rest, l = List.replicate n x ++ rest ∧ rest.head? ≠ some x := by
  induction l with
  | nil => exact ⟨0, [], rfl, (some_ne_none x).symm⟩
  | cons y tail ih =>
    by_cases same : y = x
    · obtain ⟨n, rest, split, first⟩ := ih
      refine ⟨n + 1, rest, ?_, first⟩
      rw [same, split]
      rfl
    · exact ⟨0, y :: tail, rfl, fun head => same (some.inj head)⟩

theorem takeWhile_replicate_append {α : Type} [DecidableEq α] {x : α} (n : Nat) {rest : List α} (first : rest.head? ≠ some x) :
    (List.replicate n x ++ rest).takeWhile (· == x) = List.replicate n x := by
  have all : ∀ y ∈ List.replicate n x, (y == x) = true := by
    intro y member
    exact beq_iff_eq.mpr (List.eq_of_mem_replicate member)
  rw [List.takeWhile_append_of_pos all]
  cases rest with
  | nil => exact List.append_nil _
  | cons y tail =>
    have other : (y == x) = false := beq_false_of_ne fun same => first (congrArg some same)
    rw [List.takeWhile_cons, other]
    exact List.append_nil _

namespace Base58

/-! ### Writing -/

def symbol (d : Nat) : UInt8 := alphabet.getD d 0

def divide : Nat → Bytes → Bytes × Nat
  | rem, [] => ([], rem)
  | rem, b :: tail =>
      let cur := (rem <<< 8) % 2 ^ 32 ||| b.toNat
      let next := divide (cur % 58) tail
      ((cur / 58).toUInt8 :: next.1, next.2)

def value (num : Bytes) : Nat := number 256 (num.map UInt8.toNat)

theorem value_cons (b : UInt8) (tail : Bytes) : value (b :: tail) = b.toNat * 256 ^ tail.length + value tail := by
  rw [value, List.map_cons, number_cons, List.length_map]
  rfl

theorem toNat_lt_of_mem_map {num : Bytes} : ∀ n ∈ num.map UInt8.toNat, n < 256 := by
  intro n member
  obtain ⟨c, -, rfl⟩ := List.mem_map.mp member
  exact c.toNat_lt

theorem value_dropWhile (num : Bytes) : value (num.dropWhile (· == 0)) = value num := by
  induction num with
  | nil => rfl
  | cons b tail ih =>
    by_cases zero : b = 0
    · rw [List.dropWhile_cons, if_pos (beq_iff_eq.mpr zero), ih, zero]
      exact (number_zero_cons 256 (tail.map UInt8.toNat)).symm
    · rw [List.dropWhile_cons, if_neg (fun same => zero (beq_iff_eq.mp same))]

theorem divide_spec (num : Bytes) {rem : Nat} (small : rem < 58) : (divide rem num).1.length = num.length ∧
    (divide rem num).2 < 58 ∧ rem * 256 ^ num.length + value num = 58 * value (divide rem num).1 + (divide rem num).2 := by
  induction num generalizing rem with
  | nil =>
    refine ⟨rfl, small, ?_⟩
    show rem * 256 ^ 0 + 0 = 58 * 0 + rem
    omega
  | cons b tail ih =>
    have byte := b.toNat_lt
    have cur : (rem <<< 8) % 2 ^ 32 ||| b.toNat = rem * 256 + b.toNat := by
      rw [Nat.shiftLeft_eq, Nat.mod_eq_of_lt (by omega), ← Nat.shiftLeft_eq, Nat.shiftLeft_add_eq_or_of_lt byte]
    obtain ⟨length, left, equal⟩ := ih (Nat.mod_lt (rem * 256 + b.toNat) (by decide : 0 < 58))
    have quotient : (Nat.toUInt8 ((rem * 256 + b.toNat) / 58)).toNat = (rem * 256 + b.toNat) / 58 :=
      Nat.mod_eq_of_lt (by omega)
    rw [divide]
    dsimp only
    rw [cur]
    refine ⟨congrArg Nat.succ length, left, ?_⟩
    rw [value_cons, value_cons, length, quotient]
    calc rem * 256 ^ (b :: tail).length + (b.toNat * 256 ^ tail.length + value tail)
        = (rem * 256 + b.toNat) * 256 ^ tail.length + value tail := by
          rw [List.length_cons, Nat.pow_succ]
          ring
      _ = (58 * ((rem * 256 + b.toNat) / 58) + (rem * 256 + b.toNat) % 58) * 256 ^ tail.length + value tail := by
          rw [Nat.div_add_mod]
      _ = 58 * ((rem * 256 + b.toNat) / 58 * 256 ^ tail.length) +
            ((rem * 256 + b.toNat) % 58 * 256 ^ tail.length + value tail) := by ring
      _ = _ := by
          rw [equal]
          ring

theorem divide_zero (num : Bytes) : value (divide 0 num).1 = value num / 58 ∧ (divide 0 num).2 = value num % 58 := by
  obtain ⟨-, left, equal⟩ := divide_spec num (by decide : 0 < 58)
  omega

theorem head?_dropWhile (num : Bytes) : (num.dropWhile (· == 0)).head? ≠ some 0 := by
  induction num with
  | nil => exact (some_ne_none _).symm
  | cons b tail ih =>
    by_cases zero : b = 0
    · rw [List.dropWhile_cons, if_pos (beq_iff_eq.mpr zero)]
      exact ih
    · rw [List.dropWhile_cons, if_neg (fun same => zero (beq_iff_eq.mp same))]
      exact fun head => zero (some.inj head)

theorem dropWhile_of_value_zero {num : Bytes} (zero : value num = 0) : num.dropWhile (· == 0) = [] := by
  induction num with
  | nil => rfl
  | cons b tail ih =>
    rw [value_cons] at zero
    have none : b.toNat * 256 ^ tail.length = 0 := by omega
    have first : b = 0 := by
      rcases Nat.mul_eq_zero.mp none with byte | power
      · exact UInt8.toNat_inj.mp byte
      · exact absurd power (Nat.pow_pos (by decide)).ne'
    rw [List.dropWhile_cons, if_pos (beq_iff_eq.mpr first)]
    exact ih (by omega)

theorem shrinks {num : Bytes} (some_ : num ≠ []) : value ((divide 0 num).1.dropWhile (· == 0)) +
    ((divide 0 num).1.dropWhile (· == 0)).length < value num + num.length := by
  obtain ⟨length, -, -⟩ := divide_spec num (by decide : 0 < 58)
  obtain ⟨quotient, -⟩ := divide_zero num
  have shorter := (List.dropWhile_sublist (· == (0 : UInt8)) (l := (divide 0 num).1)).length_le
  rw [value_dropWhile, quotient]
  by_cases zero : value num = 0
  · have none : value (divide 0 num).1 = 0 := by rw [quotient, zero]
    have room := List.length_pos_iff.mpr some_
    rw [dropWhile_of_value_zero none, zero, List.length_nil]
    omega
  · omega

def digits (num : Bytes) : Bytes :=
  if _ : num ≠ [] then
    let quotient := divide 0 num
    symbol quotient.2 :: digits (quotient.1.dropWhile (· == 0))
  else []
termination_by value num + num.length
decreasing_by exact shrinks (by assumption)

def encode (data : Bytes) : Bytes :=
  let zeros := (data.takeWhile (· == 0)).length
  let num := data.drop zeros
  if num = [] then List.replicate zeros (ch '1')
  else List.replicate zeros (ch '1') ++ (digits num).reverse

theorem digits_eq {num : Bytes} (first : num.head? ≠ some 0) : digits num = ((digitsOf 58 (value num)).map symbol).reverse := by
  induction num using digits.induct with
  | case1 num some_ _ ih =>
    obtain ⟨quotient, left⟩ := divide_zero num
    have pos : 0 < value num := by
      apply Nat.pos_of_ne_zero
      intro zero
      obtain ⟨b, tail, rfl⟩ := List.exists_cons_of_ne_nil some_
      have dropped := dropWhile_of_value_zero zero
      rw [List.dropWhile_cons, if_neg (fun same => first (congrArg some (beq_iff_eq.mp same)))] at dropped
      exact some_ dropped
    have next := ih (head?_dropWhile (divide 0 num).1)
    rw [digits, dif_pos some_]
    dsimp only
    rw [next, value_dropWhile, quotient, left, digitsOf_pos (by decide : 1 < 58) pos, List.map_append, List.reverse_append]
    rfl
  | case2 num none =>
    rw [digits, dif_neg none, not_ne_iff.mp none]
    rfl

theorem encode_replicate (zeros : Nat) {num : Bytes} (first : num.head? ≠ some 0) :
    encode (List.replicate zeros 0 ++ num) = List.replicate zeros (ch '1') ++ (digitsOf 58 (value num)).map symbol := by
  have count : ((List.replicate zeros 0 ++ num).takeWhile (· == (0 : UInt8))).length = zeros := by
    rw [takeWhile_replicate_append zeros first, List.length_replicate]
  unfold encode
  dsimp only
  rw [count, List.drop_left' List.length_replicate]
  split_ifs with none
  · rw [none]
    exact (List.append_nil _).symm
  · rw [digits_eq first, List.reverse_reverse]

/-! ### Reading -/

theorem idxOf?_symbol {d : Nat} (small : d < 58) : alphabet.idxOf? (symbol d) = some d := by
  have all : ∀ d < 58, alphabet.idxOf? (symbol d) = some d := by decide
  exact all d small

theorem symbol_of_idxOf? {c : UInt8} {d : Nat} (found : alphabet.idxOf? c = some d) : d < 58 ∧ c = symbol d := by
  obtain ⟨inside, same, -⟩ := List.idxOf?_eq_some_iff.mp found
  refine ⟨inside, ?_⟩
  rw [symbol, List.getD_eq_getElem _ _ inside]
  exact same.symm

theorem mulAdd_spec (num : List Nat) {carry : Nat} (bytes : ∀ b ∈ num, b < 256) (digit : carry < 58) :
    ∃ more out, mulAdd num carry = .ok (more, out) ∧ more.length = num.length ∧ (∀ b ∈ more, b < 256) ∧ out < 58 ∧
      58 * Nat.ofDigits 256 num + carry = Nat.ofDigits 256 more + 256 ^ num.length * out := by
  induction num generalizing carry with
  | nil => exact ⟨[], carry, rfl, rfl, bytes, digit, by simp⟩
  | cons b tail ih =>
    have byte := bytes b List.mem_cons_self
    have shifted : (b * 58 + carry) >>> 8 = (b * 58 + carry) / 256 := Nat.shiftRight_eq_div_pow _ 8
    have masked : (b * 58 + carry) &&& 0xff = (b * 58 + carry) % 256 := Nat.and_two_pow_sub_one_eq_mod _ 8
    have next : (b * 58 + carry) / 256 < 58 := by omega
    obtain ⟨more, out, rest, length, small, spill, equal⟩ := ih (fun c member => bytes c (List.mem_cons_of_mem b member)) next
    refine ⟨(b * 58 + carry) % 256 :: more, out, ?_, congrArg Nat.succ length, ?_, spill, ?_⟩
    · rw [mulAdd, mul32_ok (by omega)]
      show (add32 (b * 58) carry >>= fun cur => _) = _
      rw [add32_ok (by omega)]
      show (mulAdd tail ((b * 58 + carry) >>> 8) >>= fun r => _) = _
      rw [shifted, rest, ← masked]
      rfl
    · exact List.forall_mem_cons.mpr ⟨Nat.mod_lt _ (by decide), small⟩
    · rw [Nat.ofDigits_cons, Nat.ofDigits_cons, List.length_cons]
      calc 58 * (b + 256 * Nat.ofDigits 256 tail) + carry
          = (b * 58 + carry) + 256 * (58 * Nat.ofDigits 256 tail) := by ring
        _ = ((b * 58 + carry) % 256 + 256 * ((b * 58 + carry) / 256)) + 256 * (58 * Nat.ofDigits 256 tail) := by
            rw [Nat.mod_add_div]
        _ = (b * 58 + carry) % 256 + 256 * (58 * Nat.ofDigits 256 tail + (b * 58 + carry) / 256) := by ring
        _ = _ := by
            rw [equal]
            ring

theorem carryBytes_eq {carry : Nat} (digit : carry < 58) : carryBytes 4 carry = if carry = 0 then [] else [carry] := by
  have all : ∀ carry < 58, carryBytes 4 carry = if carry = 0 then [] else [carry] := by decide
  exact all carry digit

theorem eq_digits {l : List Nat} (bytes : ∀ b ∈ l, b < 256) (needed : l.length ≤ (Nat.digits 256 (Nat.ofDigits 256 l)).length) :
    l = Nat.digits 256 (Nat.ofDigits 256 l) := by
  apply Nat.ofDigits_inj_of_len_eq (by decide : 1 < 256) _ bytes (fun d member => Nat.digits_lt_base (by decide) member)
  · exact (Nat.ofDigits_digits 256 _).symm
  · apply le_antisymm needed
    exact Nat.digits_length_le_iff (by decide) _ |>.mpr (Nat.ofDigits_lt_base_pow_length (by decide) bytes)

theorem mulAdd_digits {n d : Nat} (small : d < 58) : ∃ more out,
    mulAdd (Nat.digits 256 n) d = .ok (more, out) ∧ more ++ carryBytes 4 out = Nat.digits 256 (58 * n + d) := by
  have bytes : ∀ b ∈ Nat.digits 256 n, b < 256 := fun b member => Nat.digits_lt_base (by decide) member
  obtain ⟨more, out, added, length, fits, spill, equal⟩ := mulAdd_spec (Nat.digits 256 n) bytes small
  rw [Nat.ofDigits_digits] at equal
  refine ⟨more, out, added, ?_⟩
  rw [carryBytes_eq spill]
  by_cases none : out = 0
  · rw [none, Nat.mul_zero, Nat.add_zero] at equal
    rw [if_pos none, List.append_nil, equal]
    apply eq_digits fits
    rw [length, ← equal]
    exact Nat.le_length_digits_le 256 n (58 * n + d) (by omega)
  · have value : Nat.ofDigits 256 (more ++ [out]) = 58 * n + d := by
      rw [Nat.ofDigits_append, Nat.ofDigits_singleton, length, equal]
    have all : ∀ b ∈ more ++ [out], b < 256 := by
      intro b member
      rcases List.mem_append.mp member with old | carried
      · exact fits b old
      · rw [List.mem_singleton.mp carried]
        omega
    rw [if_neg none, ← value]
    apply eq_digits all
    rw [value, List.length_append, List.length_singleton, length]
    apply (Nat.lt_digits_length_iff (by decide) _).mpr
    calc 256 ^ (Nat.digits 256 n).length ≤ 256 ^ (Nat.digits 256 n).length * out := Nat.le_mul_of_pos_right _ (by omega)
      _ ≤ 58 * n + d := by
          rw [equal]
          exact Nat.le_add_left _ _

theorem decodeBody_digits (ds : List Nat) (n : Nat) (small : ∀ d ∈ ds, d < 58) :
    decodeBody (ds.map symbol) (Nat.digits 256 n) = .ok (some (Nat.digits 256 (n * 58 ^ ds.length + number 58 ds))) := by
  induction ds generalizing n with
  | nil =>
    rw [List.length_nil, Nat.pow_zero, Nat.mul_one]
    rfl
  | cons d tail ih =>
    have digit := small d List.mem_cons_self
    obtain ⟨more, out, added, now⟩ := mulAdd_digits (n := n) digit
    rw [List.map_cons, decodeBody, idxOf?_symbol digit]
    dsimp only
    rw [added]
    show decodeBody (tail.map symbol) (more ++ carryBytes 4 out) = _
    rw [now, ih (58 * n + d) (fun e member => small e (List.mem_cons_of_mem d member)), number_cons, List.length_cons]
    have same : (58 * n + d) * 58 ^ tail.length + number 58 tail =
        n * 58 ^ (tail.length + 1) + (d * 58 ^ tail.length + number 58 tail) := by
      rw [Nat.pow_succ]
      ring
    rw [same]

theorem decodeBody_number {ds : List Nat} (some_ : ds ≠ []) (first : ds.head? ≠ some 0) (small : ∀ d ∈ ds, d < 58) :
    decodeBody (ds.map symbol) [0] = .ok (some (Nat.digits 256 (number 58 ds))) := by
  cases ds with
  | nil => exact absurd rfl some_
  | cons d tail =>
    have digit := small d List.mem_cons_self
    have pos : 0 < d := Nat.pos_of_ne_zero fun zero => first (congrArg some zero)
    have single : mulAdd [0] d = .ok ([d], 0) := by
      have all : ∀ d < 58, mulAdd [0] d = .ok ([d], 0) := by decide
      exact all d digit
    have alone : [d] = Nat.digits 256 d := (Nat.digits_of_lt 256 d pos.ne' (by omega)).symm
    rw [List.map_cons, decodeBody, idxOf?_symbol digit]
    dsimp only
    rw [single]
    show decodeBody (tail.map symbol) [d] = _
    rw [alone, decodeBody_digits tail d (fun e member => small e (List.mem_cons_of_mem d member)), number_cons]

theorem decode_replicate (zeros : Nat) {ds : List Nat} (first : ds.head? ≠ some 0) (small : ∀ d ∈ ds, d < 58) :
    decode (List.replicate zeros (ch '1') ++ ds.map symbol) =
      .ok (some (List.replicate zeros 0 ++ (digitsOf 256 (number 58 ds)).map Nat.toUInt8)) := by
  have other : (ds.map symbol).head? ≠ some (ch '1') := by
    cases ds with
    | nil => exact (some_ne_none _).symm
    | cons d tail =>
      have all : ∀ d < 58, symbol d = ch '1' → d = 0 := by decide
      intro one
      exact first (congrArg some (all d (small d List.mem_cons_self) (some.inj one)))
  have count : ((List.replicate zeros (ch '1') ++ ds.map symbol).takeWhile (· == ch '1')).length = zeros := by
    rw [takeWhile_replicate_append zeros other, List.length_replicate]
  unfold decode
  dsimp only
  rw [count, List.drop_left' List.length_replicate]
  split_ifs with none
  · rw [List.map_eq_nil_iff.mp none]
    show _ = Except.ok (some (List.replicate zeros 0 ++ List.map Nat.toUInt8 (digitsOf 256 0)))
    rw [digitsOf, Nat.digits_zero]
    exact congrArg (fun l => Except.ok (some l)) (List.append_nil _).symm
  · rw [decodeBody_number (fun empty => none (by rw [empty]; rfl)) first small]
    show Except.ok (some (List.replicate zeros 0 ++ (Nat.digits 256 (number 58 ds)).reverse.map Nat.toUInt8)) = _
    rfl

theorem digits_of_decodeBody {body : Bytes} {num r : List Nat} (accepted : decodeBody body num = .ok (some r)) :
    ∃ ds : List Nat, body = ds.map symbol ∧ ∀ d ∈ ds, d < 58 := by
  induction body generalizing num with
  | nil => exact ⟨[], rfl, fun d member => absurd member List.not_mem_nil⟩
  | cons c tail ih =>
    rw [decodeBody] at accepted
    cases found : alphabet.idxOf? c with
    | none =>
      rw [found] at accepted
      cases accepted
    | some d =>
      obtain ⟨digit, same⟩ := symbol_of_idxOf? found
      rw [found] at accepted
      dsimp only at accepted
      cases added : mulAdd num d with
      | error e =>
        rw [added] at accepted
        cases accepted
      | ok p =>
        rw [added] at accepted
        obtain ⟨ds, all, small⟩ := ih accepted
        refine ⟨d :: ds, ?_, List.forall_mem_cons.mpr ⟨digit, small⟩⟩
        rw [same, all, List.map_cons]

theorem digits_of_decode {zeros : Nat} {body bs : Bytes} (first : body.head? ≠ some (ch '1'))
    (accepted : decode (List.replicate zeros (ch '1') ++ body) = .ok (some bs)) :
    ∃ ds : List Nat, body = ds.map symbol ∧ ∀ d ∈ ds, d < 58 := by
  have count : ((List.replicate zeros (ch '1') ++ body).takeWhile (· == ch '1')).length = zeros := by
    rw [takeWhile_replicate_append zeros first, List.length_replicate]
  unfold decode at accepted
  dsimp only at accepted
  rw [count, List.drop_left' List.length_replicate] at accepted
  split_ifs at accepted with none
  · exact ⟨[], none, fun d member => absurd member List.not_mem_nil⟩
  · cases decoded : decodeBody body [0] with
    | error e =>
      rw [decoded] at accepted
      cases accepted
    | ok r =>
      rw [decoded] at accepted
      cases r with
      | none => cases accepted
      | some num => exact digits_of_decodeBody decoded

/-! ### Inverses -/

theorem map_toUInt8_toNat (bs : Bytes) : (bs.map UInt8.toNat).map Nat.toUInt8 = bs := by
  rw [List.map_map]
  exact List.map_id'' (fun b => UInt8.ofNat_toNat) bs

theorem decode_encode (bs : Bytes) : decode (encode bs) = .ok (some bs) := by
  obtain ⟨zeros, num, rfl, first⟩ := exists_replicate_append 0 bs
  have start : (num.map UInt8.toNat).head? ≠ some 0 := by
    cases num with
    | nil => exact (some_ne_none _).symm
    | cons b tail =>
      intro zero
      exact first (congrArg some (UInt8.toNat_inj.mp (some.inj zero)))
  rw [encode_replicate zeros first, decode_replicate zeros (head?_digitsOf 58 _) (digitsOf_lt (by decide)), number_digitsOf,
    value, digitsOf_number (by decide) toNat_lt_of_mem_map start, map_toUInt8_toNat]

theorem encode_decode {s bs : Bytes} (accepted : decode s = .ok (some bs)) : encode bs = s := by
  obtain ⟨zeros, body, rfl, first⟩ := exists_replicate_append (ch '1') s
  obtain ⟨ds, rfl, small⟩ := digits_of_decode first accepted
  have start : ds.head? ≠ some 0 := by
    cases ds with
    | nil => exact (some_ne_none _).symm
    | cons d tail =>
      intro zero
      apply first
      rw [some.inj zero]
      rfl
  rw [decode_replicate zeros start small] at accepted
  obtain rfl := some.inj (Except.ok.inj accepted)
  have bytes : ((digitsOf 256 (number 58 ds)).map Nat.toUInt8).map UInt8.toNat = digitsOf 256 (number 58 ds) := by
    rw [List.map_map]
    calc (digitsOf 256 (number 58 ds)).map (UInt8.toNat ∘ Nat.toUInt8)
        = (digitsOf 256 (number 58 ds)).map id := by
          apply List.map_congr_left
          intro d member
          exact Nat.mod_eq_of_lt (digitsOf_lt (by decide) d member)
      _ = digitsOf 256 (number 58 ds) := List.map_id _
  have lead : ((digitsOf 256 (number 58 ds)).map Nat.toUInt8).head? ≠ some 0 := by
    intro zero
    have head : (((digitsOf 256 (number 58 ds)).map Nat.toUInt8).map UInt8.toNat).head? = some 0 := by
      rw [List.head?_map, zero]
      rfl
    rw [bytes] at head
    exact head?_digitsOf 256 _ head
  rw [encode_replicate zeros lead, value, bytes, number_digitsOf, digitsOf_number (by decide) small start]

end Base58
end TypeBit.Link
