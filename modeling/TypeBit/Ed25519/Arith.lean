import Mathlib.FieldTheory.Finite.Basic
import TypeBit.Lib.Pratt
import TypeBit.Lib.Returns
import TypeBit.Ed25519.Field

/-! What the field operations compute: canonical elements, and without an overflow. The operations are followed for all carried
inputs, since a decoded element need not be below the modulus. -/

namespace TypeBit.Ed25519
open LittleEndian

def p : Nat := 2 ^ 255 - 19

def certificate : List Pratt.Entry :=
  [⟨p, 2, [2, 2, 3, 65147, 74058212732561358302231226437062788676166966415465897661863160754340907]⟩,
    ⟨74058212732561358302231226437062788676166966415465897661863160754340907, 2,
      [2, 3, 353, 57467, 132049, 1923133, 31757755568855353, 75445702479781427272750846543864801]⟩,
    ⟨75445702479781427272750846543864801, 7, [2, 2, 2, 2, 2, 3, 3, 5, 5, 75707, 72106336199, 1919519569386763]⟩,
    ⟨31757755568855353, 10, [2, 2, 2, 3, 31, 107, 223, 4153, 430751]⟩,
    ⟨1919519569386763, 2, [2, 3, 7, 19, 47, 47, 127, 8574133]⟩,
    ⟨72106336199, 7, [2, 13, 2773320623]⟩,
    ⟨2773320623, 5, [2, 2437, 569003]⟩]

def smallFactors : List Nat :=
  [2, 3, 5, 7, 13, 19, 31, 47, 107, 127, 223, 353, 2437, 4153, 57467, 65147, 75707, 132049, 430751, 569003, 1923133, 8574133]

theorem p_prime : p.Prime := by
  have small : ∀ q ∈ smallFactors, q.Prime := by norm_num [smallFactors]
  have passes : Pratt.certifies 256 smallFactors certificate = true := by decide +kernel
  exact Pratt.prime_of_certifies small passes ⟨p, _, _⟩ List.mem_cons_self

instance : Fact p.Prime := ⟨p_prime⟩

/-! ### Elements -/

/-- Five limbs, none of them with anything to carry. -/
def Carried (l : List Nat) : Prop := l.length = 5 ∧ ∀ x ∈ l, x < 2 ^ 51

variable {l t : List Nat}

theorem Carried.limbs (carried : Carried l) : ∃ l0 l1 l2 l3 l4, l = [l0, l1, l2, l3, l4] ∧
    l0 < 2 ^ 51 ∧ l1 < 2 ^ 51 ∧ l2 < 2 ^ 51 ∧ l3 < 2 ^ 51 ∧ l4 < 2 ^ 51 := by
  obtain ⟨length, small⟩ := carried
  match l, length with
  | [l0, l1, l2, l3, l4], _ =>
    simp only [List.forall_mem_cons] at small
    exact ⟨l0, l1, l2, l3, l4, rfl, small.1, small.2.1, small.2.2.1, small.2.2.2.1, small.2.2.2.2.1⟩

theorem carried_five {l0 l1 l2 l3 l4 : Nat} (h0 : l0 < 2 ^ 51) (h1 : l1 < 2 ^ 51) (h2 : l2 < 2 ^ 51) (h3 : l3 < 2 ^ 51)
    (h4 : l4 < 2 ^ 51) : Carried [l0, l1, l2, l3, l4] := by
  refine ⟨rfl, ?_⟩
  simp only [List.forall_mem_cons]
  exact ⟨h0, h1, h2, h3, h4, fun x member => absurd member List.not_mem_nil⟩

namespace Fe

def value (a : Fe) : Nat := Nat.ofDigits (2 ^ 51) a.limbs

def toField (a : Fe) : ZMod p := (a.value : ZMod p)

/-- Carried and reduced. -/
structure Canonical (a : Fe) : Prop where
  carried : Carried a.limbs
  reduced : a.value < p

theorem value_five (l0 l1 l2 l3 l4 : Nat) :
    (Fe.mk [l0, l1, l2, l3, l4]).value = l0 + 2 ^ 51 * (l1 + 2 ^ 51 * (l2 + 2 ^ 51 * (l3 + 2 ^ 51 * l4))) := by
  simp only [value, Nat.ofDigits_cons, Nat.ofDigits_nil, Nat.mul_zero, Nat.add_zero]

theorem value_lt {a : Fe} (carried : Carried a.limbs) : a.value < 2 ^ 255 := by
  have below := Nat.ofDigits_lt_base_pow_length (by norm_num) carried.2
  rw [carried.1, ← pow_mul] at below
  exact below

theorem Canonical.ext {a b : Fe} (first : a.Canonical) (second : b.Canonical) (same : a.toField = b.toField) : a = b := by
  have values : a.value = b.value := by
    have modulo := (ZMod.natCast_eq_natCast_iff' a.value b.value p).mp same
    rwa [Nat.mod_eq_of_lt first.reduced, Nat.mod_eq_of_lt second.reduced] at modulo
  have limbs : a.limbs = b.limbs :=
    Nat.ofDigits_inj_of_len_eq (by norm_num) (first.carried.1.trans second.carried.1.symm) first.carried.2 second.carried.2 values
  cases a
  cases b
  exact congrArg Fe.mk limbs

end Fe

/-! ### The last subtraction -/

variable {a : Fe}

theorem geP_iff (carried : Carried a.limbs) : geP a = true ↔ p ≤ a.value := by
  have modulus : Radix.number (2 ^ 51) P.reverse = p := by decide
  have entries : ∀ y ∈ P.reverse, y < 2 ^ 51 := by decide
  rw [geP, Limbs.ge_iff (by norm_num) (by rw [List.length_reverse, carried.1]; rfl) (fun x member =>
    carried.2 x (List.mem_reverse.mp member)) entries, modulus, ← Limbs.ofDigits_eq_number]
  rfl

theorem condSubP_spec (carried : Carried a.limbs) : (condSubP a).Canonical ∧ (condSubP a).toField = a.toField := by
  by_cases le : p ≤ a.value
  · have reduced : ∃ l0, condSubP a = ⟨[l0, 0, 0, 0, 0]⟩ ∧ l0 < 19 ∧ a.value = l0 + p := by
      have ge := (geP_iff carried).mpr le
      obtain ⟨limbs⟩ := a
      obtain ⟨l0, l1, l2, l3, l4, rfl, h0, h1, h2, h3, h4⟩ := carried.limbs
      rw [Fe.value_five] at le ⊢
      rw [p] at le ⊢
      -- only the lowest limb is not the largest one can be, and so no limb borrows
      obtain rfl : l4 = 2 ^ 51 - 1 := by omega
      obtain rfl : l3 = 2 ^ 51 - 1 := by omega
      obtain rfl : l2 = 2 ^ 51 - 1 := by omega
      obtain rfl : l1 = 2 ^ 51 - 1 := by omega
      have low : 2 ^ 51 - 19 ≤ l0 := by omega
      have each : List.Forall₂ (· ≤ ·) P [l0, 2 ^ 51 - 1, 2 ^ 51 - 1, 2 ^ 51 - 1, 2 ^ 51 - 1] :=
        .cons low (.cons le_rfl (.cons le_rfl (.cons le_rfl (.cons le_rfl .nil))))
      have words : ∀ x ∈ [l0, 2 ^ 51 - 1, 2 ^ 51 - 1, 2 ^ 51 - 1, 2 ^ 51 - 1], x < 2 ^ 64 := fun x member =>
        lt_trans (carried.2 x member) (by norm_num)
      refine ⟨l0 - (2 ^ 51 - 19), ?_, by omega, by omega⟩
      rw [condSubP, if_pos ge, Limbs.sub_of_le words each]
      rfl
    obtain ⟨l0, same, small, value⟩ := reduced
    have result : (condSubP a).value = l0 := by
      rw [same, Fe.value_five]
      omega
    refine ⟨⟨?_, ?_⟩, ?_⟩
    · rw [same]
      exact carried_five (by omega) (by norm_num) (by norm_num) (by norm_num) (by norm_num)
    · rw [result, p]
      omega
    · rw [Fe.toField, Fe.toField, result, value, Nat.cast_add, ZMod.natCast_self, add_zero]
  · have same : condSubP a = a := by rw [condSubP, if_neg (mt (geP_iff carried).mp le)]
    rw [same]
    exact ⟨⟨carried, Nat.lt_of_not_le le⟩, rfl⟩

/-! ### Carries -/

theorem i128_ok {n : Int} (low : -2 ^ 60 ≤ n) (high : n ≤ 2 ^ 60) : i128 n = .ok n :=
  if_pos ⟨by omega, by omega⟩

theorem keep {n : Int} : ((n % 2 ^ 51).toNat : Int) + 2 ^ 51 * (n / 2 ^ 51) = n ∧ (n % 2 ^ 51).toNat < 2 ^ 51 := by
  omega

def signed (ts : List Int) : Int := ts.foldr (fun t rest => t + 2 ^ 51 * rest) 0

@[simp] theorem signed_nil : signed [] = 0 := rfl

@[simp] theorem signed_cons (t : Int) (ts : List Int) : signed (t :: ts) = t + 2 ^ 51 * signed ts := rfl

theorem carry_spec {ts : List Int} {c : Int} (small : ∀ t ∈ ts, -2 ^ 52 ≤ t ∧ t ≤ 2 ^ 52) (first : -3 ≤ c ∧ c ≤ 3) :
    Returns (carry ts c) fun r => r.1.length = ts.length ∧ (∀ x ∈ r.1, x < 2 ^ 51) ∧
      ((Nat.ofDigits (2 ^ 51) r.1 : Nat) : Int) + (2 ^ 51) ^ ts.length * r.2 = signed ts + c := by
  induction ts generalizing c with
  | nil =>
    refine .ok ⟨rfl, fun x member => absurd member List.not_mem_nil, ?_⟩
    simp
  | cons t ts ih =>
    obtain ⟨⟨low, high⟩, rest⟩ := List.forall_mem_cons.mp small
    rw [carry, i128_ok (by omega) (by omega)]
    apply (ih rest (c := (t + c) / 2 ^ 51) (by omega)).bind
    intro r ⟨length, limbs, value⟩
    obtain ⟨kept, limb⟩ := @keep (t + c)
    refine .ret ⟨congrArg Nat.succ length, List.forall_mem_cons.mpr ⟨limb, limbs⟩, ?_⟩
    dsimp only
    rw [Nat.ofDigits_cons, signed_cons, List.length_cons, Nat.cast_add, Nat.cast_mul, Nat.cast_pow, Nat.cast_ofNat]
    linear_combination kept + 2 ^ 51 * value

theorem ripple_spec {ls : List Nat} {c : Int} (small : ∀ l ∈ ls, l < 2 ^ 51) (first : -3 ≤ c ∧ c ≤ 3) :
    Returns (ripple ls c) fun r => r.1.length = ls.length ∧ (∀ x ∈ r.1, x < 2 ^ 51) ∧
      ((Nat.ofDigits (2 ^ 51) r.1 : Nat) : Int) + (2 ^ 51) ^ ls.length * r.2 = (Nat.ofDigits (2 ^ 51) ls : Nat) + c := by
  induction ls generalizing c with
  | nil =>
    refine .ok ⟨rfl, fun x member => absurd member List.not_mem_nil, ?_⟩
    simp
  | cons l ls ih =>
    obtain ⟨limb, rest⟩ := List.forall_mem_cons.mp small
    rw [ripple]
    by_cases zero : c = 0
    · rw [if_pos zero, zero]
      exact .ok ⟨rfl, small, by rw [mul_zero]⟩
    · rw [if_neg zero, i128_ok (by omega) (by omega)]
      apply (ih rest (c := (l + c) / 2 ^ 51) (by omega)).bind
      intro r ⟨length, limbs, value⟩
      obtain ⟨kept, kept_limb⟩ := @keep (l + c)
      refine .ret ⟨congrArg Nat.succ length, List.forall_mem_cons.mpr ⟨kept_limb, limbs⟩, ?_⟩
      dsimp only
      rw [Nat.ofDigits_cons, Nat.ofDigits_cons, List.length_cons, Nat.cast_add, Nat.cast_mul, Nat.cast_pow, Nat.cast_ofNat,
        Nat.cast_add, Nat.cast_mul, Nat.cast_pow, Nat.cast_ofNat]
      linear_combination kept + 2 ^ 51 * value

theorem toField_eq_of_sub {v : Int} (k : Int) (value : (a.value : Int) = v - k * p) : a.toField = (v : ZMod p) := by
  rw [Fe.toField, ← Int.cast_natCast, value, Int.cast_sub, Int.cast_mul, Int.cast_natCast, ZMod.natCast_self, mul_zero, sub_zero]

theorem normalize_spec {t : List Int} (length : t.length = 5) (small : ∀ x ∈ t, -2 ^ 52 ≤ x ∧ x ≤ 2 ^ 52)
    (low : -18 ≤ signed t) (high : signed t < 2 ^ 256) :
    Returns (normalize t) fun r => Carried r.limbs ∧ r.toField = (signed t : ZMod p) := by
  have start := carry_spec small (c := 0) (by norm_num)
  apply start.bind
  intro ⟨out, c⟩ ⟨lengths, limbs, value⟩
  obtain ⟨l0, l1, l2, l3, l4, rfl, h0, h1, h2, h3, h4⟩ := Carried.limbs ⟨lengths.trans length, limbs⟩
  generalize signed t = v at *
  rw [length] at value
  simp only [Nat.ofDigits_cons, Nat.ofDigits_nil] at value
  push_cast at value
  have carried : -1 ≤ c ∧ c ≤ 1 := by omega
  simp only [List.getD_cons_zero, List.getD_cons_succ, List.drop_succ_cons, List.drop_zero]
  rw [i128_ok (by omega) (by omega)]
  refine .bind (.ok rfl) ?_
  rintro extra rfl
  rw [i128_ok (by omega) (by omega)]
  refine .bind (.ok rfl) ?_
  rintro cur rfl
  obtain ⟨kept0, limb0⟩ := @keep (l0 + 19 * c)
  generalize ((l0 : Int) + 19 * c) / 2 ^ 51 = c1 at *
  generalize (((l0 : Int) + 19 * c) % 2 ^ 51).toNat = r0 at *
  rw [i128_ok (by omega) (by omega)]
  refine .bind (.ok rfl) ?_
  rintro cur1 rfl
  obtain ⟨kept1, limb1⟩ := @keep (l1 + c1)
  generalize ((l1 : Int) + c1) / 2 ^ 51 = c2 at *
  generalize (((l1 : Int) + c1) % 2 ^ 51).toNat = r1 at *
  have rest : ∀ l ∈ [l2, l3, l4], l < 2 ^ 51 := by
    simp only [List.forall_mem_cons]
    exact ⟨h2, h3, h4, fun x member => absurd member List.not_mem_nil⟩
  apply (ripple_spec rest (c := c2) (by omega)).bind
  intro ⟨top, c5⟩ ⟨lengths', limbs', value'⟩
  obtain ⟨r2, r3, r4, rfl⟩ : ∃ r2 r3 r4, top = [r2, r3, r4] := List.length_eq_three.mp lengths'
  simp only [List.forall_mem_cons] at limbs'
  obtain ⟨limb2, limb3, limb4, -⟩ := limbs'
  simp only [Nat.ofDigits_cons, Nat.ofDigits_nil] at value'
  push_cast at value'
  simp only [List.length_cons, List.length_nil] at value'
  -- at most one multiple of `2^255` is left, and then what else there is is small
  have top_carry : c5 = 0 ∨ c5 = 1 ∧ c = 1 := by omega
  rcases top_carry with rfl | ⟨rfl, rfl⟩
  · refine .ret ⟨carried_five limb0 limb1 limb2 limb3 limb4, toField_eq_of_sub c ?_⟩
    rw [Fe.value_five, p]
    push_cast
    omega
  · have small0 : (r0 : Int) + 19 * 1 < 2 ^ 51 := by omega
    rw [if_neg one_ne_zero, i128_ok (by omega) (by omega)]
    refine .bind (.ok rfl) ?_
    rintro cur0 rfl
    rw [Int.ediv_eq_zero_of_lt (by omega) small0, Int.emod_eq_of_lt (by omega) small0, if_pos rfl]
    refine .ret ⟨carried_five (by omega) limb1 limb2 limb3 limb4, toField_eq_of_sub 2 ?_⟩
    rw [Fe.value_five, p]
    push_cast
    omega

/-! ### Sums, differences and negatives -/

namespace Fe

theorem add_spec {a b : Fe} (first : Carried a.limbs) (second : Carried b.limbs) :
    Returns (add a b) fun r => r.Canonical ∧ r.toField = a.toField + b.toField := by
  have value : ((a.value + b.value : Int) : ZMod p) = a.toField + b.toField := by
    rw [Int.cast_add, Int.cast_natCast, Int.cast_natCast]
    rfl
  have below := value_lt first
  have below' := value_lt second
  obtain ⟨as⟩ := a
  obtain ⟨bs⟩ := b
  obtain ⟨a0, a1, a2, a3, a4, rfl, ha0, ha1, ha2, ha3, ha4⟩ := first.limbs
  obtain ⟨b0, b1, b2, b3, b4, rfl, hb0, hb1, hb2, hb3, hb4⟩ := second.limbs
  have each : ∀ x ∈ [a0, a1, a2, a3, a4].zip [b0, b1, b2, b3, b4], i128 (x.1 + x.2) = .ok ((x.1 : Int) + x.2) := by
    intro x member
    obtain ⟨left, right⟩ := List.of_mem_zip member
    have small := first.2 x.1 left
    have small' := second.2 x.2 right
    exact i128_ok (by omega) (by omega)
  apply (Returns.mapM _ each).bind
  rintro t rfl
  have sum : signed (([a0, a1, a2, a3, a4].zip [b0, b1, b2, b3, b4]).map fun x => (x.1 : Int) + x.2) =
      ((Fe.mk [a0, a1, a2, a3, a4]).value + (Fe.mk [b0, b1, b2, b3, b4]).value : Int) := by
    simp only [List.zip_cons_cons, List.zip_nil_right, List.map_cons, List.map_nil, signed_cons, signed_nil, value_five]
    push_cast
    ring
  apply (normalize_spec rfl _ (by omega) (by omega)).bind
  · intro r ⟨carried, same⟩
    obtain ⟨canonical, kept⟩ := condSubP_spec carried
    refine .ret ⟨canonical, ?_⟩
    rw [kept, same, sum, value]
  · simp only [List.zip_cons_cons, List.zip_nil_right, List.map_cons, List.map_nil, List.forall_mem_cons]
    refine ⟨?_, ?_, ?_, ?_, ?_, fun x member => absurd member List.not_mem_nil⟩ <;> omega

theorem sub_spec {a b : Fe} (first : Carried a.limbs) (second : Carried b.limbs) :
    Returns (sub a b) fun r => r.Canonical ∧ r.toField = a.toField - b.toField := by
  have value : ((a.value + p - b.value : Int) : ZMod p) = a.toField - b.toField := by
    rw [Int.cast_sub, Int.cast_add, Int.cast_natCast, Int.cast_natCast, Int.cast_natCast, ZMod.natCast_self, add_zero]
    rfl
  have below := value_lt first
  have below' := value_lt second
  obtain ⟨as⟩ := a
  obtain ⟨bs⟩ := b
  obtain ⟨a0, a1, a2, a3, a4, rfl, ha0, ha1, ha2, ha3, ha4⟩ := first.limbs
  obtain ⟨b0, b1, b2, b3, b4, rfl, hb0, hb1, hb2, hb3, hb4⟩ := second.limbs
  have each : ∀ x ∈ [a0, a1, a2, a3, a4].zip (P.zip [b0, b1, b2, b3, b4]),
      (do let sum ← i128 (x.1 + x.2.1); i128 (sum - x.2.2)) = .ok ((x.1 : Int) + x.2.1 - x.2.2) := by
    intro x member
    obtain ⟨left, rest⟩ := List.of_mem_zip member
    obtain ⟨middle, right⟩ := List.of_mem_zip rest
    have entries : ∀ y ∈ P, y < 2 ^ 51 := by decide
    have small := first.2 x.1 left
    have small' := entries x.2.1 middle
    have small'' := second.2 x.2.2 right
    rw [i128_ok (by omega) (by omega)]
    exact i128_ok (by omega) (by omega)
  apply (Returns.mapM _ each).bind
  rintro t rfl
  have sum : signed (([a0, a1, a2, a3, a4].zip (P.zip [b0, b1, b2, b3, b4])).map fun x => (x.1 : Int) + x.2.1 - x.2.2) =
      ((Fe.mk [a0, a1, a2, a3, a4]).value + p - (Fe.mk [b0, b1, b2, b3, b4]).value : Int) := by
    simp only [P, p, List.zip_cons_cons, List.zip_nil_right, List.map_cons, List.map_nil, signed_cons, signed_nil, value_five]
    push_cast
    ring
  have modulus : (p : Int) = 2 ^ 255 - 19 := by norm_num [p]
  apply (normalize_spec rfl _ (by omega) (by omega)).bind
  · intro r ⟨carried, same⟩
    obtain ⟨canonical, kept⟩ := condSubP_spec carried
    refine .ret ⟨canonical, ?_⟩
    rw [kept, same, sum, value]
  · simp only [P, List.zip_cons_cons, List.zip_nil_right, List.map_cons, List.map_nil, List.forall_mem_cons]
    refine ⟨?_, ?_, ?_, ?_, ?_, fun x member => absurd member List.not_mem_nil⟩ <;> omega

theorem zero_carried : Carried ZERO.limbs := ⟨rfl, by decide⟩

theorem one_carried : Carried ONE.limbs := ⟨rfl, by decide⟩

@[simp] theorem toField_zero : ZERO.toField = 0 := Nat.cast_zero

@[simp] theorem toField_one : ONE.toField = 1 := Nat.cast_one

theorem neg_spec {a : Fe} (carried : Carried a.limbs) : Returns (neg a) fun r => r.Canonical ∧ r.toField = -a.toField := by
  apply (sub_spec zero_carried carried).mono
  intro r ⟨canonical, same⟩
  refine ⟨canonical, ?_⟩
  rw [same, toField_zero, zero_sub]

end Fe

/-! ### Products -/

theorem getD_le {m : Nat} (room : ∀ e ∈ l, e ≤ m) (k : Nat) : l.getD k 0 ≤ m := by
  by_cases inside : k < l.length
  · rw [List.getD_eq_getElem _ _ inside]
    exact room _ (List.getElem_mem inside)
  · rw [List.getD_eq_default _ _ (Nat.le_of_not_lt inside)]
    exact Nat.zero_le m

theorem Carried.getD_lt (carried : Carried l) (k : Nat) : l.getD k 0 < 2 ^ 51 := by
  have below : l.getD k 0 ≤ 2 ^ 51 - 1 := getD_le (fun e member => Nat.le_pred_of_lt (carried.2 e member)) k
  omega

theorem Carried.set (carried : Carried l) (k x : Nat) : Carried (l.set k (x &&& MASK51)) := by
  refine ⟨by rw [List.length_set, carried.1], fun e member => ?_⟩
  rcases List.mem_or_eq_of_mem_set member with old | rfl
  · exact carried.2 e old
  · rw [show x &&& MASK51 = x % 2 ^ 51 from Nat.and_two_pow_sub_one_eq_mod _ 51]
    exact Nat.mod_lt _ (by norm_num)

theorem set_le {m n k x : Nat} (room : ∀ e ∈ l, e ≤ m) (more : m ≤ n) (new : x ≤ n) : ∀ e ∈ l.set k x, e ≤ n := by
  intro e member
  rcases List.mem_or_eq_of_mem_set member with old | rfl
  · exact le_trans (room e old) more
  · exact new

theorem product_le {x y : Nat} (first : x < 2 ^ 51) (second : y < 2 ^ 51) : x * y ≤ 2 ^ 102 :=
  le_trans (Nat.mul_le_mul first.le second.le) (by norm_num)

theorem addProduct_spec {k x y m : Nat} (inside : k < t.length) (first : x < 2 ^ 51) (second : y < 2 ^ 51)
    (room : ∀ e ∈ t, e ≤ m) (small : m ≤ 25 * 2 ^ 102) :
    Returns (addProduct t k x y) fun r => r.length = t.length ∧ (∀ e ∈ r, e ≤ m + 2 ^ 102) ∧
      Nat.ofDigits (2 ^ 51) r = Nat.ofDigits (2 ^ 51) t + (2 ^ 51) ^ k * (x * y) := by
  have product := product_le first second
  have old := getD_le room k
  rw [addProduct, u128_ok (by omega)]
  refine .bind (.ok rfl) ?_
  rintro product rfl
  rw [u128_ok (by omega)]
  refine .bind (.ok rfl) ?_
  rintro sum rfl
  refine .ret ⟨List.length_set, set_le room (by omega) (by omega), ?_⟩
  have set := @Limbs.ofDigits_set (2 ^ 51) t k inside (t.getD k 0 + x * y)
  rw [Nat.mul_add, ← Nat.add_assoc, Nat.add_right_comm] at set
  exact Nat.add_right_cancel set

theorem row_spec {a b t : List Nat} {i m : Nat} (length : t.length = 10) (below : i < 5) (first : Carried a) (second : Carried b)
    (room : ∀ e ∈ t, e ≤ m) (small : m ≤ 20 * 2 ^ 102) :
    Returns (row a b t i) fun r => r.length = 10 ∧ (∀ e ∈ r, e ≤ m + 5 * 2 ^ 102) ∧
      Nat.ofDigits (2 ^ 51) r = Nat.ofDigits (2 ^ 51) t + (2 ^ 51) ^ i * a.getD i 0 * Nat.ofDigits (2 ^ 51) b := by
  have whole : b.take 5 = b := List.take_of_length_le second.1.le
  have products : Returns (row a b t i) fun r => r.length = 10 ∧ (∀ e ∈ r, e ≤ m + 5 * 2 ^ 102) ∧
      Nat.ofDigits (2 ^ 51) r = Nat.ofDigits (2 ^ 51) t + (2 ^ 51) ^ i * a.getD i 0 * Nat.ofDigits (2 ^ 51) (b.take 5) := by
    apply Returns.range (fun j r => r.length = 10 ∧ (∀ e ∈ r, e ≤ m + j * 2 ^ 102) ∧
      Nat.ofDigits (2 ^ 51) r = Nat.ofDigits (2 ^ 51) t + (2 ^ 51) ^ i * a.getD i 0 * Nat.ofDigits (2 ^ 51) (b.take j))
    · refine ⟨length, by simpa using room, ?_⟩
      rw [List.take_zero, Nat.ofDigits_nil, Nat.mul_zero, Nat.add_zero]
    · intro j r inside ⟨length', room', value⟩
      apply (addProduct_spec (by omega) (first.getD_lt i) (second.getD_lt j) room' (by omega)).mono
      intro r' ⟨length'', room'', value'⟩
      refine ⟨length''.trans length', fun e member => ?_, ?_⟩
      · have := room'' e member
        omega
      · rw [value', value, Limbs.ofDigits_take_succ, pow_add]
        ring
  rw [whole] at products
  exact products

theorem rows_spec {a b : List Nat} (first : Carried a) (second : Carried b) :
    Returns ((List.range 5).foldlM (row a b) (List.replicate 10 0)) fun t => t.length = 10 ∧ (∀ e ∈ t, e ≤ 25 * 2 ^ 102) ∧
      Nat.ofDigits (2 ^ 51) t = Nat.ofDigits (2 ^ 51) a * Nat.ofDigits (2 ^ 51) b := by
  have whole : a.take 5 = a := List.take_of_length_le first.1.le
  have product := Returns.range (f := row a b) (n := 5) (b := List.replicate 10 0) (fun i t => t.length = 10 ∧
    (∀ e ∈ t, e ≤ i * 5 * 2 ^ 102) ∧
    Nat.ofDigits (2 ^ 51) t = Nat.ofDigits (2 ^ 51) (a.take i) * Nat.ofDigits (2 ^ 51) b) ⟨rfl, by decide, by
      rw [List.take_zero, Nat.ofDigits_nil, Nat.zero_mul]
      decide⟩ (by
    intro i t below ⟨length, room, value⟩
    apply (row_spec length below first second room (by omega)).mono
    intro r ⟨length', room', value'⟩
    refine ⟨length', fun e member => ?_, ?_⟩
    · have := room' e member
      omega
    · rw [value', value, Limbs.ofDigits_take_succ]
      ring)
  rw [whole] at product
  exact product

theorem fold : ((2 : ZMod p) ^ 51) ^ 5 = 19 := by
  have sum : ((2 ^ 51) ^ 5 : Nat) = p + 19 := by norm_num [p]
  have cast := congrArg (Nat.cast : Nat → ZMod p) sum
  rw [Nat.cast_add, ZMod.natCast_self, zero_add] at cast
  exact_mod_cast cast

variable {i : Nat}

theorem foldHigh_spec (low : t.getD i 0 ≤ 25 * 2 ^ 102) (high : t.getD (i + 5) 0 ≤ 25 * 2 ^ 102) :
    foldHigh t i = .ok (t.set i (t.getD i 0 + 19 * t.getD (i + 5) 0)) := by
  rw [foldHigh, u128_ok (by omega)]
  change (do let sum ← u128 _; return t.set i sum) = _
  rw [u128_ok (by omega)]
  rfl

theorem ten (length : t.length = 10) : t = (List.range 10).map fun k => t.getD k 0 := by
  apply List.ext_getElem
  · rw [length, List.length_map, List.length_range]
  · intro k inside _
    rw [List.getElem_map, List.getElem_range, List.getD_eq_getElem _ _ inside]

theorem folds_spec (length : t.length = 10) (room : ∀ e ∈ t, e ≤ 25 * 2 ^ 102) :
    Returns ((List.range 5).foldlM foldHigh t) fun r => (∀ e ∈ r.take 5, e ≤ 500 * 2 ^ 102) ∧ (r.take 5).length = 5 ∧
      ((Nat.ofDigits (2 ^ 51) (r.take 5) : Nat) : ZMod p) = (Nat.ofDigits (2 ^ 51) t : Nat) := by
  have each := Returns.range (f := foldHigh) (n := 5) (b := t) (fun i r => r.length = 10 ∧
    ∀ k, r.getD k 0 = t.getD k 0 + if k < i then 19 * t.getD (k + 5) 0 else 0) ⟨length, fun k => rfl⟩ (by
    intro i r inside ⟨length', limbs⟩
    have low := limbs i
    have high := limbs (i + 5)
    rw [if_neg (by omega), Nat.add_zero] at low high
    rw [foldHigh_spec (by rw [low]; exact getD_le room i) (by rw [high]; exact getD_le room (i + 5)), low, high]
    refine .ok ⟨by rw [List.length_set, length'], fun k => ?_⟩
    have old := limbs k
    rw [List.getD_eq_getElem?_getD] at old ⊢
    rw [List.getElem?_set]
    by_cases here : i = k
    · rw [if_pos here, if_pos (by omega), ← here, if_pos (Nat.lt_succ_self i)]
      rfl
    · rw [if_neg here, old]
      congr 1
      exact if_congr (by omega) rfl rfl)
  apply each.mono
  intro r ⟨length', limbs⟩
  have low : r.take 5 = (List.range 5).map fun k => t.getD k 0 + 19 * t.getD (k + 5) 0 := by
    rw [ten length', ← List.map_take]
    apply List.map_congr_left
    intro k member
    have below : k < 5 := List.mem_range.mp member
    rw [limbs k, if_pos below]
  rw [low]
  refine ⟨?_, rfl, ?_⟩
  · intro e member
    obtain ⟨k, -, rfl⟩ := List.mem_map.mp member
    have first := getD_le room k
    have second := getD_le room (k + 5)
    omega
  · have digits := congrArg (Nat.ofDigits (2 ^ 51)) (ten length)
    rw [digits]
    simp only [List.range, List.range.loop, List.map_cons, List.map_nil, Nat.ofDigits_cons, Nat.ofDigits_nil, Nat.zero_add,
      Nat.reduceAdd]
    generalize t.getD 5 0 = t5, t.getD 6 0 = t6, t.getD 7 0 = t7, t.getD 8 0 = t8, t.getD 9 0 = t9
    push_cast
    linear_combination -((t5 : ZMod p) + 2 ^ 51 * (t6 + 2 ^ 51 * (t7 + 2 ^ 51 * (t8 + 2 ^ 51 * t9)))) * fold

theorem propagate_spec {ts : List Nat} {c : Nat} (small : ∀ t ∈ ts, t ≤ 500 * 2 ^ 102) (first : c < 2 ^ 62) :
    Returns (propagate ts c) fun r => r.1.length = ts.length ∧ (∀ x ∈ r.1, x < 2 ^ 51) ∧ r.2 < 2 ^ 62 ∧
      Nat.ofDigits (2 ^ 51) r.1 + (2 ^ 51) ^ ts.length * r.2 = Nat.ofDigits (2 ^ 51) ts + c := by
  induction ts generalizing c with
  | nil =>
    refine .ok ⟨rfl, fun x member => absurd member List.not_mem_nil, first, ?_⟩
    simp
  | cons t ts ih =>
    obtain ⟨here, rest⟩ := List.forall_mem_cons.mp small
    have shift : (t + c) >>> 51 = (t + c) / 2 ^ 51 := Nat.shiftRight_eq_div_pow _ 51
    have mask : (t + c) &&& MASK51 = (t + c) % 2 ^ 51 := Nat.and_two_pow_sub_one_eq_mod _ 51
    rw [propagate, u128_ok (by omega)]
    refine .bind (.ok rfl) ?_
    rintro cur rfl
    rw [shift, mask]
    apply (ih rest (c := (t + c) / 2 ^ 51) (by omega)).bind
    intro r ⟨length, limbs, out, value⟩
    refine .ret ⟨congrArg Nat.succ length, List.forall_mem_cons.mpr ⟨Nat.mod_lt _ (by norm_num), limbs⟩, out, ?_⟩
    have split := Nat.mod_add_div (t + c) (2 ^ 51)
    dsimp only
    rw [Nat.ofDigits_cons, Nat.ofDigits_cons, List.length_cons, pow_succ]
    linear_combination split + 2 ^ 51 * value

theorem carried_out {l c : Nat} (limb : l < 2 ^ 51) (small : c < 2 ^ 67) : (l + c) >>> 51 < 2 ^ 17 := by
  rw [Nat.shiftRight_eq_div_pow]
  omega

theorem addBack_residue {out : List Nat} (inside : i < out.length) (c : Nat) :
    ((Nat.ofDigits (2 ^ 51) (out.set i ((out.getD i 0 + c) &&& MASK51)) : Nat) : ZMod p) +
      ((out.getD i 0 + c) >>> 51 : Nat) * (2 ^ 51) ^ (i + 1) = (Nat.ofDigits (2 ^ 51) out : Nat) + c * (2 ^ 51) ^ i := by
  have value := congrArg (Nat.cast : Nat → ZMod p) (addBack_value inside c)
  simp only [Nat.cast_add, Nat.cast_mul, Nat.cast_pow, Nat.cast_ofNat] at value
  exact value

theorem addBack_spec (out : List Nat) (c i : Nat) (carried : Carried out) (small : c < 2 ^ 67) (inside : i < 5 ∨ c = 0) :
    Returns (addBack out c i) fun r => Carried r ∧
      ((Nat.ofDigits (2 ^ 51) r : Nat) : ZMod p) = (Nat.ofDigits (2 ^ 51) out : Nat) + c * (2 ^ 51) ^ i := by
  fun_induction addBack out c i with
  | case1 out i => exact .ok ⟨carried, by rw [Nat.cast_zero, zero_mul, add_zero]⟩
  | case2 out c i pending h cur fits last smaller ih =>
    have size : cur >>> 51 < 2 ^ 17 := carried_out (carried.getD_lt i) small
    apply (ih (carried.set i cur) (by omega) (.inl (by norm_num))).mono
    intro r ⟨carried', same⟩
    refine ⟨carried', ?_⟩
    have value : _ + ((cur >>> 51 : Nat) : ZMod p) * (2 ^ 51) ^ (i + 1) = _ := addBack_residue h c
    rw [last.1] at value
    rw [same, ← value, Nat.cast_mul, Nat.cast_ofNat]
    linear_combination -((cur >>> 51 : Nat) : ZMod p) * fold
  | case3 out c i pending h cur fits last larger =>
    have size : cur >>> 51 < 2 ^ 17 := carried_out (carried.getD_lt i) small
    omega
  | case4 out c i pending h cur fits rest ih =>
    have size : cur >>> 51 < 2 ^ 17 := carried_out (carried.getD_lt i) small
    have below : i < 5 := carried.1 ▸ h
    apply (ih (carried.set i cur) (by omega) (by omega)).mono
    intro r ⟨carried', same⟩
    refine ⟨carried', ?_⟩
    have value : _ + ((cur >>> 51 : Nat) : ZMod p) * (2 ^ 51) ^ (i + 1) = _ := addBack_residue h c
    rw [same, ← value]
  | case5 out c i pending h cur large =>
    have limb := carried.getD_lt i
    have total : cur = out.getD i 0 + c := rfl
    omega
  | case6 out c i pending outside =>
    rw [carried.1] at outside
    omega

namespace Fe

theorem mul_spec {a b : Fe} (first : Carried a.limbs) (second : Carried b.limbs) :
    Returns (mul a b) fun r => r.Canonical ∧ r.toField = a.toField * b.toField := by
  rw [mul]
  apply (rows_spec first second).bind
  intro t ⟨length, room, product⟩
  apply (folds_spec length room).bind
  intro t' ⟨room', length', folded⟩
  apply (propagate_spec room' (c := 0) (by norm_num)).bind
  intro ⟨out, c⟩ ⟨length'', limbs, small, value⟩
  rw [length'] at length'' value
  dsimp only at length'' limbs small value ⊢
  rw [u128_ok (by omega)]
  refine .bind (.ok rfl) ?_
  rintro c' rfl
  apply (addBack_spec out (19 * c) 0 ⟨length'', limbs⟩ (by omega) (.inl (by norm_num))).bind
  intro r ⟨carried, same⟩
  obtain ⟨canonical, kept⟩ := condSubP_spec (a := ⟨r⟩) carried
  refine .ret ⟨canonical, ?_⟩
  have residue := congrArg (Nat.cast : Nat → ZMod p) value
  simp only [Nat.cast_add, Nat.cast_mul, Nat.cast_pow, Nat.cast_ofNat, Nat.cast_zero] at residue
  calc (condSubP ⟨r⟩).toField = ((Nat.ofDigits (2 ^ 51) r : Nat) : ZMod p) := kept
    _ = (Nat.ofDigits (2 ^ 51) out : Nat) + (2 ^ 51) ^ 5 * c := by
      rw [same, fold, pow_zero, mul_one, Nat.cast_mul, Nat.cast_ofNat]
    _ = ((Nat.ofDigits (2 ^ 51) a.limbs * Nat.ofDigits (2 ^ 51) b.limbs : Nat) : ZMod p) := by
      rw [residue, add_zero, folded, product]
    _ = a.toField * b.toField := Nat.cast_mul _ _

theorem square_spec {a : Fe} (carried : Carried a.limbs) :
    Returns (square a) fun r => r.Canonical ∧ r.toField = a.toField ^ 2 := by
  apply (mul_spec carried carried).mono
  intro r ⟨canonical, same⟩
  exact ⟨canonical, by rw [same, sq]⟩

/-! ### Powers -/

theorem bitOf_eq (e : Bytes) (i : Nat) : bitOf e i = read e / 2 ^ i % 2 := by
  have bits := @Limbs.bits (e.map UInt8.toNat) 8 (i / 8) (i % 8) 1 (Limbs.byte_lt e) (by omega) (by norm_num)
  have byte : (e.map UInt8.toNat).getD (i / 8) 0 = (e.getD (i / 8) 0).toNat := List.getD_map _ 0 UInt8.toNat
  rw [Nat.div_add_mod, pow_one, byte] at bits
  rw [bitOf, Nat.shiftRight_eq_div_pow, Nat.and_one_is_mod, Limbs.read_eq_ofDigits]
  exact bits.symm

theorem zero_canonical : ZERO.Canonical := ⟨zero_carried, by decide⟩

theorem one_canonical : ONE.Canonical := ⟨one_carried, by decide⟩

theorem pow_spec {a : Fe} (carried : Carried a.limbs) {e : Bytes} (length : e.length = 32) :
    Returns (pow a e) fun r => r.Canonical ∧ r.toField = a.toField ^ read e := by
  have small : read e < 2 ^ 256 := by
    have below := read_lt e
    rw [length] at below
    exact lt_of_lt_of_eq below (by norm_num)
  have powers := Returns.range_reverse (f := fun result i => do
      let result ← square result
      if bitOf e i = 1 then mul result a else return result) (n := 256) (b := ONE)
    (fun i r => r.Canonical ∧ r.toField = a.toField ^ (read e / 2 ^ i))
    ⟨one_canonical, by rw [Nat.div_eq_of_lt small, pow_zero, toField_one]⟩ (by
      intro i r below ⟨canonical, same⟩
      apply (square_spec canonical.carried).bind
      intro s ⟨canonical', same'⟩
      have half : read e / 2 ^ i = read e / 2 ^ (i + 1) * 2 + read e / 2 ^ i % 2 := by
        rw [Nat.pow_succ, ← Nat.div_div_eq_div_mul]
        omega
      rw [same, ← pow_mul] at same'
      by_cases one : bitOf e i = 1
      · rw [if_pos one]
        apply (mul_spec canonical'.carried carried).mono
        intro m ⟨canonical'', same''⟩
        refine ⟨canonical'', ?_⟩
        rw [half, ← bitOf_eq, one, pow_succ, same'', same']
      · have zero : bitOf e i = 0 := by
          rw [bitOf_eq] at one ⊢
          omega
        rw [if_neg one]
        refine .ret ⟨canonical', ?_⟩
        rw [half, ← bitOf_eq, zero, add_zero, same'])
  rw [pow_zero, Nat.div_one] at powers
  exact powers

theorem invert_spec {a : Fe} (carried : Carried a.limbs) :
    Returns (invert a) fun r => r.Canonical ∧ r.toField = a.toField⁻¹ := by
  apply (pow_spec carried rfl).mono
  intro r ⟨canonical, same⟩
  refine ⟨canonical, ?_⟩
  have inverse : read (0xEB :: List.replicate 30 0xFF ++ [0x7F]) = p - 2 := by decide
  rw [same, inverse]
  by_cases zero : a.toField = 0
  · rw [zero, inv_zero]
    exact zero_pow (by decide)
  · have fermat := ZMod.pow_card_sub_one_eq_one zero
    apply eq_inv_of_mul_eq_one_left
    rw [← pow_succ, ← fermat]
    rfl

/-- Every operation on canonical elements: nothing overflows, the carries come to an end, and the result is canonical and is
what the field has for it. -/
theorem field_operations {a b : Fe} (first : a.Canonical) (second : b.Canonical) {e : Bytes} (length : e.length = 32) :
    Returns (add a b) (fun r => r.Canonical ∧ r.toField = a.toField + b.toField) ∧
      Returns (sub a b) (fun r => r.Canonical ∧ r.toField = a.toField - b.toField) ∧
      Returns (neg a) (fun r => r.Canonical ∧ r.toField = -a.toField) ∧
      Returns (mul a b) (fun r => r.Canonical ∧ r.toField = a.toField * b.toField) ∧
      Returns (square a) (fun r => r.Canonical ∧ r.toField = a.toField ^ 2) ∧
      Returns (pow a e) (fun r => r.Canonical ∧ r.toField = a.toField ^ read e) ∧
      Returns (invert a) (fun r => r.Canonical ∧ (a ≠ ZERO → r.toField * a.toField = 1)) := by
  refine ⟨add_spec first.carried second.carried, sub_spec first.carried second.carried, neg_spec first.carried,
    mul_spec first.carried second.carried, square_spec first.carried, pow_spec first.carried length, ?_⟩
  apply (invert_spec first.carried).mono
  intro r ⟨canonical, same⟩
  refine ⟨canonical, fun some_ => ?_⟩
  have nonzero : a.toField ≠ 0 := fun zero => some_ (first.ext zero_canonical (zero.trans toField_zero.symm))
  rw [same]
  exact inv_mul_cancel₀ nonzero

/-- Two elements and an exponent. -/
theorem field_operations_two_three :
    (Fe.mk [2, 0, 0, 0, 0]).Canonical ∧ (Fe.mk [3, 0, 0, 0, 0]).Canonical ∧
      Returns (sub ⟨[2, 0, 0, 0, 0]⟩ ⟨[3, 0, 0, 0, 0]⟩) (fun r => r.Canonical ∧
        r.toField = (Fe.mk [2, 0, 0, 0, 0]).toField - (Fe.mk [3, 0, 0, 0, 0]).toField) := by
  have two : (Fe.mk [2, 0, 0, 0, 0]).Canonical := ⟨⟨rfl, by decide⟩, by decide⟩
  have three : (Fe.mk [3, 0, 0, 0, 0]).Canonical := ⟨⟨rfl, by decide⟩, by decide⟩
  have exponent : (List.replicate 32 3 : Bytes).length = 32 := rfl
  exact ⟨two, three, (field_operations two three exponent).2.1⟩

end Fe

end TypeBit.Ed25519
