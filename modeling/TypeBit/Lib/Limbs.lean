import Mathlib.Data.List.GetD
import Mathlib.Tactic.Ring
import TypeBit.Lib.Radix

/-! Numbers as lists of limbs, the lowest first: one limb changed, two numbers compared from the top, and one subtracted from
another with a borrow. -/

namespace Limbs
open Radix

section One
variable {b : Nat}

theorem ofDigits_take_succ (l : List Nat) (i : Nat) :
    Nat.ofDigits b (l.take (i + 1)) = Nat.ofDigits b (l.take i) + b ^ i * l.getD i 0 := by
  by_cases inside : i < l.length
  · rw [List.take_succ_eq_append_getElem inside, Nat.ofDigits_append, Nat.ofDigits_singleton, List.length_take,
      Nat.min_eq_left inside.le, List.getD_eq_getElem _ _ inside]
  · rw [List.take_of_length_le (by omega), List.take_of_length_le (by omega), List.getD_eq_default _ _ (by omega), Nat.mul_zero,
      Nat.add_zero]

theorem ofDigits_set {l : List Nat} {i : Nat} (inside : i < l.length) (y : Nat) :
    Nat.ofDigits b (l.set i y) + b ^ i * l.getD i 0 = Nat.ofDigits b l + b ^ i * y := by
  induction l generalizing i with
  | nil => exact absurd inside (Nat.not_lt_zero i)
  | cons x tail ih =>
    cases i with
    | zero =>
      rw [List.set_cons_zero, Nat.ofDigits_cons, Nat.ofDigits_cons, List.getD_cons_zero, Nat.pow_zero, Nat.one_mul, Nat.one_mul]
      omega
    | succ i =>
      have rest := ih (Nat.lt_of_succ_lt_succ inside)
      rw [List.set_cons_succ, Nat.ofDigits_cons, Nat.ofDigits_cons, List.getD_cons_succ, Nat.pow_succ]
      calc x + b * Nat.ofDigits b (tail.set i y) + b ^ i * b * tail.getD i 0
          = x + b * (Nat.ofDigits b (tail.set i y) + b ^ i * tail.getD i 0) := by ring
        _ = x + b * (Nat.ofDigits b tail + b ^ i * y) := by rw [rest]
        _ = x + b * Nat.ofDigits b tail + b ^ i * b * y := by ring

theorem ofDigits_div_mod {l : List Nat} (base : 1 < b) (small : ∀ x ∈ l, x < b) (k : Nat) :
    Nat.ofDigits b l / b ^ k % b = l.getD k 0 := by
  induction l generalizing k with
  | nil => rw [Nat.ofDigits_nil, Nat.zero_div, Nat.zero_mod, List.getD_nil]
  | cons x tail ih =>
    obtain ⟨here, rest⟩ := List.forall_mem_cons.mp small
    rw [Nat.ofDigits_cons]
    cases k with
    | zero => rw [pow_zero, Nat.div_one, Nat.add_mul_mod_self_left, Nat.mod_eq_of_lt here, List.getD_cons_zero]
    | succ k =>
      rw [List.getD_cons_succ, ← ih rest k, pow_succ', ← Nat.div_div_eq_div_mul, Nat.add_mul_div_left _ _ (by omega),
        Nat.div_eq_of_lt here, Nat.zero_add]

theorem getD_set_of_ne {l : List Nat} {i k : Nat} (other : i ≠ k) (x : Nat) : (l.set i x).getD k 0 = l.getD k 0 := by
  rw [List.getD_eq_getElem?_getD, List.getD_eq_getElem?_getD, List.getElem?_set_ne other]

theorem byte_lt (bytes : List UInt8) : ∀ x ∈ bytes.map UInt8.toNat, x < 256 := by
  intro x member
  obtain ⟨y, -, rfl⟩ := List.mem_map.mp member
  exact y.toNat_lt

theorem read_eq_ofDigits (bytes : List UInt8) : LittleEndian.read bytes = Nat.ofDigits 256 (bytes.map UInt8.toNat) := by
  induction bytes with
  | nil => rfl
  | cons b tail ih => rw [LittleEndian.read, ih, List.map_cons, Nat.ofDigits_cons]

theorem read_window (m : List UInt8) (s n : Nat) :
    LittleEndian.read ((m.drop s).take n) = LittleEndian.read m / 256 ^ s % 256 ^ n := by
  rw [read_eq_ofDigits, read_eq_ofDigits, List.map_take, List.map_drop,
    ← Nat.ofDigits_mod_pow_eq_ofDigits_take n (by norm_num) _ fun x member => byte_lt m x (List.mem_of_mem_drop member),
    ← Nat.ofDigits_div_pow_eq_ofDigits_drop s (by norm_num) _ (byte_lt m)]

/-- A number written in two parts. -/
theorem write_add (j k n : Nat) :
    LittleEndian.write (j + k) n = LittleEndian.write j n ++ LittleEndian.write k (n / 256 ^ j) := by
  induction j generalizing n with
  | zero => rw [Nat.zero_add, pow_zero, Nat.div_one, LittleEndian.write, List.nil_append]
  | succ j ih =>
    rw [Nat.add_right_comm, LittleEndian.write, LittleEndian.write, ih, List.cons_append, Nat.div_div_eq_div_mul, Nat.pow_succ']

theorem ofDigits_eq_number (l : List Nat) : Nat.ofDigits b l = number b l.reverse := by
  rw [number, List.reverse_reverse]

end One

/-- Bits of a number that lie below some others of it. -/
theorem mod_div_mod {n w r s : Nat} (inside : r + s ≤ w) : n % 2 ^ w / 2 ^ r % 2 ^ s = n / 2 ^ r % 2 ^ s := by
  have above : 2 ^ w = 2 ^ r * (2 ^ s * 2 ^ (w - r - s)) := by
    rw [← pow_add, ← pow_add]
    congr 1
    omega
  have split : n / 2 ^ r = n % 2 ^ w / 2 ^ r + 2 ^ s * (2 ^ (w - r - s) * (n / 2 ^ w)) := by
    have parts : n = n % 2 ^ w + 2 ^ r * (2 ^ s * 2 ^ (w - r - s)) * (n / 2 ^ w) := by rw [← above, Nat.mod_add_div]
    calc n / 2 ^ r = (n % 2 ^ w + 2 ^ r * (2 ^ s * (2 ^ (w - r - s) * (n / 2 ^ w)))) / 2 ^ r := by
          rw [← Nat.mul_assoc (2 ^ s), ← Nat.mul_assoc (2 ^ r), ← parts]
      _ = _ := Nat.add_mul_div_left _ _ (by positivity)
  rw [split, Nat.add_mul_mod_self_left]

theorem bits {l : List Nat} {w q r s : Nat} (small : ∀ x ∈ l, x < 2 ^ w) (inside : r + s ≤ w) (some_ : 0 < w) :
    Nat.ofDigits (2 ^ w) l / 2 ^ (w * q + r) % 2 ^ s = l.getD q 0 / 2 ^ r % 2 ^ s := by
  rw [← ofDigits_div_mod (Nat.one_lt_two_pow_iff.mpr (by omega)) small q, mod_div_mod inside, pow_add, pow_mul,
    Nat.div_div_eq_div_mul]

/-! ### Comparing -/

/-- Whether the first number is at least the second, their highest limbs first. -/
def ge : List Nat → List Nat → Bool
  | x :: xs, y :: ys => if y < x then true else if x < y then false else ge xs ys
  | _, _ => true

theorem ge_iff {b : Nat} (base : 1 < b) {xs ys : List Nat} (same : xs.length = ys.length) (first : ∀ x ∈ xs, x < b)
    (second : ∀ y ∈ ys, y < b) : ge xs ys = true ↔ number b ys ≤ number b xs := by
  induction xs generalizing ys with
  | nil =>
    have none : ys = [] := List.length_eq_zero_iff.mp same.symm
    rw [none]
    exact iff_of_true rfl (Nat.le_refl 0)
  | cons x xs ih =>
    cases ys with
    | nil => cases same
    | cons y ys =>
      have lengths : xs.length = ys.length := Nat.succ.inj same
      have below := number_lt base fun e member => first e (List.mem_cons_of_mem x member)
      have below' := number_lt base fun e member => second e (List.mem_cons_of_mem y member)
      have rest := ih lengths (fun e member => first e (List.mem_cons_of_mem x member))
        (fun e member => second e (List.mem_cons_of_mem y member))
      rw [ge, number_cons, number_cons, ← lengths]
      rw [← lengths] at below'
      rcases Nat.lt_trichotomy y x with less | equal | more
      · rw [if_pos less]
        have room : (y + 1) * b ^ xs.length ≤ x * b ^ xs.length := Nat.mul_le_mul_right _ less
        rw [Nat.add_mul, Nat.one_mul] at room
        exact iff_of_true rfl (by omega)
      · rw [equal, if_neg (Nat.lt_irrefl x), if_neg (Nat.lt_irrefl x), rest]
        omega
      · rw [if_neg (Nat.lt_asymm more), if_pos more]
        have room : (x + 1) * b ^ xs.length ≤ y * b ^ xs.length := Nat.mul_le_mul_right _ more
        rw [Nat.add_mul, Nat.one_mul] at room
        exact iff_of_false Bool.false_ne_true (by omega)

/-! ### Subtracting -/

/-- Subtract limb by limb in words below `w`; what is borrowed from above, at the end too. -/
def sub (w : Nat) : List Nat → List Nat → Nat → List Nat × Nat
  | x :: xs, y :: ys, borrow =>
      let d := (x + w - y) % w
      let rest := sub w xs ys (if x < y ∨ d < borrow then 1 else 0)
      ((d + w - borrow) % w :: rest.1, rest.2)
  | _, _, borrow => ([], borrow)

theorem word_sub {w x y borrow : Nat} (first : x < w) (second : y < w) (bit : borrow ≤ 1) :
    ((x + w - y) % w + w - borrow) % w < w ∧ x + w * (if x < y ∨ (x + w - y) % w < borrow then 1 else 0) =
      y + borrow + ((x + w - y) % w + w - borrow) % w := by
  have d : (x + w - y) % w = if x < y then x + w - y else x - y := by
    split_ifs with less
    · exact Nat.mod_eq_of_lt (by omega)
    · rw [show x + w - y = x - y + w by omega, Nat.add_mod_right, Nat.mod_eq_of_lt (by omega)]
  refine ⟨Nat.mod_lt _ (by omega), ?_⟩
  rw [d]
  by_cases less : x < y
  · rw [if_pos less, if_pos (.inl less)]
    by_cases wrap : x + w - y < borrow
    · omega
    · rw [show x + w - y + w - borrow = x + w - y - borrow + w by omega, Nat.add_mod_right, Nat.mod_eq_of_lt (by omega)]
      omega
  · rw [if_neg less]
    by_cases wrap : x - y < borrow
    · rw [if_pos (.inr wrap), Nat.mod_eq_of_lt (by omega)]
      omega
    · rw [if_neg (not_or_intro less wrap), show x - y + w - borrow = x - y - borrow + w by omega, Nat.add_mod_right,
        Nat.mod_eq_of_lt (by omega)]
      omega

theorem sub_spec {w : Nat} {xs ys : List Nat} {borrow : Nat} (same : xs.length = ys.length) (first : ∀ x ∈ xs, x < w)
    (second : ∀ y ∈ ys, y < w) (bit : borrow ≤ 1) :
    (sub w xs ys borrow).1.length = xs.length ∧ (∀ z ∈ (sub w xs ys borrow).1, z < w) ∧ (sub w xs ys borrow).2 ≤ 1 ∧
      Nat.ofDigits w xs + w ^ xs.length * (sub w xs ys borrow).2 =
        Nat.ofDigits w ys + borrow + Nat.ofDigits w (sub w xs ys borrow).1 := by
  induction xs generalizing ys borrow with
  | nil =>
    have none : ys = [] := List.length_eq_zero_iff.mp same.symm
    rw [none]
    refine ⟨rfl, fun z member => absurd member List.not_mem_nil, bit, ?_⟩
    simp [sub]
  | cons x xs ih =>
    cases ys with
    | nil => cases same
    | cons y ys =>
      obtain ⟨small, digit⟩ := word_sub (first x List.mem_cons_self) (second y List.mem_cons_self) bit
      have next : (if x < y ∨ (x + w - y) % w < borrow then 1 else 0) ≤ 1 := by split_ifs <;> omega
      obtain ⟨length, words, out, value⟩ := ih (Nat.succ.inj same) (fun e member => first e (List.mem_cons_of_mem x member))
        (fun e member => second e (List.mem_cons_of_mem y member)) next
      rw [sub]
      dsimp only
      generalize (if x < y ∨ (x + w - y) % w < borrow then 1 else 0) = carried at *
      refine ⟨congrArg Nat.succ length, List.forall_mem_cons.mpr ⟨small, words⟩, out, ?_⟩
      rw [Nat.ofDigits_cons, Nat.ofDigits_cons, Nat.ofDigits_cons, List.length_cons, Nat.pow_succ]
      calc x + w * Nat.ofDigits w xs + w ^ xs.length * w * (sub w xs ys carried).2
          = x + w * (Nat.ofDigits w xs + w ^ xs.length * (sub w xs ys carried).2) := by ring
        _ = (x + w * carried) + w * (Nat.ofDigits w ys + Nat.ofDigits w (sub w xs ys carried).1) := by
            rw [value]
            ring
        _ = _ := by
            rw [digit]
            ring

/-- Without a borrow the limbs are subtracted one from another, in whatever base. -/
theorem sub_of_le {w : Nat} {xs ys : List Nat} (first : ∀ x ∈ xs, x < w) (le : List.Forall₂ (· ≤ ·) ys xs) :
    (sub w xs ys 0).1 = List.zipWith (· - ·) xs ys := by
  induction le with
  | nil => rfl
  | @cons y x ys xs here rest ih =>
    have small := first x List.mem_cons_self
    have d : (x + w - y) % w = x - y := by
      rw [show x + w - y = x - y + w by omega, Nat.add_mod_right, Nat.mod_eq_of_lt (by omega)]
    rw [sub]
    dsimp only
    rw [d, if_neg (by omega), ih fun e member => first e (List.mem_cons_of_mem x member), Nat.sub_zero, Nat.add_mod_right,
      Nat.mod_eq_of_lt (by omega)]
    rfl

end Limbs
