import Mathlib.Algebra.Order.Ring.Int
import Mathlib.Data.List.Basic
import Mathlib.Data.Nat.Digits.Lemmas
import Mathlib.Tactic.Common

/-! Numbers from their digits in some base, the most significant digit first. -/

namespace Radix

def number (b : Nat) (digits : List Nat) : Nat := Nat.ofDigits b digits.reverse

/-- One digit more at the end. -/
theorem number_concat (b : Nat) (digits : List Nat) (d : Nat) : number b (digits ++ [d]) = b * number b digits + d := by
  rw [number, List.reverse_append, List.reverse_singleton, List.singleton_append, Nat.ofDigits_cons, Nat.add_comm]
  rfl

/-- One digit more at the front. -/
theorem number_cons (b d : Nat) (digits : List Nat) : number b (d :: digits) = d * b ^ digits.length + number b digits := by
  rw [number, List.reverse_cons, Nat.ofDigits_append, Nat.ofDigits_singleton, List.length_reverse, Nat.add_comm, Nat.mul_comm]
  rfl

@[simp] theorem number_zero_cons (b : Nat) (digits : List Nat) : number b (0 :: digits) = number b digits := by
  rw [number_cons, Nat.zero_mul, Nat.zero_add]

theorem number_lt {b : Nat} (base : 1 < b) {digits : List Nat} (small : ∀ d ∈ digits, d < b) :
    number b digits < b ^ digits.length := by
  rw [← List.length_reverse]
  exact Nat.ofDigits_lt_base_pow_length base fun d member => small d (List.mem_reverse.mp member)

theorem number_injective {b : Nat} (base : 1 < b) {ds es : List Nat} (length : ds.length = es.length)
    (first : ∀ d ∈ ds, d < b) (second : ∀ e ∈ es, e < b) (same : number b ds = number b es) : ds = es := by
  apply List.reverse_inj.mp
  apply Nat.ofDigits_inj_of_len_eq base _ _ _ same
  · rw [List.length_reverse, List.length_reverse, length]
  · exact fun d member => first d (List.mem_reverse.mp member)
  · exact fun e member => second e (List.mem_reverse.mp member)

/-- The digits of a number, the first of them not zero. -/
def digitsOf (b n : Nat) : List Nat := (Nat.digits b n).reverse

theorem digitsOf_lt {b n : Nat} (base : 1 < b) : ∀ d ∈ digitsOf b n, d < b :=
  fun _ member => Nat.digits_lt_base base (List.mem_reverse.mp member)

theorem head?_digitsOf (b n : Nat) : (digitsOf b n).head? ≠ some 0 := by
  rw [digitsOf, List.head?_reverse]
  by_cases zero : n = 0
  · rw [zero, Nat.digits_zero]
    exact Option.some_ne_none 0 |>.symm
  · rw [List.getLast?_eq_some_getLast (Nat.digits_ne_nil_iff_ne_zero.mpr zero)]
    intro last
    exact Nat.getLast_digit_ne_zero b zero (Option.some.inj last)

@[simp] theorem number_digitsOf (b n : Nat) : number b (digitsOf b n) = n := by
  rw [number, digitsOf, List.reverse_reverse, Nat.ofDigits_digits]

theorem digitsOf_number {b : Nat} (base : 1 < b) {ds : List Nat} (small : ∀ d ∈ ds, d < b) (first : ds.head? ≠ some 0) :
    digitsOf b (number b ds) = ds := by
  rw [digitsOf, number, Nat.digits_ofDigits b base]
  · exact List.reverse_reverse ds
  · exact fun d member => small d (List.mem_reverse.mp member)
  · intro some_ last
    apply first
    rw [← List.getLast?_reverse, List.getLast?_eq_some_getLast some_, last]

theorem digitsOf_pos {b n : Nat} (base : 1 < b) (pos : 0 < n) : digitsOf b n = digitsOf b (n / b) ++ [n % b] := by
  rw [digitsOf, Nat.digits_def' base pos, List.reverse_cons]
  rfl

end Radix

/-! ### Byte strings of a fixed length, the least significant byte first -/

namespace LittleEndian

/-- The `k` lowest bytes of a number. -/
def write : Nat → Nat → List UInt8
  | 0, _ => []
  | k + 1, n => n.toUInt8 :: write k (n / 256)

def read : List UInt8 → Nat
  | [] => 0
  | b :: tail => b.toNat + 256 * read tail

@[simp] theorem length_write (k n : Nat) : (write k n).length = k := by
  induction k generalizing n with
  | zero => rfl
  | succ k ih => rw [write, List.length_cons, ih]

theorem read_write (k n : Nat) : read (write k n) = n % 256 ^ k := by
  induction k generalizing n with
  | zero => rw [write, read, pow_zero, Nat.mod_one]
  | succ k ih =>
    have low : n.toUInt8.toNat = n % 256 := by simp
    rw [write, read, ih, low, Nat.pow_succ', Nat.mod_mul]

theorem write_mod (k n : Nat) : write k (n % 256 ^ k) = write k n := by
  induction k generalizing n with
  | zero => rfl
  | succ k ih =>
    have low : (n % 256 ^ (k + 1)).toUInt8 = n.toUInt8 := by
      apply UInt8.toNat_inj.mp
      simp [Nat.pow_succ']
    rw [write, write, low, Nat.pow_succ', Nat.mod_mul_right_div_self, ih]

theorem read_write_of_lt {k n : Nat} (small : n < 256 ^ k) : read (write k n) = n :=
  (read_write k n).trans (Nat.mod_eq_of_lt small)

theorem read_lt (b : List UInt8) : read b < 256 ^ b.length := by
  induction b with
  | nil => exact Nat.one_pos
  | cons c tail ih =>
    have digit := c.toNat_lt
    rw [read, List.length_cons, Nat.pow_succ']
    omega

theorem write_read (b : List UInt8) : write b.length (read b) = b := by
  induction b with
  | nil => rfl
  | cons c tail ih =>
    have digit := c.toNat_lt
    have low : (c.toNat + 256 * read tail).toUInt8 = c := by
      apply UInt8.toNat_inj.mp
      simp
    have high : (c.toNat + 256 * read tail) / 256 = read tail := by omega
    rw [List.length_cons, read, write, low, high, ih]

end LittleEndian
