import Mathlib.Algebra.Order.Ring.Int
import Mathlib.Data.List.Basic
import Mathlib.Tactic.Common

/-! Numbers in groups of seven bits, the lowest first; every byte of a number but its last has the high bit set. -/

namespace Leb128

/-- The number that the bytes write, however many they are. -/
def value : List UInt8 → Nat
  | [] => 0
  | b :: tail => b.toNat % 128 + 128 * value tail

/-- The bytes are those of one number: the last, and only the last, has no high bit. -/
def Complete : List UInt8 → Prop
  | [] => False
  | b :: tail => if b.toNat < 128 then tail = [] else Complete tail

theorem complete_last {b : UInt8} (last : b.toNat < 128) (tail : List UInt8) : Complete (b :: tail) ↔ tail = [] := by
  rw [Complete, if_pos last]

theorem complete_more {b : UInt8} (more : ¬ b.toNat < 128) (tail : List UInt8) :
    Complete (b :: tail) ↔ Complete tail := by
  rw [Complete, if_neg more]

/-- A number is some bytes that go on and one that ends it. -/
theorem complete_iff {p : List UInt8} :
    Complete p ↔ ∃ front c, p = front ++ [c] ∧ (∀ d ∈ front, 128 ≤ d.toNat) ∧ c.toNat < 128 := by
  induction p with
  | nil =>
    apply iff_of_false id
    intro ends
    obtain ⟨front, c, empty, -⟩ := ends
    exact List.append_ne_nil_of_right_ne_nil front (List.cons_ne_nil c []) empty.symm
  | cons b tail ih =>
    by_cases last : b.toNat < 128
    · rw [complete_last last]
      constructor
      · intro empty
        exact ⟨[], b, by rw [empty]; rfl, fun d member => absurd member List.not_mem_nil, last⟩
      · intro ends
        obtain ⟨front, c, same, more, -⟩ := ends
        cases front with
        | nil => exact (List.cons.inj same).2
        | cons d front =>
          have goes := more d List.mem_cons_self
          rw [(List.cons.inj same).1] at last
          omega
    · rw [complete_more last, ih]
      constructor
      · intro ends
        obtain ⟨front, c, same, more, stop⟩ := ends
        have all : ∀ d ∈ b :: front, 128 ≤ d.toNat := List.forall_mem_cons.mpr ⟨Nat.le_of_not_lt last, more⟩
        exact ⟨b :: front, c, congrArg (b :: ·) same, all, stop⟩
      · intro ends
        obtain ⟨front, c, same, more, stop⟩ := ends
        cases front with
        | nil =>
          rw [(List.cons.inj same).1] at last
          exact absurd stop last
        | cons d front =>
          exact ⟨front, c, (List.cons.inj same).2, fun e member => more e (List.mem_cons_of_mem d member), stop⟩

theorem Complete.ne_nil {p : List UInt8} (complete : Complete p) : p ≠ [] := by
  intro empty
  rw [empty] at complete
  exact complete

/-- No number is the beginning of another. -/
theorem Complete.append_inj {p q r s : List UInt8} (first : Complete p) (second : Complete q) (same : p ++ r = q ++ s) :
    p = q ∧ r = s := by
  induction p generalizing q with
  | nil => exact first.elim
  | cons b p ih =>
    cases q with
    | nil => exact second.elim
    | cons c q =>
      obtain ⟨rfl, rest⟩ := List.cons.inj same
      by_cases last : b.toNat < 128
      · rw [complete_last last] at first second
        rw [first, second] at rest ⊢
        exact ⟨rfl, rest⟩
      · rw [complete_more last] at first second
        obtain ⟨tails, others⟩ := ih first second rest
        exact ⟨congrArg (b :: ·) tails, others⟩

/-- `k` bytes write less than `128 ^ k`. -/
theorem value_lt (p : List UInt8) : value p < 128 ^ p.length := by
  induction p with
  | nil => exact Nat.one_pos
  | cons b tail ih =>
    rw [value, List.length_cons, Nat.pow_succ']
    omega

theorem value_append (p q : List UInt8) : value (p ++ q) = value p + 128 ^ p.length * value q := by
  induction p with
  | nil => simp [value]
  | cons b tail ih =>
    calc value (b :: tail ++ q)
        = b.toNat % 128 + 128 * (value tail + 128 ^ tail.length * value q) := by rw [List.cons_append, value, ih]
      _ = value (b :: tail) + 128 ^ (b :: tail).length * value q := by
        rw [value, List.length_cons, Nat.pow_succ', Nat.mul_add, Nat.mul_assoc, Nat.add_assoc]

/-- The byte that ends a number writes its highest group. -/
theorem value_last {c : UInt8} (stop : c.toNat < 128) (front : List UInt8) :
    value (front ++ [c]) = value front + 128 ^ front.length * c.toNat := by
  rw [value_append, value, value, Nat.mod_eq_of_lt stop, Nat.mul_zero, Nat.add_zero]

end Leb128
