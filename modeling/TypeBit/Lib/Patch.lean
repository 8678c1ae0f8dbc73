import Mathlib.Algebra.Order.Ring.Int
import Mathlib.Data.List.Basic
import Mathlib.Tactic.Common

/-! Stores as total functions of the position, runs of consecutive elements laid over them, and
when a run agrees with a store. -/

namespace Patch
variable {β : Type*}

/-- The store `f` with the run `b` laid over it from position `o` on. -/
def patch (f : Nat → β) (o : Nat) (b : List β) : Nat → β := fun p =>
  if o ≤ p then (b[p - o]?).getD (f p) else f p

/-- The run `b` at `o` shows what the store holds there. -/
def Agrees (f : Nat → β) (o : Nat) (b : List β) : Prop := ∀ i < b.length, b[i]? = some (f (o + i))

theorem agrees_nil (f : Nat → β) (o : Nat) : Agrees f o [] := by
  intro i below
  simp at below

variable {f : Nat → β} {o n p : Nat}

theorem agrees_append {a b : List β} (first : Agrees f o a) (second : Agrees f (o + a.length) b) : Agrees f o (a ++ b) := by
  intro i below
  by_cases inFirst : i < a.length
  · rw [List.getElem?_append_left inFirst]
    exact first i inFirst
  · rw [List.length_append] at below
    rw [List.getElem?_append_right (by omega), second (i - a.length) (by omega)]
    congr 2
    omega

variable {b part : List β}

theorem Agrees.take (agrees : Agrees f o b) : Agrees f o (b.take n) := by
  intro i below
  rw [List.length_take] at below
  rw [List.getElem?_take_of_lt (by omega)]
  exact agrees i (by omega)

theorem Agrees.drop (agrees : Agrees f o b) : Agrees f (o + n) (b.drop n) := by
  intro i below
  rw [List.length_drop] at below
  rw [List.getElem?_drop, agrees (n + i) (by omega), Nat.add_assoc]

theorem Agrees.congr {f g : Nat → β} (agrees : Agrees f o b)
    (same : ∀ p, o ≤ p → p < o + b.length → g p = f p) : Agrees g o b := by
  intro i below
  rw [agrees i below, same (o + i) (by omega) (by omega)]

theorem patch_inside (start : o ≤ p) (inside : p < o + b.length) : b[p - o]? = some (patch f o b p) := by
  have bound : p - o < b.length := by omega
  simp [patch, start, List.getElem?_eq_getElem bound]

theorem patch_outside (outside : p < o ∨ o + b.length ≤ p) : patch f o b p = f p := by
  unfold patch
  split_ifs with start
  · rw [List.getElem?_eq_none (by omega), Option.getD_none]
  · rfl

theorem agrees_patch (f : Nat → β) (o : Nat) (b : List β) : Agrees (patch f o b) o b := by
  intro i below
  have inside := patch_inside (f := f) (Nat.le_add_right o i) (Nat.add_lt_add_left below o)
  rwa [Nat.add_sub_cancel_left] at inside

/-- Laying over a run what the target already shows brings the store to the target there. -/
theorem patch_of_agrees {f g : Nat → β} (agrees : Agrees g o b) (start : o ≤ p)
    (inside : p < o + b.length) : patch f o b p = g p := by
  have shown := agrees (p - o) (by omega)
  rw [patch_inside (f := f) start inside, Nat.add_sub_cancel' start] at shown
  exact Option.some.inj shown

/-! ### Overwriting part of a list -/

/-- The list `b` with `part` written over it from position `o` on. -/
def splice (b : List β) (o : Nat) (part : List β) : List β := b.take o ++ part ++ b.drop (o + part.length)

theorem length_splice (fits : o + part.length ≤ b.length) : (splice b o part).length = b.length := by
  simp only [splice, List.length_append, List.length_take, List.length_drop]
  omega

theorem getElem?_splice (fits : o + part.length ≤ b.length) (i : Nat) :
    (splice b o part)[i]? = if o ≤ i ∧ i < o + part.length then part[i - o]? else b[i]? := by
  have front : (b.take o).length = o := by
    rw [List.length_take]
    omega
  unfold splice
  split_ifs with inside
  · rw [List.getElem?_append_left (by rw [List.length_append, front]; omega),
      List.getElem?_append_right (by omega), front]
  · by_cases before : i < o
    · rw [List.append_assoc, List.getElem?_append_left (by omega), List.getElem?_take_of_lt before]
    · rw [List.getElem?_append_right (by rw [List.length_append, front]; omega), List.length_append, front,
        List.getElem?_drop]
      congr 1
      omega

theorem window_splice (fits : o + part.length ≤ b.length)
    (full : part.length = min n (b.length - o)) : ((splice b o part).drop o).take n = part := by
  apply List.ext_getElem?
  intro i
  rw [List.getElem?_take, List.getElem?_drop, getElem?_splice fits]
  by_cases inside : i < part.length
  · rw [if_pos (by omega), if_pos (by omega), Nat.add_sub_cancel_left]
  · rw [List.getElem?_eq_none (Nat.le_of_not_lt inside)]
    split_ifs
    · omega
    · exact List.getElem?_eq_none (by omega)
    · rfl

theorem window_splice_apart {o q n : Nat} (fits : o + part.length ≤ b.length)
    (apart : q + n ≤ o ∨ o + part.length ≤ q) : ((splice b o part).drop q).take n = (b.drop q).take n := by
  apply List.ext_getElem?
  intro i
  rw [List.getElem?_take, List.getElem?_take, List.getElem?_drop, List.getElem?_drop, getElem?_splice fits]
  split_ifs with near inside
  · omega
  · rfl
  · rfl

/-! ### Windows in order of arrival -/

/-- The value a window at an offset has for a position, if it covers it. -/
def covering (win : Nat × List β) (p : Nat) : Option β := if win.1 ≤ p then win.2[p - win.1]? else none

/-- The value of the first window that covers a position. -/
def first (wins : List (Nat × List β)) (p : Nat) : Option β := wins.findSome? (fun win => covering win p)

theorem first_append (wins : List (Nat × List β)) (win : Nat × List β) (p : Nat) :
    first (wins ++ [win]) p = (first wins p).or (covering win p) := by
  simp [first, List.findSome?_append]

theorem isSome_covering (o : Nat) (b : List β) (p : Nat) :
    (covering (o, b) p).isSome ↔ o ≤ p ∧ p < o + b.length := by
  unfold covering
  dsimp only
  split_ifs with start
  · rw [isSome_getElem?]
    omega
  · simp only [Option.isSome_none, Bool.false_eq_true, false_iff]
    omega

end Patch
