import Mathlib.Algebra.Order.Ring.Int
import Mathlib.Data.List.Basic
import Mathlib.Tactic.Common

/-! Binary trees over a list of leaves: folded level by level, with a lone last node promoted, and the perfect tree of
a given depth. The two agree on a power of two of leaves; the number of inner nodes tells them apart elsewhere. -/

namespace HashTree
variable {α β : Type*}

/-- One level up: neighbours are combined, a lone last node is promoted. -/
def level (node : α → α → α) : List α → List α
  | [] => []
  | [a] => [a]
  | a :: b :: tail => node a b :: level node tail

/-- Levels up until one node is left, at most `n` of them. -/
def climb (node : α → α → α) : Nat → List α → List α
  | 0, l => l
  | n + 1, l => if l.length ≤ 1 then l else climb node n (level node l)

def perfect (node : α → α → α) (blank : α) : Nat → List α → α
  | 0, l => l.headD blank
  | d + 1, l => node (perfect node blank d (l.take (2 ^ d))) (perfect node blank d (l.drop (2 ^ d)))

/-- The leaves, filled up to `width` with blank ones. -/
def padded (blank : α) (width : Nat) (leaves : List α) : List α := leaves ++ List.replicate (width - leaves.length) blank

section Perfect
variable (node : α → α → α) (blank : α)

theorem length_level (l : List α) : (level node l).length = (l.length + 1) / 2 := by
  fun_induction level node l with
  | case1 => simp
  | case2 a => simp
  | case3 a b tail ih =>
    simp only [List.length_cons, ih]
    omega

theorem level_append {front : List α} (back : List α) {k : Nat} (even : front.length = 2 * k) :
    level node (front ++ back) = level node front ++ level node back := by
  induction k generalizing front with
  | zero =>
    rw [List.length_eq_zero_iff.mp even]
    rfl
  | succ k ih =>
    match front, even with
    | a :: b :: tail, even =>
      have shorter : tail.length = 2 * k := by
        simp only [List.length_cons] at even
        omega
      rw [List.cons_append, List.cons_append, level, level, ih shorter, List.cons_append]

theorem perfect_level {d : Nat} {l : List α} (full : l.length = 2 ^ (d + 1)) :
    perfect node blank d (level node l) = perfect node blank (d + 1) l := by
  induction d generalizing l with
  | zero =>
    match l, full with
    | [a, b], _ => rfl
  | succ d ih =>
    have double : 2 ^ (d + 1 + 1) = 2 * 2 ^ (d + 1) := by rw [Nat.pow_succ, Nat.mul_comm]
    have single : 2 ^ (d + 1) = 2 * 2 ^ d := by rw [Nat.pow_succ, Nat.mul_comm]
    have front : (l.take (2 ^ (d + 1))).length = 2 ^ (d + 1) := by
      rw [List.length_take]
      omega
    have back : (l.drop (2 ^ (d + 1))).length = 2 ^ (d + 1) := by
      rw [List.length_drop]
      omega
    have split : level node l = level node (l.take (2 ^ (d + 1))) ++ level node (l.drop (2 ^ (d + 1))) := by
      rw [← level_append node _ (front.trans single), List.take_append_drop]
    have half : (level node (l.take (2 ^ (d + 1)))).length = 2 ^ d := by
      rw [length_level, front]
      omega
    conv_lhs => rw [perfect, split, List.take_left' half, List.drop_left' half]
    rw [ih front, ih back]
    rfl

theorem climb_perfect {d n : Nat} {l : List α} (full : l.length = 2 ^ d) (fuel : d ≤ n) :
    climb node n l = [perfect node blank d l] := by
  induction d generalizing l n with
  | zero =>
    match l, full with
    | [a], _ =>
      cases n with
      | zero => rfl
      | succ n => rfl
  | succ d ih =>
    obtain ⟨m, rfl⟩ : ∃ m, n = m + 1 := ⟨n - 1, by omega⟩
    have positive : 0 < 2 ^ d := Nat.two_pow_pos d
    have double : 2 ^ (d + 1) = 2 * 2 ^ d := by rw [Nat.pow_succ, Nat.mul_comm]
    have half : (level node l).length = 2 ^ d := by
      rw [length_level]
      omega
    rw [climb, if_neg (by omega), ih half (by omega), perfect_level node blank full]

/-- One node is left when there are enough rounds. -/
theorem length_climb {n : Nat} {l : List α} (fuel : l.length ≤ n + 1) : (climb node n l).length = min l.length 1 := by
  induction n generalizing l with
  | zero =>
    rw [climb]
    omega
  | succ n ih =>
    rw [climb]
    split
    · omega
    · have shorter := length_level node l
      rw [ih (by omega), shorter]
      omega

end Perfect

/-! ### What is combined -/

/-- The neighbours combined on one level. -/
def joins : List α → List (α × α)
  | [] => []
  | [_] => []
  | a :: b :: tail => (a, b) :: joins tail

/-- Those combined on all levels. -/
def allJoins (node : α → α → α) : Nat → List α → List (α × α)
  | 0, _ => []
  | n + 1, l => if l.length ≤ 1 then [] else joins l ++ allJoins node n (level node l)

section Joins
variable {node : α → α → α}

theorem level_injective {l m : List α} (same : l.length = m.length)
    (apart : ∀ p ∈ joins l, ∀ q ∈ joins m, node p.1 p.2 = node q.1 q.2 → p = q) (levels : level node l = level node m) : l = m := by
  induction l using joins.induct generalizing m with
  | case1 => exact (List.length_eq_zero_iff.mp same.symm).symm
  | case2 a =>
    match m, same with
    | [b], _ => exact levels
  | case3 a b tail ih =>
    match m, same with
    | c :: d :: rest, same =>
      obtain ⟨first, tails⟩ := List.cons_eq_cons.mp levels
      obtain ⟨rfl, rfl⟩ := Prod.mk.inj (apart (a, b) List.mem_cons_self (c, d) List.mem_cons_self first)
      have shorter : tail.length = rest.length := Nat.succ.inj (Nat.succ.inj same)
      rw [ih shorter (fun p left q right => apart p (List.mem_cons_of_mem _ left) q (List.mem_cons_of_mem _ right)) tails]

/-- And so from the root. -/
theorem climb_injective {n : Nat} {l m : List α} (same : l.length = m.length)
    (apart : ∀ p ∈ allJoins node n l, ∀ q ∈ allJoins node n m, node p.1 p.2 = node q.1 q.2 → p = q)
    (roots : climb node n l = climb node n m) : l = m := by
  induction n generalizing l m with
  | zero => exact roots
  | succ n ih =>
    rw [climb, climb, ← same] at roots
    simp only [allJoins, ← same] at apart
    by_cases single : l.length ≤ 1
    · rwa [if_pos single, if_pos single] at roots
    · rw [if_neg single, if_neg single] at roots
      simp only [if_neg single, List.mem_append] at apart
      apply level_injective same fun p left q right => apart p (.inl left) q (.inl right)
      apply ih _ (fun p left q right => apart p (.inr left) q (.inr right)) roots
      rw [length_level, length_level, same]

theorem joins_forall {P : α → Prop} {l : List α} (all : ∀ x ∈ l, P x) : ∀ p ∈ joins l, P p.1 ∧ P p.2 := by
  induction l using joins.induct with
  | case1 => exact fun p member => absurd member List.not_mem_nil
  | case2 a => exact fun p member => absurd member List.not_mem_nil
  | case3 a b tail ih =>
    simp only [List.forall_mem_cons] at all
    exact List.forall_mem_cons.mpr ⟨⟨all.1, all.2.1⟩, ih all.2.2⟩

theorem level_forall {P : α → Prop} (closed : ∀ a b, P (node a b)) {l : List α} (all : ∀ x ∈ l, P x) : ∀ x ∈ level node l, P x := by
  fun_induction level node l with
  | case1 => exact all
  | case2 a => exact all
  | case3 a b tail ih =>
    simp only [List.forall_mem_cons] at all
    exact List.forall_mem_cons.mpr ⟨closed a b, ih all.2.2⟩

theorem allJoins_forall {P : α → Prop} (closed : ∀ a b, P (node a b)) {n : Nat} {l : List α} (all : ∀ x ∈ l, P x) :
    ∀ p ∈ allJoins node n l, P p.1 ∧ P p.2 := by
  induction n generalizing l with
  | zero => exact fun p member => absurd member List.not_mem_nil
  | succ n ih =>
    rw [allJoins]
    split_ifs with single
    · exact fun p member => absurd member List.not_mem_nil
    · intro p member
      rcases List.mem_append.mp member with here | above
      · exact joins_forall all p here
      · exact ih (level_forall closed all) p above

/-- The root over `2 ^ d` equal leaves. -/
def doubled (node : α → α → α) (x : α) : Nat → α
  | 0 => x
  | d + 1 => doubled node (node x x) d

theorem joins_replicate (x y : α) (m : Nat) : joins (List.replicate (2 * m) x ++ [y]) = List.replicate m (x, x) := by
  induction m with
  | zero => rfl
  | succ m ih =>
    have two : List.replicate (2 * (m + 1)) x = x :: x :: List.replicate (2 * m) x := rfl
    rw [two, List.cons_append, List.cons_append, joins, ih, List.replicate_succ]

theorem level_replicate (x y : α) (m : Nat) :
    level node (List.replicate (2 * m) x ++ [y]) = List.replicate m (node x x) ++ [y] := by
  induction m with
  | zero => rfl
  | succ m ih =>
    have two : List.replicate (2 * (m + 1)) x = x :: x :: List.replicate (2 * m) x := rfl
    rw [two, List.cons_append, List.cons_append, level, ih, List.replicate_succ, List.cons_append]

theorem climb_singleton (n : Nat) (x : α) : climb node n [x] = [x] := by
  cases n with
  | zero => rfl
  | succ n => rfl

/-- Equal leaves and one more, which is promoted up to the root. -/
theorem climb_replicate {d n : Nat} (x y : α) (fuel : d < n) :
    climb node n (List.replicate (2 ^ d) x ++ [y]) = [node (doubled node x d) y] := by
  induction d generalizing n x with
  | zero =>
    obtain ⟨m, rfl⟩ : ∃ m, n = m + 1 := ⟨n - 1, by omega⟩
    exact climb_singleton m (node x y)
  | succ d ih =>
    obtain ⟨m, rfl⟩ : ∃ m, n = m + 1 := ⟨n - 1, by omega⟩
    have several : ¬ (List.replicate (2 ^ (d + 1)) x ++ [y]).length ≤ 1 := by
      have positive := Nat.two_pow_pos (d + 1)
      rw [List.length_append, List.length_replicate, List.length_singleton]
      omega
    rw [climb, if_neg several, Nat.pow_succ', level_replicate, ih (node x x) (by omega)]
    rfl

/-- What is combined on the way up. -/
theorem mem_allJoins_replicate {d n : Nat} {x y : α} {p : α × α}
    (member : p ∈ allJoins node n (List.replicate (2 ^ d) x ++ [y])) :
    (∃ k < d, p = (doubled node x k, doubled node x k)) ∨ p = (doubled node x d, y) := by
  have none {q : α × α} {m : Nat} {z : α} : ¬ q ∈ allJoins node m [z] := by
    cases m with
    | zero => exact List.not_mem_nil
    | succ m => exact List.not_mem_nil
  induction d generalizing n x with
  | zero =>
    cases n with
    | zero => exact absurd member List.not_mem_nil
    | succ n =>
      rcases List.mem_append.mp (member : p ∈ [(x, y)] ++ allJoins node n [node x y]) with here | above
      · exact .inr (List.mem_singleton.mp here)
      · exact absurd above none
  | succ d ih =>
    cases n with
    | zero => exact absurd member List.not_mem_nil
    | succ n =>
      have several : ¬ (List.replicate (2 ^ (d + 1)) x ++ [y]).length ≤ 1 := by
        have positive := Nat.two_pow_pos (d + 1)
        rw [List.length_append, List.length_replicate, List.length_singleton]
        omega
      rw [allJoins, if_neg several, Nat.pow_succ', joins_replicate, level_replicate] at member
      rcases List.mem_append.mp member with here | above
      · exact .inl ⟨0, Nat.zero_lt_succ d, List.eq_of_mem_replicate here⟩
      · rcases ih above with ⟨k, below, same⟩ | last
        · exact .inl ⟨k + 1, Nat.succ_lt_succ below, same⟩
        · exact .inr last

end Joins

/-! ### Interpretations -/

section Interpretation
variable {node : α → α → α} {other : β → β → β} {f : α → β} (interprets : ∀ a b, f (node a b) = other (f a) (f b))
include interprets

theorem map_level (l : List α) : (level node l).map f = level other (l.map f) := by
  fun_induction level node l with
  | case1 => rfl
  | case2 a => rfl
  | case3 a b tail ih => rw [List.map_cons, ih, interprets, List.map_cons, List.map_cons, level]

theorem map_climb (n : Nat) (l : List α) : (climb node n l).map f = climb other n (l.map f) := by
  induction n generalizing l with
  | zero => rfl
  | succ n ih =>
    rw [climb, climb, List.length_map]
    split
    · rfl
    · rw [ih, map_level interprets]

theorem map_perfect (blank : α) (d : Nat) (l : List α) :
    f (perfect node blank d l) = perfect other (f blank) d (l.map f) := by
  induction d generalizing l with
  | zero => cases l <;> rfl
  | succ d ih => rw [perfect, perfect, interprets, ih, ih, List.map_take, List.map_drop]

end Interpretation

theorem map_padded (f : α → β) (blank : α) (width : Nat) (leaves : List α) :
    (padded blank width leaves).map f = padded (f blank) width (leaves.map f) := by
  rw [padded, padded, List.map_append, List.map_replicate, List.length_map]

/-! ### Counting nodes -/

def weigh (a b : Nat) : Nat := a + b + 1

theorem sum_level (l : List Nat) : (level weigh l).sum + (level weigh l).length = l.sum + l.length := by
  fun_induction level weigh l with
  | case1 => rfl
  | case2 a => rfl
  | case3 a b tail ih =>
    simp only [List.sum_cons, List.length_cons, weigh]
    omega

theorem sum_climb (n : Nat) (l : List Nat) :
    (climb weigh n l).sum + (climb weigh n l).length = l.sum + l.length := by
  induction n generalizing l with
  | zero => rfl
  | succ n ih =>
    rw [climb]
    split
    · rfl
    · rw [ih, sum_level]

/-- The tree that is folded level by level has one inner node less than leaves. -/
theorem weight_climb {n : Nat} {l : List Nat} (fuel : l.length ≤ n + 1) (filled : l ≠ []) (blank : Nat) :
    (climb weigh n l).headD blank + 1 = l.sum + l.length := by
  have some_leaf := List.length_pos_iff.mpr filled
  have single := length_climb weigh fuel
  have counted := sum_climb n l
  match climb weigh n l, single, counted with
  | [], single, _ =>
    simp only [List.length_nil] at single
    omega
  | [a], _, counted => simpa using counted
  | a :: b :: tail, single, _ =>
    simp only [List.length_cons] at single
    omega

theorem weight_perfect {d : Nat} {l : List Nat} (full : l.length = 2 ^ d) (blank : Nat) :
    perfect weigh blank d l + 1 = l.sum + 2 ^ d := by
  induction d generalizing l with
  | zero =>
    match l, full with
    | [a], _ => simp [perfect]
  | succ d ih =>
    have double : 2 ^ (d + 1) = 2 * 2 ^ d := by rw [Nat.pow_succ, Nat.mul_comm]
    have front := ih (l := l.take (2 ^ d)) (by rw [List.length_take]; omega)
    have back := ih (l := l.drop (2 ^ d)) (by rw [List.length_drop]; omega)
    have sum : (l.take (2 ^ d)).sum + (l.drop (2 ^ d)).sum = l.sum := by
      rw [← List.sum_append, List.take_append_drop]
    rw [perfect, weigh]
    omega

end HashTree
