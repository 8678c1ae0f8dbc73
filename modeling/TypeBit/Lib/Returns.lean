import Mathlib.Tactic.Common

/-! Fallible computations: that one does not fail, and what it returns, put together along its steps. -/

/-- The computation does not fail, and what it returns has the property. -/
def Returns {ε α : Type} (m : Except ε α) (post : α → Prop) : Prop := ∃ a, m = .ok a ∧ post a

namespace Returns
variable {ε α β : Type} {post : α → Prop} {later : β → Prop}

theorem ok {a : α} (holds : post a) : Returns (.ok a : Except ε α) post := ⟨a, rfl, holds⟩

theorem ret {a : α} (holds : post a) : Returns (pure a : Except ε α) post := ⟨a, rfl, holds⟩

theorem bind {m : Except ε α} {f : α → Except ε β} (first : Returns m post) (rest : ∀ a, post a → Returns (f a) later) :
    Returns (m >>= f) later := by
  obtain ⟨a, rfl, holds⟩ := first
  exact rest a holds

theorem mono {m : Except ε α} {weaker : α → Prop} (first : Returns m post) (weaken : ∀ a, post a → weaker a) :
    Returns m weaker := by
  obtain ⟨a, same, holds⟩ := first
  exact ⟨a, same, weaken a holds⟩

/-- The rule for a loop that counts up. -/
theorem range {f : β → Nat → Except ε β} (inv : Nat → β → Prop) {n : Nat} {b : β} (start : inv 0 b)
    (step : ∀ i b, i < n → inv i b → Returns (f b i) (inv (i + 1))) : Returns ((List.range n).foldlM f b) (inv n) := by
  induction n with
  | zero => exact .ret start
  | succ n ih =>
    rw [List.range_succ, List.foldlM_append]
    apply (ih fun i b below => step i b (Nat.lt_succ_of_lt below)).bind
    intro c reached
    rw [List.foldlM_cons]
    apply (step n c (Nat.lt_succ_self n) reached).bind
    intro d next
    exact .ret next

/-- The rule for a loop that counts down. -/
theorem range_reverse {f : β → Nat → Except ε β} (inv : Nat → β → Prop) {n : Nat} {b : β} (start : inv n b)
    (step : ∀ i b, i < n → inv (i + 1) b → Returns (f b i) (inv i)) :
    Returns ((List.range n).reverse.foldlM f b) (inv 0) := by
  induction n generalizing b with
  | zero => exact .ret start
  | succ n ih =>
    rw [List.range_succ, List.reverse_append, List.reverse_singleton, List.singleton_append, List.foldlM_cons]
    apply (step n b (Nat.lt_succ_self n) start).bind
    intro c next
    exact ih next fun i b below => step i b (Nat.lt_succ_of_lt below)

/-- The rule for an elementwise loop. -/
theorem mapM {γ : Type} {f : γ → Except ε β} {l : List γ} (g : γ → β) (each : ∀ x ∈ l, f x = .ok (g x)) :
    Returns (l.mapM f) (· = l.map g) := by
  induction l with
  | nil => exact .ret rfl
  | cons x tail ih =>
    rw [List.mapM_cons, each x List.mem_cons_self]
    apply (ih fun y member => each y (List.mem_cons_of_mem x member)).bind
    intro rest same
    rw [same]
    exact .ret rfl

end Returns

/-! ### Operations on a state that may fail and keep whatever state they had reached -/

/-- A computation over the state `σ` with errors in `ε`; the state survives an error. -/
def Op (ε σ α : Type) := σ → Except ε α × σ

namespace Op
variable {ε σ α β : Type}

instance : Monad (Op ε σ) where
  pure a := fun s => (.ok a, s)
  bind x f := fun s =>
    match x s with
    | (.ok a, t) => f a t
    | (.error e, t) => (.error e, t)

theorem bind_ok_iff {x : Op ε σ α} {f : α → Op ε σ β} {s t : σ} {b : β} :
    (x >>= f) s = (.ok b, t) ↔ ∃ a u, x s = (.ok a, u) ∧ f a u = (.ok b, t) := by
  rcases run : x s with ⟨_ | a, u⟩ <;> simp [bind, run]

theorem pure_ok_iff {s t : σ} {a b : α} : (pure a : Op ε σ α) s = (.ok b, t) ↔ a = b ∧ s = t := by
  simp [pure]

end Op
