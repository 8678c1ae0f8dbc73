import Mathlib.Algebra.Order.Ring.Int
import Mathlib.Data.List.Basic
import Mathlib.Data.List.ReduceOption
import Mathlib.Tactic.Common

/-! Windows of a list addressed by position, and readers that consume a token at a position. -/

namespace Window
variable {β α : Type*}

/-- The token `s` stands at position `pos` of `input`. -/
def At (input : List β) (pos : Nat) (s : List β) : Prop := s <+: input.drop pos

theorem at_nil (input : List β) (pos : Nat) : At input pos [] := List.nil_prefix

theorem at_cons (input : List β) (pos : Nat) (c : β) (s : List β) :
    At input pos (c :: s) ↔ input[pos]? = some c ∧ At input (pos + 1) s := by
  unfold At
  constructor
  · rintro ⟨rest, whole⟩
    have head : (input.drop pos)[0]? = some c := by rw [← whole]; simp
    have tail : input.drop (pos + 1) = s ++ rest := by
      rw [← List.drop_drop, ← whole]
      simp
    exact ⟨by simpa using head, ⟨rest, tail.symm⟩⟩
  · rintro ⟨head, rest, tail⟩
    refine ⟨rest, ?_⟩
    obtain ⟨bound, value⟩ := List.getElem?_eq_some_iff.mp head
    rw [List.drop_eq_getElem_cons bound, value, ← tail]
    rfl

theorem at_append (input : List β) (pos : Nat) (s t : List β) :
    At input pos (s ++ t) ↔ At input pos s ∧ At input (pos + s.length) t := by
  induction s generalizing pos with
  | nil => simp [at_nil]
  | cons c s ih =>
    rw [List.cons_append, at_cons, at_cons, ih, and_assoc, List.length_cons, Nat.add_right_comm,
      ← Nat.add_assoc]

theorem at_self (s rest : List β) : At (s ++ rest) 0 s := by simp [At]

theorem at_middle (front s rest : List β) : At (front ++ s ++ rest) front.length s := by
  simp [At, List.append_assoc]

theorem at_whole (input : List β) : At input 0 input := by simp [At]

/-- A non-empty token ends inside the input. -/
theorem At.end_le {input : List β} {pos : Nat} {s : List β} (here : At input pos s) (nonempty : s ≠ []) :
    pos + s.length ≤ input.length := by
  have bound := here.length_le
  rw [List.length_drop] at bound
  have positive := List.length_pos_iff.mpr nonempty
  omega

/-- A token that is a prefix of the rest is what the rest starts with. -/
theorem At.take_drop {input : List β} {pos : Nat} {s : List β} (here : At input pos s) :
    (input.drop pos).take s.length = s := by
  obtain ⟨rest, whole⟩ := here
  rw [← whole]
  simp

theorem at_take_drop (input : List β) (pos len : Nat) (inside : pos + len ≤ input.length) :
    At input pos ((input.drop pos).take len) ∧ ((input.drop pos).take len).length = len := by
  refine ⟨List.take_prefix _ _, ?_⟩
  rw [List.length_take, List.length_drop]
  omega

/-- `read` consumes exactly the tokens that `Token` describes. -/
def Reads {ε : Type*} (input : List β) (read : Nat → Except ε (α × Nat)) (Token : List β → α → Prop) : Prop :=
  ∀ pos v next, read pos = .ok (v, next) ↔ ∃ s, Token s v ∧ At input pos s ∧ next = pos + s.length

/-- A reader finds at most one token at a position. -/
theorem Reads.unique {ε : Type*} {input : List β} {read : Nat → Except ε (α × Nat)} {Token : List β → α → Prop}
    (reads : Reads input read Token) {pos : Nat} {s t : List β} {v w : α} (first : Token s v)
    (second : Token t w) (here : At input pos s) (there : At input pos t) : s = t ∧ v = w := by
  have one := (reads pos v (pos + s.length)).mpr ⟨s, first, here, rfl⟩
  have two := (reads pos w (pos + t.length)).mpr ⟨t, second, there, rfl⟩
  rw [one] at two
  simp only [Except.ok.injEq, Prod.mk.injEq] at two
  have sameLength : s.length = t.length := by omega
  exact ⟨(List.prefix_of_prefix_length_le here there (by omega)).eq_of_length sameLength, two.1⟩

theorem tokens_unique {γ : Type*} {Token : γ → Prop} {text : γ → List β} {stop : β}
    (free : ∀ a b x y, Token a → Token b → text a ++ x = text b ++ y → a = b)
    (opens : ∀ a, Token a → ∃ c tail, text a = c :: tail ∧ c ≠ stop) {as bs : List γ} (first : ∀ a ∈ as, Token a)
    (second : ∀ b ∈ bs, Token b) (same : (as.map text).flatten ++ [stop] = (bs.map text).flatten ++ [stop]) :
    as = bs := by
  induction as generalizing bs with
  | nil =>
    cases bs with
    | nil => rfl
    | cons b bs =>
      obtain ⟨c, tail, opening, other⟩ := opens b (second b List.mem_cons_self)
      rw [List.map_cons, List.flatten_cons, opening] at same
      exact absurd (List.cons.inj same).1.symm other
  | cons a as ih =>
    cases bs with
    | nil =>
      obtain ⟨c, tail, opening, other⟩ := opens a (first a List.mem_cons_self)
      rw [List.map_cons, List.flatten_cons, opening] at same
      exact absurd (List.cons.inj same).1 other
    | cons b bs =>
      rw [List.map_cons, List.map_cons, List.flatten_cons, List.flatten_cons, List.append_assoc, List.append_assoc]
        at same
      obtain rfl := free a b _ _ (first a List.mem_cons_self) (second b List.mem_cons_self) same
      have rest := ih (fun t member => first t (List.mem_cons_of_mem _ member))
        (fun t member => second t (List.mem_cons_of_mem _ member)) (List.append_cancel_left same)
      rw [rest]

end Window

/-! ### A stream cut into numbered chunks, some of them lost before they left -/

/-- The chunks of a stream in order; `none` is a number under which nothing was sent. -/
abbrev Chunks (α : Type*) := List (Option (List α))

namespace Chunks
variable {α : Type*}

/-- The stream that the chunks make up. -/
def joined (chunks : Chunks α) : List α := chunks.reduceOption.flatten

@[simp] theorem joined_nil : joined ([] : Chunks α) = [] := rfl

theorem joined_append (front back : Chunks α) : joined (front ++ back) = joined front ++ joined back := by
  rw [joined, List.reduceOption_append, List.flatten_append]
  rfl

@[simp] theorem joined_some (piece : List α) : joined [some piece] = piece := by
  simp [joined, List.reduceOption]

@[simp] theorem joined_none : joined [(none : Option (List α))] = [] := by
  simp [joined, List.reduceOption]

theorem joined_take_succ {chunks : Chunks α} {n : Nat} {piece : List α} (here : chunks[n]? = some (some piece)) :
    joined (chunks.take (n + 1)) = joined (chunks.take n) ++ piece := by
  rw [List.take_add_one, here, joined_append]
  exact congrArg _ (joined_some piece)

/-- What the first chunks make up starts the stream. -/
theorem joined_take_isPrefix (chunks : Chunks α) (n : Nat) : joined (chunks.take n) <+: joined chunks := by
  refine ⟨joined (chunks.drop n), ?_⟩
  rw [← joined_append, List.take_append_drop]

end Chunks
