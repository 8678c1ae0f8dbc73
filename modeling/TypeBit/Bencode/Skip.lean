import TypeBit.Bencode.Grammar

/-! The raw skipper against the grammar. Wherever a text of the grammar stands, a skip that
succeeds ends exactly where the text ends, whatever its own nesting budget is. -/

namespace TypeBit.Bencode
open Window TypeBit.Bencode.Parser

def Follows {γ : Type} (input : Bytes) (skip : Nat → Result Nat) (Token : Bytes → γ → Prop) : Prop :=
  ∀ pos next s v, Token s v → At input pos s → skip pos = .ok next → next = pos + s.length

theorem skipIntLoop_stop {input : Bytes} {n pos next : Nat} {saw : Bool} {ds : Bytes}
    (here : At input pos (ds ++ [ch 'e'])) (clean : ch 'e' ∉ ds)
    (skipped : skipIntLoop input n pos saw = .ok next) : next = pos + ds.length + 1 := by
  induction n generalizing pos saw ds with
  | zero => simp [skipIntLoop] at skipped
  | succ n ih =>
    obtain ⟨c, byte, rest⟩ := bind_eq_ok.mp skipped
    rw [byteAt_ok] at byte
    cases ds with
    | nil =>
      rw [List.nil_append, at_cons, byte] at here
      have closing : c = ch 'e' := by simpa using here.1
      rw [if_pos closing] at rest
      split_ifs at rest
      cases rest
      rfl
    | cons d ds =>
      rw [List.cons_append, at_cons, byte] at here
      have same : c = d := by simpa using here.1
      simp only [List.mem_cons, not_or] at clean
      have notClosing : c ≠ ch 'e' := by
        rw [same]
        exact Ne.symm clean.1
      rw [if_neg notClosing] at rest
      have stop : next = pos + 1 + ds.length + 1 := by
        split_ifs at rest
        · exact ih here.2 clean.2 rest
        · exact ih here.2 clean.2 rest
      rw [stop, List.length_cons]
      omega

theorem skipString_follows (input : Bytes) : Follows input (skipString input) StrToken := by
  intro pos next s payload token here skipped
  obtain ⟨ds, rfl, nonempty, short, digits, lenEq, small⟩ := token
  rw [List.append_cons, at_append] at here
  unfold skipString at skipped
  rw [stringLen_of_token here.1 nonempty short digits lenEq small] at skipped
  simp only [bind, Except.bind] at skipped
  split_ifs at skipped
  cases skipped
  simp only [List.length_append, List.length_cons]
  omega

section Loops
variable {input : Bytes} {skip : Nat → Result Nat} {Token : Bytes → BVal → Prop}

theorem skipListLoop_follows (follows : Follows input skip Token) (opens : Opens Token) {n pos next : Nat}
    {items : List BVal} {ts : List Bytes} (tokens : List.Forall₂ Token ts items)
    (here : At input pos (ts.flatten ++ [ch 'e'])) (skipped : skipListLoop input skip n pos = .ok next) :
    next = pos + ts.flatten.length + 1 := by
  induction n generalizing pos ts items with
  | zero => simp [skipListLoop] at skipped
  | succ n ih =>
    obtain ⟨c, byte, rest⟩ := bind_eq_ok.mp skipped
    rw [byteAt_ok] at byte
    cases tokens with
    | nil =>
      rw [List.flatten_nil, List.nil_append, at_cons, byte] at here
      have closing : c = ch 'e' := by simpa using here.1
      rw [if_pos closing] at rest
      cases rest
      rfl
    | @cons t item ts items token tokens =>
      rw [List.flatten_cons, List.append_assoc, at_append] at here
      obtain ⟨d, tail, opening, notClosing⟩ := opens t item token
      have first : c = d := by
        have start := here.1
        rw [opening, at_cons, byte] at start
        simpa using start.1
      rw [if_neg (first ▸ notClosing)] at rest
      obtain ⟨mid, inner, more⟩ := bind_eq_ok.mp rest
      have moved := follows pos mid t item token here.1 inner
      rw [moved] at more
      rw [ih tokens here.2 more, List.flatten_cons, List.length_append]
      omega

theorem skipDictLoop_follows (follows : Follows input skip Token) {n pos next count : Nat}
    {entries : List (Bytes × BVal)} {ts : List Bytes} (tokens : List.Forall₂ (EntryToken Token) ts entries)
    (here : At input pos (ts.flatten ++ [ch 'e']))
    (skipped : skipDictLoop input skip n pos count = .ok next) : next = pos + ts.flatten.length + 1 := by
  induction n generalizing pos count ts entries with
  | zero => simp [skipDictLoop] at skipped
  | succ n ih =>
    obtain ⟨c, byte, rest⟩ := bind_eq_ok.mp skipped
    rw [byteAt_ok] at byte
    cases tokens with
    | nil =>
      rw [List.flatten_nil, List.nil_append, at_cons, byte] at here
      have closing : c = ch 'e' := by simpa using here.1
      rw [if_pos closing] at rest
      cases rest
      rfl
    | @cons t e ts entries token tokens =>
      obtain ⟨key, item⟩ := e
      obtain ⟨kt, vt, rfl, keyToken, valueToken⟩ := token
      rw [List.flatten_cons, List.append_assoc, List.append_assoc, at_append, at_append] at here
      obtain ⟨d, tail, opening, digit⟩ := keyToken.opens
      have first : c = d := by
        have start := here.1
        rw [opening, at_cons, byte] at start
        simpa using start.1
      have notClosing : c ≠ ch 'e' := first ▸ isDigit_ne digit (by decide)
      have keyDigit : ¬ ¬ isDigit c = true := not_not.mpr (first ▸ digit)
      rw [if_neg notClosing, if_neg keyDigit] at rest
      obtain ⟨mid, keySkip, more⟩ := bind_eq_ok.mp rest
      obtain ⟨stop, valueSkip, loop⟩ := bind_eq_ok.mp more
      split_ifs at loop with full
      have keyEnd := skipString_follows input pos mid kt key keyToken here.1 keySkip
      rw [keyEnd] at valueSkip
      have valueEnd := follows (pos + kt.length) stop vt item valueToken here.2.1 valueSkip
      rw [valueEnd] at loop
      rw [ih tokens here.2.2 loop, List.flatten_cons, List.length_append, List.length_append]
      omega

end Loops

theorem skipWithin_follows (input : Bytes) (depth budget : Nat) :
    Follows input (skipWithin input budget) (Denotes depth) := by
  induction depth generalizing budget with
  | zero =>
    intro pos next s v denotes
    exact denotes.elim
  | succ depth ih =>
    intro pos next s v denotes here skipped
    cases budget with
    | zero => simp [skipWithin] at skipped
    | succ budget =>
      obtain ⟨c, byte, rest⟩ := bind_eq_ok.mp skipped
      rw [byteAt_ok] at byte
      cases v with
      | int i =>
        obtain ⟨ds, rfl, clean, -⟩ := denotes
        rw [List.cons_append, at_cons, byte] at here
        have opening : c = ch 'i' := by simpa using here.1
        rw [if_pos opening] at rest
        rw [skipIntLoop_stop here.2 clean rest]
        simp only [List.length_append, List.length_cons, List.length_nil]
        omega
      | bytes b =>
        obtain ⟨d, tail, opening, digit⟩ := StrToken.opens denotes
        have first : c = d := by
          have start := here
          rw [opening, at_cons, byte] at start
          simpa using start.1
        rw [first, if_neg (isDigit_ne digit (by decide)), if_neg (isDigit_ne digit (by decide)),
          if_neg (isDigit_ne digit (by decide)), if_pos digit] at rest
        exact skipString_follows input pos next s b denotes here rest
      | list items =>
        obtain ⟨ts, rfl, tokens, -⟩ := denotes
        rw [List.cons_append, at_cons, byte] at here
        have opening : c = ch 'l' := by simpa using here.1
        rw [opening, if_neg (by decide), if_pos rfl] at rest
        rw [skipListLoop_follows (ih budget) (Denotes.opens depth) tokens here.2 rest]
        simp only [List.length_append, List.length_cons, List.length_nil]
        omega
      | dict m =>
        obtain ⟨ts, entries, rfl, tokens, -⟩ := denotes
        rw [List.cons_append, at_cons, byte] at here
        have opening : c = ch 'd' := by simpa using here.1
        rw [opening, if_neg (by decide), if_neg (by decide), if_pos rfl] at rest
        rw [skipDictLoop_follows (ih budget) tokens here.2 rest]
        simp only [List.length_append, List.length_cons, List.length_nil]
        omega

/-! ### The range of a value -/

end TypeBit.Bencode
