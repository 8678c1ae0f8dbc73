import TypeBit.Link.Text

/-! Texts: byte strings that are valid UTF-8, and the text a lossy reading makes of any bytes. -/

namespace TypeBit.Link
open Wire Trackers

inductive OneChar : Bytes → Prop where
  | one {a : UInt8} : a < 0x80 → OneChar [a]
  | two {a b : UInt8} : 0xC2 ≤ a → a ≤ 0xDF → isCont b = true → OneChar [a, b]
  | three {a b c : UInt8} : 0xE0 ≤ a → a ≤ 0xEF → secondOk a b = true → isCont c = true → OneChar [a, b, c]
  | four {a b c d : UInt8} : 0xF0 ≤ a → a ≤ 0xF4 → secondOk a b = true → isCont c = true → isCont d = true →
      OneChar [a, b, c, d]

theorem OneChar.ne_nil {c : Bytes} (char : OneChar c) : c ≠ [] := by
  cases char <;> exact List.cons_ne_nil _ _

theorem not_small {a lo : UInt8} (wide : 0x80 ≤ lo) (low : lo ≤ a) : ¬ a < 0x80 := not_lt.mpr (le_trans wide low)

theorem not_between {a lo hi : UInt8} (less : hi < lo) (low : lo ≤ a) (x : UInt8) : ¬ (x ≤ a ∧ a ≤ hi) :=
  fun both => absurd (lt_of_lt_of_le less low) (not_lt.mpr both.2)

section Reading
variable {c : Bytes} (n : Nat) (rest : Bytes)

theorem utf8Valid_append (char : OneChar c) : utf8Valid (n + 1) (c ++ rest) = utf8Valid n rest := by
  cases char with
  | one small => exact if_pos small
  | two low high cont =>
    have wide := not_small (by decide) low
    simp [utf8Valid, if_neg wide, low, high, cont]
  | three low high second cont =>
    have wide := not_small (by decide) low
    have two := not_between (by decide : (0xDF : UInt8) < 0xE0) low 0xC2
    simp [utf8Valid, if_neg wide, if_neg two, low, high, second, cont]
  | four low high second cont last =>
    have wide := not_small (by decide) low
    have two := not_between (by decide : (0xDF : UInt8) < 0xF0) low 0xC2
    have three := not_between (by decide : (0xEF : UInt8) < 0xF0) low 0xE0
    simp [utf8Valid, if_neg wide, if_neg two, if_neg three, low, high, second, cont, last]

theorem lossyChars_append (char : OneChar c) : lossyChars (n + 1) (c ++ rest) = c :: lossyChars n rest := by
  cases char with
  | one small => exact if_pos small
  | two low high cont =>
    have wide := not_small (by decide) low
    simp [lossyChars, if_neg wide, low, high, cont]
  | three low high second cont =>
    have wide := not_small (by decide) low
    have two := not_between (by decide : (0xDF : UInt8) < 0xE0) low 0xC2
    simp [lossyChars, if_neg wide, if_neg two, low, high, second, cont]
  | four low high second cont last =>
    have wide := not_small (by decide) low
    have two := not_between (by decide : (0xDF : UInt8) < 0xF0) low 0xC2
    have three := not_between (by decide : (0xEF : UInt8) < 0xF0) low 0xE0
    simp [lossyChars, if_neg wide, if_neg two, if_neg three, low, high, second, cont, last]

end Reading

theorem exists_char {n : Nat} {a : UInt8} {tail : Bytes} (valid : utf8Valid (n + 1) (a :: tail) = true) :
    ∃ c rest, a :: tail = c ++ rest ∧ OneChar c ∧ utf8Valid n rest = true := by
  unfold utf8Valid at valid
  split_ifs at valid with one two three four
  · exact ⟨[a], tail, rfl, .one one, valid⟩
  · split at valid
    · rename_i b tail
      simp only [Bool.and_eq_true] at valid
      exact ⟨[a, b], tail, rfl, .two two.1 two.2 valid.1, valid.2⟩
    · cases valid
  · split at valid
    · rename_i b c tail
      simp only [Bool.and_eq_true] at valid
      exact ⟨[a, b, c], tail, rfl, .three three.1 three.2 valid.1.1 valid.1.2, valid.2⟩
    · cases valid
  · split at valid
    · rename_i b c d tail
      simp only [Bool.and_eq_true] at valid
      exact ⟨[a, b, c, d], tail, rfl, .four four.1 four.2 valid.1.1.1 valid.1.1.2 valid.1.2, valid.2⟩
    · cases valid

theorem oneChar_broken : OneChar [0xEF, 0xBF, 0xBD] := .three (by decide) (by decide) (by decide) (by decide)

theorem lossyChars_one (n : Nat) (b : Bytes) : ∀ c ∈ lossyChars n b, OneChar c := by
  induction n generalizing b with
  | zero => cases b <;> exact fun c member => absurd member List.not_mem_nil
  | succ n ih =>
    have next {c : Bytes} (char : OneChar c) (rest : Bytes) : ∀ d ∈ c :: lossyChars n rest, OneChar d :=
      List.forall_mem_cons.mpr ⟨char, ih rest⟩
    have last : ∀ c ∈ [[0xEF, 0xBF, 0xBD]], OneChar c := List.forall_mem_singleton.mpr oneChar_broken
    cases b with
    | nil => exact fun c member => absurd member List.not_mem_nil
    | cons a tail =>
      unfold lossyChars
      split_ifs with one two three four
      · exact next (.one one) tail
      · cases tail with
        | nil => exact last
        | cons b more =>
          dsimp only
          split_ifs with cont
          · exact next (.two two.1 two.2 cont) more
          · exact next oneChar_broken _
      · cases tail with
        | nil => exact last
        | cons b more =>
          dsimp only
          split_ifs with second
          · exact next oneChar_broken _
          · cases more with
            | nil => exact last
            | cons c rest =>
              dsimp only
              split_ifs with cont
              · exact next (.three three.1 three.2 (by simpa using second) cont) rest
              · exact next oneChar_broken _
      · cases tail with
        | nil => exact last
        | cons b more =>
          dsimp only
          split_ifs with second
          · exact next oneChar_broken _
          · cases more with
            | nil => exact last
            | cons c rest =>
              dsimp only
              split_ifs with cont
              · exact next oneChar_broken _
              · cases rest with
                | nil => exact last
                | cons d final =>
                  dsimp only
                  split_ifs with closing
                  · exact next (.four four.1 four.2 (by simpa using second) (by simpa using cont) closing) final
                  · exact next oneChar_broken _
      · exact next oneChar_broken _

theorem lossyChars_valid {n : Nat} {b : Bytes} (valid : utf8Valid n b = true) : (lossyChars n b).flatten = b := by
  induction n generalizing b with
  | zero =>
    cases b with
    | nil => rfl
    | cons a tail => exact absurd valid Bool.false_ne_true
  | succ n ih =>
    cases b with
    | nil => rfl
    | cons a tail =>
      obtain ⟨c, rest, split, char, more⟩ := exists_char valid
      rw [split, lossyChars_append n rest char, List.flatten_cons, ih more]

theorem utf8Valid_ascii {s : Bytes} (small : ∀ c ∈ s, c < 0x80) : utf8Valid s.length s = true := by
  induction s with
  | nil => rfl
  | cons a tail ih =>
    have rest := ih fun c member => small c (List.mem_cons_of_mem a member)
    exact (utf8Valid_append tail.length tail (.one (small a List.mem_cons_self))).trans rest

theorem utf8Valid_flatten {chars : List Bytes} (all : ∀ c ∈ chars, OneChar c) {n : Nat} (enough : chars.length ≤ n) :
    utf8Valid n chars.flatten = true := by
  induction chars generalizing n with
  | nil => cases n <;> rfl
  | cons c chars ih =>
    cases n with
    | zero => exact absurd enough (Nat.not_succ_le_zero _)
    | succ n =>
      rw [List.flatten_cons, utf8Valid_append n chars.flatten (all c List.mem_cons_self)]
      exact ih (fun d member => all d (List.mem_cons_of_mem c member)) (Nat.le_of_succ_le_succ enough)

theorem length_le_flatten {chars : List Bytes} (all : ∀ c ∈ chars, OneChar c) : chars.length ≤ chars.flatten.length := by
  induction chars with
  | nil => exact Nat.le_refl 0
  | cons c chars ih =>
    have filled := List.length_pos_iff.mpr (all c List.mem_cons_self).ne_nil
    have rest := ih fun d member => all d (List.mem_cons_of_mem c member)
    rw [List.flatten_cons, List.length_append, List.length_cons]
    omega

/-! ### Texts -/

abbrev Text := { b : Bytes // utf8Valid b.length b = true }

namespace Text

def fromUtf8Lossy (b : Bytes) : Text :=
  ⟨(lossyChars b.length b).flatten,
    utf8Valid_flatten (lossyChars_one _ _) (length_le_flatten (lossyChars_one _ _))⟩

@[simp] theorem fromUtf8Lossy_val (t : Text) : fromUtf8Lossy t.val = t := Subtype.ext (lossyChars_valid t.property)

theorem fromUtf8Lossy_ascii {s : Bytes} (small : ∀ c ∈ s, c < 0x80) : (fromUtf8Lossy s).val = s :=
  lossyChars_valid (utf8Valid_ascii small)

end Text
end TypeBit.Link
