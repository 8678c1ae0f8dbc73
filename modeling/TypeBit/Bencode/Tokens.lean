import TypeBit.Bencode.Parser
import TypeBit.Lib.Window

/-! The two leaf tokens of bencode, strings and integers, and the readers that consume them. -/

namespace TypeBit.Bencode
open Window TypeBit.Bencode.Parser

def digitsFold (start : Nat) (ds : Bytes) : Nat := ds.foldl (fun n c => n * 10 + digitValue c) start

def StrToken (s payload : Bytes) : Prop :=
  ∃ ds : Bytes, s = ds ++ ch ':' :: payload ∧ ds ≠ [] ∧ ds.length ≤ 10 ∧ (∀ c ∈ ds, isDigit c = true) ∧
    digitsFold 0 ds = payload.length ∧ payload.length ≤ MAX_STR_LEN

def IntToken (s : Bytes) (i : Int) : Prop :=
  ∃ ds : Bytes, s = ch 'i' :: ds ++ [ch 'e'] ∧ ch 'e' ∉ ds ∧ ds.length ≤ 24 ∧ parseBencodedInt ds = .ok i

variable {input : Bytes} {pos : Nat}

theorem byteAt_ok {c : UInt8} : byteAt input pos = .ok c ↔ input[pos]? = some c := by
  unfold byteAt
  cases input[pos]? <;> simp

theorem digitsFold_ge (start : Nat) (ds : Bytes) : start ≤ digitsFold start ds := by
  induction ds generalizing start with
  | nil => simp [digitsFold]
  | cons c ds ih =>
    have step := ih (start * 10 + digitValue c)
    simp only [digitsFold, List.foldl_cons] at step ⊢
    omega

theorem isDigit_ne {c d : UInt8} (digit : isDigit c = true) (other : isDigit d = false) : c ≠ d := by
  rintro rfl
  simp [digit] at other

theorem intEnd_ok {start n pos stop : Nat} (after : start ≤ pos) (found : intEnd input start n pos = .ok stop) :
    ∃ ds, At input pos (ds ++ [ch 'e']) ∧ stop = pos + ds.length ∧ ch 'e' ∉ ds ∧ (ds ≠ [] → pos + ds.length ≤ start + 24) := by
  induction n generalizing pos with
  | zero => simp [intEnd] at found
  | succ n ih =>
    obtain ⟨c, here, rest⟩ := bind_eq_ok.mp found
    rw [byteAt_ok] at here
    by_cases closing : c = ch 'e'
    · rw [if_pos closing] at rest
      cases rest
      exact ⟨[], by simp [at_cons, at_nil, here, closing], by simp, by simp, by simp⟩
    · rw [if_neg closing] at rest
      split_ifs at rest with far
      obtain ⟨ds, there, stopEq, clean, near⟩ := ih (by omega) rest
      refine ⟨c :: ds, ?_, ?_, ?_, ?_⟩
      · rw [List.cons_append, at_cons]
        exact ⟨here, there⟩
      · simp only [List.length_cons]
        omega
      · simp only [List.mem_cons, not_or]
        exact ⟨Ne.symm closing, clean⟩
      · intro _
        by_cases last : ds = []
        · simp only [last, List.length_singleton]
          omega
        · have bound := near last
          simp only [List.length_cons]
          omega

theorem intEnd_of_token {start n pos : Nat} {ds : Bytes}
    (here : At input pos (ds ++ [ch 'e'])) (clean : ch 'e' ∉ ds) (fuel : ds.length < n)
    (near : pos + ds.length ≤ start + 24) : intEnd input start n pos = .ok (pos + ds.length) := by
  induction n generalizing pos ds with
  | zero => omega
  | succ n ih =>
    unfold intEnd
    cases ds with
    | nil =>
      rw [List.nil_append, at_cons] at here
      rw [byteAt_ok.mpr here.1]
      rfl
    | cons c ds =>
      rw [List.cons_append, at_cons] at here
      simp only [List.mem_cons, not_or] at clean
      simp only [List.length_cons] at fuel near ⊢
      have step := ih here.2 clean.2 (by omega) (by omega)
      rw [byteAt_ok.mpr here.1]
      simp only [bind, Except.bind, if_neg (Ne.symm clean.1), if_neg (by omega : ¬ pos + 1 - start > 24), step]
      congr 1
      omega

theorem int_ok_iff {pos next : Nat} {v : BVal} (opening : input[pos]? = some (ch 'i')) : int input pos = .ok (v, next) ↔
      ∃ i s, v = .int i ∧ IntToken s i ∧ At input pos s ∧ next = pos + s.length := by
  constructor
  · intro parsed
    obtain ⟨stop, found, rest⟩ := bind_eq_ok.mp parsed
    obtain ⟨i, text, result⟩ := bind_eq_ok.mp rest
    obtain ⟨ds, there, stopEq, clean, near⟩ := intEnd_ok (le_refl _) found
    cases result
    have piece : (input.drop (pos + 1)).take (stop - (pos + 1)) = ds := by
      rw [stopEq, Nat.add_sub_cancel_left]
      exact ((at_append ..).mp there).1.take_drop
    refine ⟨i, ch 'i' :: ds ++ [ch 'e'], rfl, ⟨ds, rfl, clean, ?_, piece ▸ text⟩, ?_, ?_⟩
    · by_cases empty : ds = []
      · simp [empty]
      · have bound := near empty
        omega
    · rw [List.cons_append, at_cons]
      exact ⟨opening, there⟩
    · simp only [List.length_append, List.length_cons, List.length_nil]
      omega
  · rintro ⟨i, s, rfl, ⟨ds, rfl, clean, short, text⟩, here, rfl⟩
    rw [List.cons_append, at_cons] at here
    have stop : intEnd input (pos + 1) 26 (pos + 1) = .ok (pos + 1 + ds.length) :=
      intEnd_of_token here.2 clean (by omega) (by omega)
    have piece : (input.drop (pos + 1)).take (pos + 1 + ds.length - (pos + 1)) = ds := by
      rw [Nat.add_sub_cancel_left]
      exact ((at_append ..).mp here.2).1.take_drop
    unfold int
    simp only [bind, Except.bind, stop, piece, text]
    simp only [List.length_append, List.length_cons, List.length_nil, List.cons_append]
    congr 2
    omega

theorem stringLenLoop_ok {start n pos len total next : Nat} (after : start ≤ pos)
    (found : stringLenLoop input start n pos len = .ok (total, next)) :
    ∃ ds, At input pos (ds ++ [ch ':']) ∧ (∀ c ∈ ds, isDigit c = true) ∧ next = pos + ds.length + 1 ∧
      total = digitsFold len ds ∧ pos + ds.length ≠ start ∧ (ds ≠ [] → total ≤ MAX_STR_LEN ∧ pos + ds.length ≤ start + 10) := by
  induction n generalizing pos len with
  | zero => simp [stringLenLoop] at found
  | succ n ih =>
    obtain ⟨c, here, rest⟩ := bind_eq_ok.mp found
    rw [byteAt_ok] at here
    by_cases digit : isDigit c = true
    · rw [if_pos digit] at rest
      dsimp only at rest
      split_ifs at rest with large far
      obtain ⟨ds, there, digits, nextEq, totalEq, moved, limits⟩ := ih (by omega) rest
      refine ⟨c :: ds, ?_, ?_, ?_, ?_, ?_, ?_⟩
      · rw [List.cons_append, at_cons]
        exact ⟨here, there⟩
      · intro d member
        rcases List.mem_cons.mp member with rfl | later
        · exact digit
        · exact digits d later
      · simp only [List.length_cons]
        omega
      · simpa [digitsFold] using totalEq
      · simp only [List.length_cons]
        omega
      · intro _
        by_cases last : ds = []
        · subst last
          simp only [digitsFold, List.foldl_nil] at totalEq
          simp only [List.length_singleton]
          omega
        · have bound := limits last
          simp only [List.length_cons]
          omega
    · rw [if_neg digit] at rest
      split_ifs at rest with colon first
      cases rest
      exact ⟨[], by simp [at_cons, at_nil, here, colon], by simp, by simp, by simp [digitsFold],
        by simpa using first, by simp⟩

theorem stringLenLoop_of_token {start n pos len : Nat} {ds : Bytes}
    (here : At input pos (ds ++ [ch ':'])) (digits : ∀ c ∈ ds, isDigit c = true) (fuel : ds.length < n)
    (moved : pos + ds.length ≠ start) (small : digitsFold len ds ≤ MAX_STR_LEN) (near : pos + ds.length ≤ start + 10) :
    stringLenLoop input start n pos len = .ok (digitsFold len ds, pos + ds.length + 1) := by
  induction n generalizing pos len ds with
  | zero => omega
  | succ n ih =>
    unfold stringLenLoop
    cases ds with
    | nil =>
      rw [List.nil_append, at_cons] at here
      rw [byteAt_ok.mpr here.1]
      have notDigit : ¬ isDigit (ch ':') = true := by decide
      simp only [List.length_nil, Nat.add_zero] at moved
      simp only [bind, Except.bind, if_neg notDigit, ↓reduceIte, if_neg moved]
      rfl
    | cons c ds =>
      rw [List.cons_append, at_cons] at here
      have digit : isDigit c = true := digits c (by simp)
      simp only [List.length_cons] at fuel near moved ⊢
      have grown : digitsFold len (c :: ds) = digitsFold (len * 10 + digitValue c) ds := by simp [digitsFold]
      rw [grown] at small
      have partialSmall := (digitsFold_ge (len * 10 + digitValue c) ds).trans small
      have step := ih here.2 (fun d member => digits d (List.mem_cons_of_mem _ member)) (by omega)
        (by omega) small (by omega)
      rw [byteAt_ok.mpr here.1, grown]
      simp only [bind, Except.bind, if_pos digit, if_neg (by omega : ¬ len * 10 + digitValue c > MAX_STR_LEN),
        if_neg (by omega : ¬ pos + 1 - start > 10), step]
      congr 2
      omega

theorem stringLen_of_token {ds payload : Bytes}
    (here : At input pos (ds ++ [ch ':'])) (nonempty : ds ≠ []) (short : ds.length ≤ 10)
    (digits : ∀ c ∈ ds, isDigit c = true) (lenEq : digitsFold 0 ds = payload.length) (small : payload.length ≤ MAX_STR_LEN) :
    stringLen input pos = .ok (payload.length, pos + ds.length + 1) := by
  have positive := List.length_pos_iff.mpr nonempty
  unfold stringLen
  rw [stringLenLoop_of_token here digits (by omega) (by omega) (by omega) (by omega), lenEq]

theorem string_reads (input : Bytes) : Reads input (string input) StrToken := by
  intro pos payload next
  constructor
  · intro parsed
    obtain ⟨⟨len, start⟩, prefixRead, rest⟩ := bind_eq_ok.mp parsed
    dsimp only at rest
    split_ifs at rest with large short
    obtain ⟨ds, there, digits, startEq, lenEq, moved, limits⟩ := stringLenLoop_ok (le_refl _) prefixRead
    have nonempty : ds ≠ [] := by
      rintro rfl
      simp at moved
    have window := at_take_drop input start len (by omega)
    cases rest
    refine ⟨ds ++ ch ':' :: (input.drop start).take len, ⟨ds, rfl, nonempty, ?_, digits, ?_, ?_⟩, ?_, ?_⟩
    · have bound := (limits nonempty).2
      omega
    · rw [window.2, lenEq]
    · rw [window.2]
      omega
    · rw [List.append_cons, at_append]
      refine ⟨there, ?_⟩
      have offset : pos + (ds ++ [ch ':']).length = start := by simp [startEq]; omega
      rw [offset]
      exact window.1
    · rw [List.append_cons, List.length_append, List.length_append, window.2]
      simp only [List.length_singleton]
      omega
  · rintro ⟨s, ⟨ds, rfl, nonempty, short, digits, lenEq, small⟩, here, rfl⟩
    have ends := here.end_le (by simp)
    rw [List.append_cons, at_append] at here
    have prefixRead := stringLen_of_token here.1 nonempty short digits lenEq small
    have body : (input.drop (pos + ds.length + 1)).take payload.length = payload := by
      have tail := here.2.take_drop
      rwa [List.length_append, List.length_singleton, ← Nat.add_assoc] at tail
    unfold string
    simp only [List.length_append, List.length_cons] at ends
    simp only [bind, Except.bind, prefixRead, body, if_neg (by omega : ¬ payload.length > MAX_STR_LEN),
      if_neg (by omega : ¬ pos + ds.length + 1 + payload.length > input.length), List.length_append,
      List.length_cons]
    congr 2
    omega

end TypeBit.Bencode
