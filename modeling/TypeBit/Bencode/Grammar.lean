import Mathlib.Data.List.Forall2
import Mathlib.Data.List.Induction
import TypeBit.Bencode.Tokens

/-! The language the parser accepts. `Denotes budget s v` says that the text `s` is a bencode
value `v` nested at most `budget` levels deep; `valueWithin_reads` identifies it with the parser. -/

namespace TypeBit.Bencode
open Window TypeBit.Bencode.Parser

def insertAll (m : List (Bytes × BVal)) (entries : List (Bytes × BVal)) : List (Bytes × BVal) :=
  entries.foldl (fun m e => OrdMap.Raw.insert e.1 e.2 m) m

/-- No entry is read once the map is full. -/
def Roomy : List (Bytes × BVal) → List (Bytes × BVal) → Prop
  | _, [] => True
  | m, e :: tail => m.length < MAX_ITEMS ∧ Roomy (OrdMap.Raw.insert e.1 e.2 m) tail

def EntryToken (Token : Bytes → BVal → Prop) (s : Bytes) (e : Bytes × BVal) : Prop :=
  ∃ kt vt, s = kt ++ vt ∧ StrToken kt e.1 ∧ Token vt e.2

def Denotes : Nat → Bytes → BVal → Prop
  | 0, _, _ => False
  | budget + 1, s, v =>
      match v with
      | .int i => IntToken s i
      | .bytes b => StrToken s b
      | .list items => ∃ ts : List Bytes, s = ch 'l' :: ts.flatten ++ [ch 'e'] ∧
          List.Forall₂ (Denotes budget) ts items ∧ items.length ≤ MAX_ITEMS
      | .dict m => ∃ (ts : List Bytes) (entries : List (Bytes × BVal)),
          s = ch 'd' :: ts.flatten ++ [ch 'e'] ∧
          List.Forall₂ (EntryToken (Denotes budget)) ts entries ∧ Roomy [] entries ∧ m = insertAll [] entries

def Opens (Token : Bytes → BVal → Prop) : Prop := ∀ s v, Token s v → ∃ c tail, s = c :: tail ∧ c ≠ ch 'e'

theorem StrToken.opens {s payload : Bytes} (token : StrToken s payload) :
    ∃ c tail, s = c :: tail ∧ isDigit c = true := by
  obtain ⟨ds, rfl, nonempty, -, digits, -⟩ := token
  cases ds with
  | nil => exact absurd rfl nonempty
  | cons c ds => exact ⟨c, ds ++ ch ':' :: payload, rfl, digits c (by simp)⟩

theorem Denotes.opens (budget : Nat) : Opens (Denotes budget) := by
  intro s v denotes
  cases budget with
  | zero => exact denotes.elim
  | succ budget =>
    cases v with
    | int i =>
      obtain ⟨ds, rfl, -⟩ := denotes
      exact ⟨ch 'i', ds ++ [ch 'e'], rfl, by decide⟩
    | bytes b =>
      obtain ⟨c, tail, rfl, digit⟩ := StrToken.opens denotes
      exact ⟨c, tail, rfl, isDigit_ne digit (by decide)⟩
    | list items =>
      obtain ⟨ts, rfl, -⟩ := denotes
      exact ⟨ch 'l', ts.flatten ++ [ch 'e'], rfl, by decide⟩
    | dict m =>
      obtain ⟨ts, entries, rfl, -⟩ := denotes
      exact ⟨ch 'd', ts.flatten ++ [ch 'e'], rfl, by decide⟩

section Loops
variable {input : Bytes} {read : Nat → Result (BVal × Nat)} {Token : Bytes → BVal → Prop}

theorem listLoop_ok (reads : Reads input read Token) {n pos next : Nat} {out : List BVal} {v : BVal}
    (parsed : listLoop input read n pos out = .ok (v, next)) :
    ∃ ts items, v = .list (out ++ items) ∧ List.Forall₂ Token ts items ∧
      At input pos (ts.flatten ++ [ch 'e']) ∧ next = pos + ts.flatten.length + 1 ∧
      (items ≠ [] → (out ++ items).length ≤ MAX_ITEMS) := by
  induction n generalizing pos out with
  | zero => simp [listLoop] at parsed
  | succ n ih =>
    obtain ⟨c, here, rest⟩ := bind_eq_ok.mp parsed
    rw [byteAt_ok] at here
    by_cases closing : c = ch 'e'
    · rw [if_pos closing] at rest
      cases rest
      exact ⟨[], [], by simp, List.Forall₂.nil, by simp [at_cons, at_nil, here, closing], by simp, by simp⟩
    · rw [if_neg closing] at rest
      split_ifs at rest with full
      obtain ⟨⟨item, mid⟩, first, more⟩ := bind_eq_ok.mp rest
      obtain ⟨t, token, there, rfl⟩ := (reads pos item mid).mp first
      obtain ⟨ts, items, rfl, tokens, later, nextEq, room⟩ := ih more
      refine ⟨t :: ts, item :: items, by simp, List.Forall₂.cons token tokens, ?_, ?_, ?_⟩
      · rw [List.flatten_cons, List.append_assoc, at_append]
        exact ⟨there, later⟩
      · rw [List.flatten_cons, List.length_append]
        omega
      · intro _
        by_cases last : items = []
        · simp only [last, List.length_append, List.length_singleton]
          omega
        · have bound := room last
          simp only [List.length_append, List.length_cons, List.length_nil] at bound ⊢
          omega

theorem listLoop_of_tokens (reads : Reads input read Token) (opens : Opens Token) {n pos : Nat}
    {out items : List BVal} {ts : List Bytes} (tokens : List.Forall₂ Token ts items)
    (here : At input pos (ts.flatten ++ [ch 'e'])) (fuel : ts.length < n)
    (room : (out ++ items).length ≤ MAX_ITEMS) :
    listLoop input read n pos out = .ok (.list (out ++ items), pos + ts.flatten.length + 1) := by
  induction n generalizing pos out ts items with
  | zero => omega
  | succ n ih =>
    unfold listLoop
    cases tokens with
    | nil =>
      rw [List.flatten_nil, List.nil_append, at_cons] at here
      rw [byteAt_ok.mpr here.1]
      simp [bind, Except.bind]
    | @cons t item ts items token tokens =>
      rw [List.flatten_cons, List.append_assoc, at_append] at here
      obtain ⟨c, tail, opening, notClosing⟩ := opens t item token
      have firstByte : input[pos]? = some c := by
        have start := here.1
        rw [opening, at_cons] at start
        exact start.1
      simp only [List.length_append, List.length_cons] at room fuel
      have first := (reads pos item (pos + t.length)).mpr ⟨t, token, here.1, rfl⟩
      have roomLater : (out ++ [item] ++ items).length ≤ MAX_ITEMS := by
        simp only [List.length_append, List.length_cons, List.length_nil]
        omega
      have rest := ih tokens here.2 (by omega) roomLater
      rw [byteAt_ok.mpr firstByte]
      simp only [bind, Except.bind, if_neg notClosing, if_neg (by omega : ¬ out.length ≥ MAX_ITEMS), first, rest,
        List.flatten_cons, List.length_append]
      simp only [List.append_assoc, List.singleton_append]
      congr 2
      omega

theorem dictLoop_ok (reads : Reads input read Token) {n pos next : Nat} {out : List (Bytes × BVal)} {v : BVal}
    (parsed : dictLoop input read n pos out = .ok (v, next)) :
    ∃ ts entries, v = .dict (insertAll out entries) ∧ List.Forall₂ (EntryToken Token) ts entries ∧
      At input pos (ts.flatten ++ [ch 'e']) ∧ next = pos + ts.flatten.length + 1 ∧ Roomy out entries := by
  induction n generalizing pos out with
  | zero => simp [dictLoop] at parsed
  | succ n ih =>
    obtain ⟨c, here, rest⟩ := bind_eq_ok.mp parsed
    rw [byteAt_ok] at here
    by_cases closing : c = ch 'e'
    · rw [if_pos closing] at rest
      cases rest
      exact ⟨[], [], rfl, List.Forall₂.nil, by simp [at_cons, at_nil, here, closing], by simp, trivial⟩
    · rw [if_neg closing] at rest
      split_ifs at rest with full
      obtain ⟨⟨key, mid⟩, keyRead, more⟩ := bind_eq_ok.mp rest
      obtain ⟨⟨item, stop⟩, valueRead, loop⟩ := bind_eq_ok.mp more
      obtain ⟨kt, keyToken, keyHere, rfl⟩ := (string_reads input pos key mid).mp keyRead
      obtain ⟨vt, token, there, rfl⟩ := (reads _ item stop).mp valueRead
      obtain ⟨ts, entries, rfl, tokens, later, nextEq, room⟩ := ih loop
      refine ⟨(kt ++ vt) :: ts, (key, item) :: entries, rfl,
        List.Forall₂.cons ⟨kt, vt, rfl, keyToken, token⟩ tokens, ?_, ?_, ?_⟩
      · rw [List.flatten_cons, List.append_assoc, List.append_assoc, at_append, at_append]
        exact ⟨keyHere, there, later⟩
      · rw [List.flatten_cons, List.length_append, List.length_append]
        omega
      · exact ⟨by omega, room⟩

theorem dictLoop_of_tokens (reads : Reads input read Token) {n pos : Nat} {out entries : List (Bytes × BVal)}
    {ts : List Bytes} (tokens : List.Forall₂ (EntryToken Token) ts entries)
    (here : At input pos (ts.flatten ++ [ch 'e'])) (fuel : ts.length < n) (room : Roomy out entries) :
    dictLoop input read n pos out = .ok (.dict (insertAll out entries), pos + ts.flatten.length + 1) := by
  induction n generalizing pos out ts entries with
  | zero => omega
  | succ n ih =>
    unfold dictLoop
    cases tokens with
    | nil =>
      rw [List.flatten_nil, List.nil_append, at_cons] at here
      rw [byteAt_ok.mpr here.1]
      simp [bind, Except.bind, insertAll]
    | @cons t e ts entries token tokens =>
      obtain ⟨key, item⟩ := e
      obtain ⟨kt, vt, rfl, keyToken, valueToken⟩ := token
      rw [List.flatten_cons, List.append_assoc, List.append_assoc, at_append, at_append] at here
      obtain ⟨c, tail, opening, digit⟩ := keyToken.opens
      have firstByte : input[pos]? = some c := by
        have start := here.1
        rw [opening, at_cons] at start
        exact start.1
      have notClosing : c ≠ ch 'e' := isDigit_ne digit (by decide)
      have keyRead := (string_reads input pos key (pos + kt.length)).mpr ⟨kt, keyToken, here.1, rfl⟩
      have valueRead := (reads (pos + kt.length) item (pos + kt.length + vt.length)).mpr
        ⟨vt, valueToken, here.2.1, rfl⟩
      have rest := ih tokens here.2.2 (by simpa using fuel) room.2
      have below := room.1
      rw [byteAt_ok.mpr firstByte]
      simp only [bind, Except.bind, if_neg notClosing, if_neg (by omega : ¬ out.length ≥ MAX_ITEMS), keyRead,
        valueRead, rest, List.flatten_cons, List.length_append, insertAll, List.foldl_cons]
      congr 2
      omega

end Loops

theorem length_le_flatten {ts : List Bytes} (nonempty : ∀ t ∈ ts, t ≠ []) : ts.length ≤ ts.flatten.length := by
  induction ts with
  | nil => simp
  | cons t ts ih =>
    have head := List.length_pos_iff.mpr (nonempty t (by simp))
    have tail := ih (fun u member => nonempty u (List.mem_cons_of_mem _ member))
    simp only [List.length_cons, List.flatten_cons, List.length_append]
    omega

theorem forall₂_nonempty {γ : Type} {Token : Bytes → γ → Prop} (nonempty : ∀ t e, Token t e → t ≠ [])
    {ts : List Bytes} {es : List γ} (tokens : List.Forall₂ Token ts es) : ∀ t ∈ ts, t ≠ [] := by
  induction tokens with
  | nil => simp
  | cons token _ ih =>
    intro t member
    rcases List.mem_cons.mp member with rfl | later
    · exact nonempty _ _ token
    · exact ih t later

theorem valueWithin_reads (input : Bytes) (budget : Nat) :
    Reads input (valueWithin input budget) (Denotes budget) := by
  induction budget with
  | zero =>
    intro pos v next
    simp [valueWithin, Denotes]
  | succ budget ih =>
    intro pos v next
    constructor
    · intro parsed
      obtain ⟨c, here, rest⟩ := bind_eq_ok.mp parsed
      rw [byteAt_ok] at here
      split_ifs at rest with isInt isList isDict isString
      · subst isInt
        obtain ⟨i, s, rfl, token, there, nextEq⟩ := (int_ok_iff here).mp rest
        exact ⟨s, token, there, nextEq⟩
      · subst isList
        obtain ⟨ts, items, rfl, tokens, there, nextEq, room⟩ := listLoop_ok ih rest
        refine ⟨ch 'l' :: ts.flatten ++ [ch 'e'], ⟨ts, rfl, tokens, ?_⟩, ?_, ?_⟩
        · by_cases empty : items = []
          · simp [empty]
          · simpa using room empty
        · rw [List.cons_append, at_cons]
          exact ⟨here, there⟩
        · simp only [List.length_append, List.length_cons, List.length_nil]
          omega
      · subst isDict
        obtain ⟨ts, entries, rfl, tokens, there, nextEq, room⟩ := dictLoop_ok ih rest
        refine ⟨ch 'd' :: ts.flatten ++ [ch 'e'], ⟨ts, entries, rfl, tokens, room, rfl⟩, ?_, ?_⟩
        · rw [List.cons_append, at_cons]
          exact ⟨here, there⟩
        · simp only [List.length_append, List.length_cons, List.length_nil]
          omega
      · obtain ⟨⟨b, stop⟩, read, result⟩ := bind_eq_ok.mp rest
        obtain ⟨s, token, there, nextEq⟩ := (string_reads input pos b stop).mp read
        cases result
        exact ⟨s, token, there, nextEq⟩
    · rintro ⟨s, denotes, here, rfl⟩
      unfold valueWithin
      cases v with
      | int i =>
        have read := (int_ok_iff (by
          obtain ⟨ds, rfl, -⟩ := id denotes
          exact ((at_cons ..).mp here).1)).mpr ⟨i, s, rfl, denotes, here, rfl⟩
        obtain ⟨ds, rfl, -⟩ := id denotes
        rw [byteAt_ok.mpr ((at_cons ..).mp here).1]
        exact read
      | bytes b =>
        obtain ⟨c, tail, opening, digit⟩ := StrToken.opens denotes
        have read := (string_reads input pos b (pos + s.length)).mpr ⟨s, denotes, here, rfl⟩
        have firstByte : input[pos]? = some c := by
          rw [opening, at_cons] at here
          exact here.1
        rw [byteAt_ok.mpr firstByte]
        simp only [bind, Except.bind, if_neg (isDigit_ne digit (by decide : isDigit (ch 'i') = false)),
          if_neg (isDigit_ne digit (by decide : isDigit (ch 'l') = false)),
          if_neg (isDigit_ne digit (by decide : isDigit (ch 'd') = false)), if_pos digit, read]
      | list items =>
        obtain ⟨ts, rfl, tokens, room⟩ := denotes
        have ends := here.end_le (by simp)
        rw [List.cons_append, at_cons] at here
        have many := length_le_flatten (forall₂_nonempty (fun t v token => by
          obtain ⟨c, tail, rfl, -⟩ := Denotes.opens budget t v token
          simp) tokens)
        simp only [List.length_append, List.length_cons] at ends
        have loop : listLoop input _ (input.length + 1) (pos + 1) [] = _ :=
          listLoop_of_tokens ih (Denotes.opens budget) tokens here.2 (by omega) (by simpa using room)
        rw [byteAt_ok.mpr here.1]
        simp only [bind, Except.bind, if_neg (by decide : ¬ ch 'l' = ch 'i'), ↓reduceIte, loop, List.nil_append,
          List.length_append, List.length_cons, List.length_nil]
        congr 2
        omega
      | dict m =>
        obtain ⟨ts, entries, rfl, tokens, room, rfl⟩ := denotes
        have ends := here.end_le (by simp)
        rw [List.cons_append, at_cons] at here
        have many := length_le_flatten (forall₂_nonempty (fun t e token => by
          obtain ⟨kt, vt, rfl, keyToken, -⟩ := token
          obtain ⟨c, tail, rfl, -⟩ := keyToken.opens
          simp) tokens)
        simp only [List.length_append, List.length_cons] at ends
        have loop : dictLoop input _ (input.length + 1) (pos + 1) [] = _ :=
          dictLoop_of_tokens ih tokens here.2 (by omega) room
        rw [byteAt_ok.mpr here.1]
        simp only [bind, Except.bind, if_neg (by decide : ¬ ch 'd' = ch 'i'), if_neg (by decide : ¬ ch 'd' = ch 'l'),
          ↓reduceIte, loop, List.length_append, List.length_cons, List.length_nil]
        congr 2
        omega

theorem parse_ok_iff (input : Bytes) (v : BVal) :
    BVal.parse input = .ok v ↔ Denotes (MAX_DEPTH + 1) input v := by
  constructor
  · intro parsed
    obtain ⟨⟨w, pos⟩, read, rest⟩ := bind_eq_ok.mp parsed
    dsimp only at rest
    split_ifs at rest with partly
    obtain ⟨s, denotes, here, stop⟩ := (valueWithin_reads input _ 0 w pos).mp read
    cases rest
    have whole : s = input := by
      have full := here.take_drop
      have length : s.length = input.length := by simp only [ne_eq, not_not] at partly; omega
      simpa [length] using full.symm
    exact whole ▸ denotes
  · intro denotes
    have read := (valueWithin_reads input (MAX_DEPTH + 1) 0 v input.length).mpr
      ⟨input, denotes, at_whole input, by simp⟩
    unfold BVal.parse Parser.value
    simp [bind, Except.bind, read]

theorem Denotes.mono {small large : Nat} (le : small ≤ large) {s : Bytes} {v : BVal}
    (denotes : Denotes small s v) : Denotes large s v := by
  induction small generalizing large s v with
  | zero => exact denotes.elim
  | succ small ih =>
    obtain ⟨large, rfl⟩ : ∃ k, large = k + 1 := ⟨large - 1, by omega⟩
    cases v with
    | int i => exact denotes
    | bytes b => exact denotes
    | list items =>
      obtain ⟨ts, text, tokens, room⟩ := denotes
      exact ⟨ts, text, tokens.imp (fun _ _ inner => ih (by omega) inner), room⟩
    | dict m =>
      obtain ⟨ts, entries, text, tokens, room, built⟩ := denotes
      refine ⟨ts, entries, text, tokens.imp ?_, room, built⟩
      rintro t e ⟨kt, vt, split, key, inner⟩
      exact ⟨kt, vt, split, key, ih (by omega) inner⟩

theorem entryTokens_unique {input : Bytes} {budget pos : Nat} {ts us : List Bytes}
    {entries others : List (Bytes × BVal)} (first : List.Forall₂ (EntryToken (Denotes budget)) ts entries)
    (second : List.Forall₂ (EntryToken (Denotes budget)) us others)
    (here : At input pos (ts.flatten ++ [ch 'e'])) (there : At input pos (us.flatten ++ [ch 'e'])) :
    entries = others := by
  induction first generalizing pos us others with
  | nil =>
    cases second with
    | nil => rfl
    | cons token _ =>
      obtain ⟨kt, vt, rfl, key, -⟩ := token
      obtain ⟨c, tail, rfl, digit⟩ := key.opens
      rw [List.flatten_nil, List.nil_append, at_cons] at here
      rw [List.flatten_cons, List.append_assoc, List.append_assoc, List.cons_append, at_cons, here.1] at there
      exact absurd (Option.some.inj there.1).symm (isDigit_ne digit (by decide))
  | @cons t e ts entries token _ ih =>
    obtain ⟨kt, vt, rfl, key, value⟩ := token
    rw [List.flatten_cons, List.append_assoc, List.append_assoc, at_append, at_append] at here
    cases second with
    | nil =>
      obtain ⟨c, tail, rfl, digit⟩ := key.opens
      rw [List.flatten_nil, List.nil_append, at_cons] at there
      rw [at_cons, there.1] at here
      exact absurd (Option.some.inj here.1.1).symm (isDigit_ne digit (by decide))
    | @cons u f us others otherToken rest =>
      obtain ⟨ku, vu, rfl, otherKey, otherValue⟩ := otherToken
      rw [List.flatten_cons, List.append_assoc, List.append_assoc, at_append, at_append] at there
      obtain ⟨rfl, keyEq⟩ := (string_reads input).unique key otherKey here.1 there.1
      obtain ⟨rfl, valueEq⟩ := (valueWithin_reads input budget).unique value otherValue here.2.1 there.2.1
      rw [ih rest here.2.2 there.2.2, Prod.ext keyEq valueEq]

theorem get?_insertAll (m entries : List (Bytes × BVal)) (key : Bytes) :
    OrdMap.Raw.get? (insertAll m entries) key =
      (OrdMap.Raw.get? entries.reverse key).or (OrdMap.Raw.get? m key) := by
  induction entries using List.reverseRecOn with
  | nil => rfl
  | append_singleton front e ih =>
    have step : insertAll m (front ++ [e]) = OrdMap.Raw.insert e.1 e.2 (insertAll m front) := by
      simp [insertAll]
    rw [step, OrdMap.Raw.get?_insert, List.reverse_append, List.reverse_singleton, List.singleton_append,
      OrdMap.Raw.get?_cons, ih]
    by_cases same : e.1 = key
    · simp [same]
    · simp [same]

theorem insertAll_induction {P : List (Bytes × BVal) → Prop} {m entries : List (Bytes × BVal)} (start : P m)
    (step : ∀ m, ∀ e ∈ entries, P m → P (OrdMap.Raw.insert e.1 e.2 m)) : P (insertAll m entries) :=
  List.foldlRecOn entries _ start fun m kept e member => step m e member kept

theorem validEntries_insert {k : Bytes} {v : BVal} {m : List (Bytes × BVal)} (valid : ValidEntries m) (value : v.Valid) :
    ValidEntries (OrdMap.Raw.insert k v m) := by
  induction m with
  | nil => exact ⟨value, trivial⟩
  | cons e tail ih =>
    unfold OrdMap.Raw.insert
    split_ifs
    · exact ⟨value, valid⟩
    · exact ⟨value, valid.2⟩
    · exact ⟨valid.1, ih valid.2⟩

theorem Denotes.valid {budget : Nat} {s : Bytes} {v : BVal} (denotes : Denotes budget s v) : v.Valid := by
  induction budget generalizing s v with
  | zero => exact denotes.elim
  | succ budget ih =>
    cases v with
    | int i =>
      obtain ⟨ds, -, -, -, parsed⟩ := denotes
      unfold parseBencodedInt at parsed
      obtain ⟨-, parsed⟩ := guard_eq_ok.mp parsed
      obtain ⟨-, parsed⟩ := guard_eq_ok.mp parsed
      obtain ⟨-, parsed⟩ := guard_eq_ok.mp parsed
      split at parsed
      next j found =>
        cases parsed
        have range := (Option.filter_eq_some_iff.mp found).2
        simp only [Bool.and_eq_true, decide_eq_true_eq] at range
        exact range
      · cases parsed
    | bytes b => exact trivial
    | list items =>
      obtain ⟨ts, -, tokens, -⟩ := denotes
      induction tokens with
      | nil => exact trivial
      | cons token _ rest => exact ⟨ih token, rest⟩
    | dict m =>
      obtain ⟨ts, entries, -, tokens, -, rfl⟩ := denotes
      have values : ∀ e ∈ entries, e.2.Valid := by
        induction tokens with
        | nil => simp
        | cons token _ rest =>
          intro e member
          rcases List.mem_cons.mp member with rfl | later
          · obtain ⟨kt, vt, -, -, inner⟩ := token
            exact ih inner
          · exact rest e later
      refine ⟨insertAll_induction List.Pairwise.nil fun _ _ _ kept => OrdMap.Raw.sorted_insert _ _ kept, ?_⟩
      exact insertAll_induction trivial fun _ e member kept => validEntries_insert kept (values e member)

theorem parse_valid {input : Bytes} {v : BVal} (parsed : BVal.parse input = .ok v) : v.Valid :=
  ((parse_ok_iff input v).mp parsed).valid

end TypeBit.Bencode
