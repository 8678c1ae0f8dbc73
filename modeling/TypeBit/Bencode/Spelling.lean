import Mathlib.Data.Finset.Card
import TypeBit.Bencode.Grammar

/-! The texts the parser accepts, against the grammar of BEP 3. They differ in two places: an integer may carry a plus
sign, and a dictionary that repeats keys may have more than `MAX_ITEMS` entries. -/

namespace TypeBit.Bencode
open Window TypeBit.Bencode.Parser Option

/-! ### Integers -/

structure Magnitude (ds : Bytes) : Prop where
  nonempty : ds ≠ []
  digits : ∀ c ∈ ds, isDigit c = true
  leading : ds.head? ≠ some (ch '0')

/-- `0`, or an optional minus and digits without a leading zero, in the range of an `i64`. -/
def PlainInt (ds : Bytes) : Prop :=
  ds = [ch '0'] ∨ (Magnitude ds ∧ digitsFold 0 ds < 2 ^ 63) ∨
    ∃ body, ds = ch '-' :: body ∧ Magnitude body ∧ digitsFold 0 body ≤ 2 ^ 63

def PlusInt (ds : Bytes) : Prop :=
  ∃ body, ds = ch '+' :: body ∧ body ≠ [] ∧ (∀ c ∈ body, isDigit c = true) ∧ body.length ≤ 23 ∧
    digitsFold 0 body < 2 ^ 63

variable {ds s : Bytes}

theorem digitsValue_eq_some {n : Nat} :
    digitsValue ds = some n ↔ ds ≠ [] ∧ (∀ c ∈ ds, isDigit c = true) ∧ digitsFold 0 ds = n := by
  unfold digitsValue
  by_cases empty : ds = []
  · simp [empty]
  · by_cases digits : ∀ c ∈ ds, isDigit c = true
    · rw [if_neg (by simpa [empty] using digits)]
      simp [empty, digitsFold]
      intro _
      exact digits
    · rw [if_pos (by simpa [empty] using digits)]
      simp [digits]

theorem parseBencodedInt_ok {i : Int} :
    parseBencodedInt ds = .ok i ↔ ds ≠ [] ∧ ¬ ((stripMinus ds).length > 1 ∧ (stripMinus ds).head? = some (ch '0')) ∧
      ¬ (stripMinus ds = [ch '0'] ∧ ds.head? = some (ch '-')) ∧ parseI64 ds = some i := by
  unfold parseBencodedInt
  dsimp only
  rw [guard_eq_ok, guard_eq_ok, guard_eq_ok]
  cases parseI64 ds <;> simp

theorem magnitude_iff (nonempty : ds ≠ []) (digits : ∀ c ∈ ds, isDigit c = true) :
    Magnitude ds ↔ ¬ (ds.length > 1 ∧ ds.head? = some (ch '0')) ∧ ds ≠ [ch '0'] := by
  constructor
  · intro plain
    refine ⟨fun long => plain.leading long.2, ?_⟩
    rintro rfl
    exact plain.leading rfl
  · rintro ⟨short, single⟩
    refine ⟨nonempty, digits, ?_⟩
    intro zero
    match ds, zero with
    | [c], zero =>
      rw [List.head?_cons, some.injEq] at zero
      exact single (by rw [zero])
    | c :: d :: rest, zero => exact short ⟨by simp, zero⟩

theorem digits_in_range (sign : Nat → Int) :
    (∃ i, ((digitsValue ds).map sign).filter (fun i => decide (-2 ^ 63 ≤ i) && decide (i < 2 ^ 63)) = some i) ↔
      ds ≠ [] ∧ (∀ c ∈ ds, isDigit c = true) ∧ -2 ^ 63 ≤ sign (digitsFold 0 ds) ∧ sign (digitsFold 0 ds) < 2 ^ 63 := by
  simp only [filter_eq_some_iff, map_eq_some_iff, digitsValue_eq_some, Bool.and_eq_true,
    decide_eq_true_eq]
  constructor
  · rintro ⟨i, ⟨n, ⟨nonempty, digits, rfl⟩, rfl⟩, range⟩
    exact ⟨nonempty, digits, range⟩
  · rintro ⟨nonempty, digits, range⟩
    exact ⟨_, ⟨_, ⟨nonempty, digits, rfl⟩, rfl⟩, range⟩

theorem parseI64_minus {body : Bytes} : (∃ i, parseI64 (ch '-' :: body) = some i) ↔
    body ≠ [] ∧ (∀ c ∈ body, isDigit c = true) ∧ digitsFold 0 body ≤ 2 ^ 63 := by
  simp only [parseI64, ↓reduceIte]
  rw [digits_in_range]
  have range : (-2 ^ 63 ≤ -(digitsFold 0 body : Int) ∧ -(digitsFold 0 body : Int) < 2 ^ 63) ↔
      digitsFold 0 body ≤ 2 ^ 63 := by omega
  rw [range]

theorem nonnegative_in_range (n : Nat) : (-2 ^ 63 ≤ (n : Int) ∧ (n : Int) < 2 ^ 63) ↔ n < 2 ^ 63 := by
  omega

theorem parseI64_plus {body : Bytes} : (∃ i, parseI64 (ch '+' :: body) = some i) ↔
    body ≠ [] ∧ (∀ c ∈ body, isDigit c = true) ∧ digitsFold 0 body < 2 ^ 63 := by
  simp only [parseI64, if_neg (by decide : ¬ ch '+' = ch '-'), ↓reduceIte]
  rw [digits_in_range, nonnegative_in_range]

theorem parseI64_unsigned (minus : ds.head? ≠ some (ch '-')) (plus : ds.head? ≠ some (ch '+')) :
    (∃ i, parseI64 ds = some i) ↔ ds ≠ [] ∧ (∀ c ∈ ds, isDigit c = true) ∧ digitsFold 0 ds < 2 ^ 63 := by
  cases ds with
  | nil => simp [parseI64]
  | cons c body =>
    rw [List.head?_cons, ne_eq, some.injEq] at minus plus
    simp only [parseI64, if_neg minus, if_neg plus]
    rw [digits_in_range, nonnegative_in_range]

theorem digitsFold_pow (start : Nat) (ds : Bytes) : start * 10 ^ ds.length ≤ digitsFold start ds := by
  induction ds generalizing start with
  | nil => simp [digitsFold]
  | cons c ds ih =>
    have step := ih (start * 10 + digitValue c)
    have shifted : start * 10 ^ (ds.length + 1) ≤ (start * 10 + digitValue c) * 10 ^ ds.length := by
      rw [Nat.pow_succ, Nat.mul_comm (10 ^ ds.length) 10, ← Nat.mul_assoc]
      exact Nat.mul_le_mul_right _ (Nat.le_add_right _ _)
    exact shifted.trans step

theorem Magnitude.short (plain : Magnitude ds) (small : digitsFold 0 ds ≤ 2 ^ 63) : ds.length ≤ 19 := by
  cases ds with
  | nil => exact absurd rfl plain.nonempty
  | cons c body =>
    have positive : 1 ≤ 0 * 10 + digitValue c := by
      have digit := plain.digits c List.mem_cons_self
      have leading : c ≠ ch '0' := fun zero => plain.leading (by rw [zero]; rfl)
      have other : c.toNat ≠ 48 := fun zero => leading (UInt8.toNat.inj zero)
      simp only [isDigit, Bool.and_eq_true, decide_eq_true_eq, UInt8.le_iff_toNat_le] at digit
      have low : (ch '0').toNat = 48 := by decide
      simp only [digitValue]
      omega
    by_contra long
    have many : 19 ≤ body.length := by
      rw [List.length_cons] at long
      omega
    have huge : 10 ^ 19 ≤ 2 ^ 63 := by
      calc
        10 ^ 19 ≤ 10 ^ body.length := Nat.pow_le_pow_right (by decide) many
        _ = 1 * 10 ^ body.length := (Nat.one_mul _).symm
        _ ≤ (0 * 10 + digitValue c) * 10 ^ body.length := Nat.mul_le_mul_right _ positive
        _ ≤ digitsFold 0 (c :: body) := digitsFold_pow _ body
        _ ≤ 2 ^ 63 := small
    exact absurd huge (by decide)

theorem digits_clean (digits : ∀ c ∈ ds, isDigit c = true) : ch 'e' ∉ ds :=
  fun member => absurd (digits _ member) (by decide)

theorem head?_digit (nonempty : ds ≠ []) (digits : ∀ c ∈ ds, isDigit c = true) {d : UInt8}
    (other : isDigit d = false) : ds.head? ≠ some d := by
  cases ds with
  | nil => exact absurd rfl nonempty
  | cons c body =>
    rw [List.head?_cons, ne_eq, some.injEq]
    exact isDigit_ne (digits c List.mem_cons_self) other

theorem int_text_iff : (ch 'e' ∉ ds ∧ ds.length ≤ 24 ∧ ∃ i, parseBencodedInt ds = .ok i) ↔ PlainInt ds ∨ PlusInt ds := by
  simp only [parseBencodedInt_ok, exists_and_left]
  constructor
  · rintro ⟨-, short, nonempty, leading, zero, parsed⟩
    match ds, nonempty with
    | c :: body, nonempty =>
      by_cases minus : c = ch '-'
      · subst minus
        obtain ⟨some_digit, digits, small⟩ := parseI64_minus.mp parsed
        have plain := (magnitude_iff some_digit digits).mpr ⟨leading, fun single => zero ⟨single, rfl⟩⟩
        exact .inl (.inr (.inr ⟨body, rfl, plain, small⟩))
      · have whole : stripMinus (c :: body) = c :: body := if_neg minus
        by_cases plus : c = ch '+'
        · subst plus
          obtain ⟨some_digit, digits, small⟩ := parseI64_plus.mp parsed
          exact .inr ⟨body, rfl, some_digit, digits, Nat.le_of_succ_le_succ short, small⟩
        · obtain ⟨some_digit, digits, small⟩ := (parseI64_unsigned (by simpa using minus) (by simpa using plus)).mp parsed
          rw [whole] at leading
          by_cases single : c :: body = [ch '0']
          · exact .inl (.inl single)
          · exact .inl (.inr (.inl ⟨(magnitude_iff some_digit digits).mpr ⟨leading, single⟩, small⟩))
  · rintro ((rfl | ⟨plain, small⟩ | ⟨body, rfl, plain, small⟩) | ⟨body, rfl, some_digit, digits, short, small⟩)
    · refine ⟨by decide, by decide, by decide, by decide, by decide, 0, by decide⟩
    · obtain ⟨leading, zero⟩ := (magnitude_iff plain.nonempty plain.digits).mp plain
      have minus := head?_digit plain.nonempty plain.digits (by decide : isDigit (ch '-') = false)
      have plus := head?_digit plain.nonempty plain.digits (by decide : isDigit (ch '+') = false)
      have whole : stripMinus ds = ds := by
        unfold stripMinus
        split
        · rw [List.head?_cons, ne_eq, some.injEq] at minus
          exact if_neg minus
        · rfl
      have length := plain.short small.le
      rw [whole]
      exact ⟨digits_clean plain.digits, by omega, plain.nonempty, leading, fun both => minus both.2,
        (parseI64_unsigned minus plus).mpr ⟨plain.nonempty, plain.digits, small⟩⟩
    · obtain ⟨leading, zero⟩ := (magnitude_iff plain.nonempty plain.digits).mp plain
      have length := plain.short small
      refine ⟨?_, ?_, List.cons_ne_nil _ _, leading, fun both => zero both.1, ?_⟩
      · rw [List.mem_cons, not_or]
        exact ⟨by decide, digits_clean plain.digits⟩
      · rw [List.length_cons]
        omega
      · exact parseI64_minus.mpr ⟨plain.nonempty, plain.digits, small⟩
    · have whole : stripMinus (ch '+' :: body) = ch '+' :: body := rfl
      rw [whole]
      refine ⟨?_, ?_, List.cons_ne_nil _ _, fun both => ?_, fun both => ?_, ?_⟩
      · rw [List.mem_cons, not_or]
        exact ⟨by decide, digits_clean digits⟩
      · rw [List.length_cons]
        omega
      · exact absurd (some.inj both.2) (by decide)
      · exact absurd (some.inj both.2) (by decide)
      · exact parseI64_plus.mpr ⟨some_digit, digits, small⟩

/-! ### Texts -/

/-- A dictionary entry as it is written: the key's text, the key, and the value's text. -/
structure Entry where
  keyText : Bytes
  key : Bytes
  value : Bytes

def Entry.text (e : Entry) : Bytes := e.keyText ++ e.value

/-- Values nested at most `budget` levels deep, with the spellings of integers and the lists of keys that are allowed. -/
def Text (Num : Bytes → Prop) (Keys : List Bytes → Prop) : Nat → Bytes → Prop
  | 0, _ => False
  | budget + 1, s =>
      (∃ ds, s = ch 'i' :: ds ++ [ch 'e'] ∧ Num ds) ∨
      (∃ b, StrToken s b) ∨
      (∃ ts : List Bytes, s = ch 'l' :: ts.flatten ++ [ch 'e'] ∧ (∀ t ∈ ts, Text Num Keys budget t) ∧
        ts.length ≤ MAX_ITEMS) ∨
      ∃ es : List Entry, s = ch 'd' :: (es.map Entry.text).flatten ++ [ch 'e'] ∧
        (∀ e ∈ es, StrToken e.keyText e.key ∧ Text Num Keys budget e.value) ∧ Keys (es.map Entry.key)

/-- A value of BEP 3 within the limits: containers of at most `MAX_ITEMS` items or entries. -/
def Bep3 : Nat → Bytes → Prop := Text PlainInt (fun keys => keys.length ≤ MAX_ITEMS)

def RoomyKeys (keys : List Bytes) : Prop := ∀ i < keys.length, (keys.take i).toFinset.card < MAX_ITEMS

def Accepted : Nat → Bytes → Prop := Text (fun ds => PlainInt ds ∨ PlusInt ds) RoomyKeys

/-- An accepted text in which some integer has a plus sign, or some dictionary more than `MAX_ITEMS` entries. -/
def Loose : Nat → Bytes → Prop
  | 0, _ => False
  | budget + 1, s =>
      (∃ ds, s = ch 'i' :: ds ++ [ch 'e'] ∧ PlusInt ds) ∨
      (∃ ts : List Bytes, s = ch 'l' :: ts.flatten ++ [ch 'e'] ∧ (∀ t ∈ ts, Accepted budget t) ∧
        ts.length ≤ MAX_ITEMS ∧ ∃ t ∈ ts, Loose budget t) ∨
      ∃ es : List Entry, s = ch 'd' :: (es.map Entry.text).flatten ++ [ch 'e'] ∧
        (∀ e ∈ es, StrToken e.keyText e.key ∧ Accepted budget e.value) ∧ RoomyKeys (es.map Entry.key) ∧
        (MAX_ITEMS < es.length ∨ ∃ e ∈ es, Loose budget e.value)

/-! ### Keys -/

theorem roomy_iff {m entries : List (Bytes × BVal)} :
    Roomy m entries ↔ ∀ i < entries.length, (insertAll m (entries.take i)).length < MAX_ITEMS := by
  induction entries generalizing m with
  | nil => simp [Roomy]
  | cons e tail ih =>
    rw [Roomy, ih]
    constructor
    · rintro ⟨room, later⟩ i below
      cases i with
      | zero => exact room
      | succ i => exact later i (Nat.lt_of_succ_lt_succ below)
    · intro all
      exact ⟨all 0 (Nat.zero_lt_succ _), fun i below => all (i + 1) (Nat.succ_lt_succ below)⟩

variable {entries : List (Bytes × BVal)}

theorem mem_keys_insertAll {key : Bytes} : key ∈ (insertAll [] entries).map Prod.fst ↔ key ∈ entries.map Prod.fst := by
  have present : ∀ l : List (Bytes × BVal), key ∈ l.map Prod.fst ↔ (OrdMap.Raw.get? l key).isSome = true := by
    intro l
    rw [OrdMap.Raw.get?, isSome_map, List.find?_isSome]
    simp
  rw [present, get?_insertAll, isSome_or, Bool.or_eq_true, ← present, ← present, List.map_reverse,
    List.mem_reverse]
  simp

theorem length_insertAll (entries : List (Bytes × BVal)) :
    (insertAll [] entries).length = (entries.map Prod.fst).toFinset.card := by
  have sorted : OrdMap.Raw.Sorted (insertAll [] entries) :=
    insertAll_induction List.Pairwise.nil fun _ _ _ kept => OrdMap.Raw.sorted_insert _ _ kept
  have nodup : ((insertAll [] entries).map Prod.fst).Nodup := by
    rw [List.Nodup, List.pairwise_map]
    exact sorted.imp fun below => below.ne
  have same : ((insertAll [] entries).map Prod.fst).toFinset = (entries.map Prod.fst).toFinset := by
    ext key
    rw [List.mem_toFinset, List.mem_toFinset, mem_keys_insertAll]
  rw [← same, List.toFinset_card_of_nodup nodup, List.length_map]

theorem roomyKeys_iff : Roomy [] entries ↔ RoomyKeys (entries.map Prod.fst) := by
  rw [roomy_iff, RoomyKeys, List.length_map]
  refine forall_congr' fun i => ?_
  rw [length_insertAll, List.map_take]

theorem RoomyKeys.of_length_le {keys : List Bytes} (few : keys.length ≤ MAX_ITEMS) : RoomyKeys keys := by
  intro i below
  have bound := (List.toFinset_card_le (keys.take i)).trans (List.length_take_le i keys)
  omega

/-! ### The texts of the parser -/

variable {budget : Nat} {ts : List Bytes}

theorem exists_value {items : List BVal}
    (tokens : List.Forall₂ (Denotes budget) ts items) : ∀ t ∈ ts, ∃ v, Denotes budget t v := by
  induction tokens with
  | nil => simp
  | cons token _ ih =>
    rw [List.forall_mem_cons]
    exact ⟨⟨_, token⟩, ih⟩

theorem exists_items (read : ∀ t ∈ ts, ∃ v, Denotes budget t v) : ∃ items, List.Forall₂ (Denotes budget) ts items := by
  induction ts with
  | nil => exact ⟨[], .nil⟩
  | cons t ts ih =>
    obtain ⟨v, first⟩ := read t List.mem_cons_self
    obtain ⟨items, rest⟩ := ih fun u member => read u (List.mem_cons_of_mem _ member)
    exact ⟨v :: items, .cons first rest⟩

theorem exists_entries {es : List Entry} (read : ∀ e ∈ es, StrToken e.keyText e.key ∧ ∃ v, Denotes budget e.value v) :
    ∃ entries : List (Bytes × BVal), List.Forall₂ (EntryToken (Denotes budget)) (es.map Entry.text) entries ∧
      entries.map Prod.fst = es.map Entry.key := by
  induction es with
  | nil => exact ⟨[], .nil, rfl⟩
  | cons e es ih =>
    obtain ⟨key, v, value⟩ := read e List.mem_cons_self
    obtain ⟨entries, rest, keys⟩ := ih fun u member => read u (List.mem_cons_of_mem _ member)
    refine ⟨(e.key, v) :: entries, .cons ⟨e.keyText, e.value, rfl, key, value⟩ rest, ?_⟩
    rw [List.map_cons, List.map_cons, keys]

theorem exists_texts (tokens : List.Forall₂ (EntryToken (Denotes budget)) ts entries) :
    ∃ es : List Entry, es.map Entry.text = ts ∧ es.map Entry.key = entries.map Prod.fst ∧
      ∀ e ∈ es, StrToken e.keyText e.key ∧ ∃ v, Denotes budget e.value v := by
  induction tokens with
  | nil => exact ⟨[], rfl, rfl, by simp⟩
  | @cons t entry ts entries token _ ih =>
    obtain ⟨kt, vt, rfl, key, value⟩ := token
    obtain ⟨es, texts, keys, read⟩ := ih
    refine ⟨⟨kt, entry.1, vt⟩ :: es, ?_, ?_, ?_⟩
    · rw [List.map_cons, texts]
      rfl
    · rw [List.map_cons, List.map_cons, keys]
    · rw [List.forall_mem_cons]
      exact ⟨⟨key, _, value⟩, read⟩

theorem denotes_iff_accepted : (∃ v, Denotes budget s v) ↔ Accepted budget s := by
  induction budget generalizing s with
  | zero => exact ⟨fun ⟨_, absurd⟩ => absurd, fun absurd => absurd.elim⟩
  | succ budget ih =>
    constructor
    · rintro ⟨v, denotes⟩
      cases v with
      | int i =>
        obtain ⟨ds, text, clean, short, parsed⟩ := denotes
        exact .inl ⟨ds, text, int_text_iff.mp ⟨clean, short, i, parsed⟩⟩
      | bytes b => exact .inr (.inl ⟨b, denotes⟩)
      | list items =>
        obtain ⟨ts, text, tokens, room⟩ := denotes
        refine .inr (.inr (.inl ⟨ts, text, ?_, tokens.length_eq ▸ room⟩))
        exact fun t member => ih.mp (exists_value tokens t member)
      | dict m =>
        obtain ⟨ts, entries, text, tokens, room, -⟩ := denotes
        obtain ⟨es, rfl, keys, read⟩ := exists_texts tokens
        refine .inr (.inr (.inr ⟨es, text, fun e member => ⟨(read e member).1, ih.mp (read e member).2⟩, ?_⟩))
        rw [keys]
        exact roomyKeys_iff.mp room
    · rintro (⟨ds, text, num⟩ | ⟨b, token⟩ | ⟨ts, text, inner, room⟩ | ⟨es, text, inner, room⟩)
      · obtain ⟨clean, short, i, parsed⟩ := int_text_iff.mpr num
        exact ⟨.int i, ds, text, clean, short, parsed⟩
      · exact ⟨.bytes b, token⟩
      · obtain ⟨items, tokens⟩ := exists_items fun t member => ih.mpr (inner t member)
        exact ⟨.list items, ts, text, tokens, tokens.length_eq ▸ room⟩
      · obtain ⟨entries, tokens, keys⟩ := exists_entries fun e member => ⟨(inner e member).1, ih.mpr (inner e member).2⟩
        rw [← keys] at room
        exact ⟨.dict (insertAll [] entries), _, entries, text, tokens, roomyKeys_iff.mpr room, rfl⟩

/-! ### Unique readability -/

theorem StrToken.free {s t x y a b : Bytes} (first : StrToken s a) (second : StrToken t b) (same : s ++ x = t ++ y) :
    s = t ∧ a = b :=
  (string_reads (s ++ x)).unique first second (at_self s x) (same ▸ at_self t y)

theorem Accepted.free {s t x y : Bytes} (first : Accepted budget s) (second : Accepted budget t)
    (same : s ++ x = t ++ y) : s = t := by
  obtain ⟨v, first⟩ := denotes_iff_accepted.mpr first
  obtain ⟨w, second⟩ := denotes_iff_accepted.mpr second
  exact ((valueWithin_reads (s ++ x) budget).unique first second (at_self s x) (same ▸ at_self t y)).1

theorem Accepted.opens (accepted : Accepted budget s) : ∃ c tail, s = c :: tail ∧ c ≠ ch 'e' := by
  obtain ⟨v, denotes⟩ := denotes_iff_accepted.mpr accepted
  exact Denotes.opens budget s v denotes

theorem items_unique {ts us : List Bytes} (first : ∀ t ∈ ts, Accepted budget t)
    (second : ∀ u ∈ us, Accepted budget u) (same : ts.flatten ++ [ch 'e'] = us.flatten ++ [ch 'e']) : ts = us := by
  refine tokens_unique (fun _ _ _ _ => Accepted.free) (fun _ => Accepted.opens) first second ?_
  rw [List.map_id', List.map_id']
  exact same

theorem entries_unique {es fs : List Entry} (first : ∀ e ∈ es, StrToken e.keyText e.key ∧ Accepted budget e.value)
    (second : ∀ e ∈ fs, StrToken e.keyText e.key ∧ Accepted budget e.value)
    (same : (es.map Entry.text).flatten ++ [ch 'e'] = (fs.map Entry.text).flatten ++ [ch 'e']) : es = fs := by
  refine tokens_unique ?_ ?_ first second same
  · rintro ⟨kt, k, vt⟩ ⟨ku, l, vu⟩ x y ⟨key, value⟩ ⟨otherKey, otherValue⟩ text
    rw [Entry.text, Entry.text, List.append_assoc, List.append_assoc] at text
    obtain ⟨rfl, rfl⟩ := StrToken.free key otherKey text
    obtain rfl := Accepted.free value otherValue (List.append_cancel_left text)
    rfl
  · rintro ⟨kt, k, vt⟩ ⟨key, -⟩
    obtain ⟨c, tail, rfl, digit⟩ := key.opens
    exact ⟨c, tail ++ vt, rfl, isDigit_ne digit (by decide)⟩

/-! ### BEP 3 -/

theorem Bep3.accepted (plain : Bep3 budget s) : Accepted budget s := by
  induction budget generalizing s with
  | zero => exact plain.elim
  | succ budget ih =>
    obtain ⟨ds, text, num⟩ | ⟨b, token⟩ | ⟨ts, text, inner, room⟩ | ⟨es, text, inner, room⟩ := plain
    · exact .inl ⟨ds, text, .inl num⟩
    · exact .inr (.inl ⟨b, token⟩)
    · exact .inr (.inr (.inl ⟨ts, text, fun t member => ih (inner t member), room⟩))
    · refine .inr (.inr (.inr ⟨es, text, ?_, RoomyKeys.of_length_le room⟩))
      exact fun e member => ⟨(inner e member).1, ih (inner e member).2⟩

theorem Loose.accepted (loose : Loose budget s) : Accepted budget s := by
  cases budget with
  | zero => exact loose.elim
  | succ budget =>
    obtain ⟨ds, text, num⟩ | ⟨ts, text, inner, room, -⟩ | ⟨es, text, inner, room, -⟩ := loose
    · exact .inl ⟨ds, text, .inr num⟩
    · exact .inr (.inr (.inl ⟨ts, text, inner, room⟩))
    · exact .inr (.inr (.inr ⟨es, text, inner, room⟩))

theorem Accepted.plain (accepted : Accepted budget s) (tight : ¬ Loose budget s) : Bep3 budget s := by
  induction budget generalizing s with
  | zero => exact accepted.elim
  | succ budget ih =>
    obtain ⟨ds, text, num⟩ | ⟨b, token⟩ | ⟨ts, text, inner, room⟩ | ⟨es, text, inner, room⟩ := accepted
    · obtain plain | plus := num
      · exact .inl ⟨ds, text, plain⟩
      · exact absurd (.inl ⟨ds, text, plus⟩) tight
    · exact .inr (.inl ⟨b, token⟩)
    · refine .inr (.inr (.inl ⟨ts, text, fun t member => ih (inner t member) fun loose => ?_, room⟩))
      exact tight (.inr (.inl ⟨ts, text, inner, room, t, member, loose⟩))
    · refine .inr (.inr (.inr ⟨es, text, fun e member => ⟨(inner e member).1, ih (inner e member).2 fun loose => ?_⟩, ?_⟩))
      · exact tight (.inr (.inr ⟨es, text, inner, room, .inr ⟨e, member, loose⟩⟩))
      · change (es.map Entry.key).length ≤ MAX_ITEMS
        rw [List.length_map]
        by_contra many
        exact tight (.inr (.inr ⟨es, text, inner, room, .inl (by omega)⟩))

theorem PlusInt.not_plain (plus : PlusInt ds) : ¬ PlainInt ds := by
  obtain ⟨body, rfl, -⟩ := plus
  rintro (same | ⟨plain, -⟩ | ⟨other, same, -⟩)
  · exact absurd (List.cons.inj same).1 (by decide)
  · exact absurd (plain.digits _ List.mem_cons_self) (by decide)
  · exact absurd (List.cons.inj same).1 (by decide)

theorem Loose.not_plain (loose : Loose budget s) : ¬ Bep3 budget s := by
  induction budget generalizing s with
  | zero => exact loose.elim
  | succ budget ih =>
    rintro (⟨ds, text, num⟩ | ⟨b, token⟩ | ⟨ts, text, inner, room⟩ | ⟨es, text, inner, room⟩)
    · obtain ⟨cs, rfl, plus⟩ | ⟨us, rfl, -⟩ | ⟨fs, rfl, -⟩ := loose
      · obtain rfl := List.append_cancel_right (List.cons.inj text).2
        exact plus.not_plain num
      · exact absurd (List.cons.inj text).1 (by decide)
      · exact absurd (List.cons.inj text).1 (by decide)
    · obtain ⟨c, tail, opening, digit⟩ := token.opens
      obtain ⟨cs, rfl, -⟩ | ⟨us, rfl, -⟩ | ⟨fs, rfl, -⟩ := loose
      · exact isDigit_ne digit (by decide) (List.cons.inj opening).1.symm
      · exact isDigit_ne digit (by decide) (List.cons.inj opening).1.symm
      · exact isDigit_ne digit (by decide) (List.cons.inj opening).1.symm
    · obtain ⟨cs, rfl, -⟩ | ⟨us, rfl, others, -, t, member, part⟩ | ⟨fs, rfl, -⟩ := loose
      · exact absurd (List.cons.inj text).1 (by decide)
      · obtain rfl := items_unique others (fun t member => Bep3.accepted (inner t member)) (List.cons.inj text).2
        exact ih part (inner t member)
      · exact absurd (List.cons.inj text).1 (by decide)
    · obtain ⟨cs, rfl, -⟩ | ⟨us, rfl, -⟩ | ⟨fs, rfl, others, -, part⟩ := loose
      · exact absurd (List.cons.inj text).1 (by decide)
      · exact absurd (List.cons.inj text).1 (by decide)
      · obtain rfl := entries_unique others
          (fun e member => ⟨(inner e member).1, Bep3.accepted (inner e member).2⟩) (List.cons.inj text).2
        rw [List.length_map] at room
        obtain many | ⟨e, member, part⟩ := part
        · omega
        · exact ih part (inner e member).2

/-- The parser accepts exactly the texts of BEP 3, but for those with a plus sign before an integer or a dictionary of
more than `MAX_ITEMS` entries. -/
theorem parse_bep3_iff (s : Bytes) :
    ((∃ v, BVal.parse s = .ok v) ↔ Bep3 (MAX_DEPTH + 1) s) ↔ ¬ Loose (MAX_DEPTH + 1) s := by
  simp only [parse_ok_iff, denotes_iff_accepted]
  constructor
  · intro same loose
    exact loose.not_plain (same.mp loose.accepted)
  · intro tight
    exact ⟨fun accepted => accepted.plain tight, Bep3.accepted⟩

set_option maxRecDepth 2000 in
theorem plus_sign_accepted : ¬ ∀ s : Bytes, (∃ v, BVal.parse s = .ok v) ↔ Bep3 (MAX_DEPTH + 1) s := by
  intro always
  have loose : Loose (MAX_DEPTH + 1) (ascii "i+5e") :=
    .inl ⟨ascii "+5", by decide, ascii "5", by decide, by decide, by decide, by decide, by decide⟩
  have parsed : BVal.parse (ascii "i+5e") = .ok (.int 5) := by rfl
  exact loose.not_plain ((always _).mp ⟨_, parsed⟩)

end TypeBit.Bencode
