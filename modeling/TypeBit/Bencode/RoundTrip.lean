import TypeBit.Bencode.Grammar

/-! The encoder writes texts of the grammar: decimal numbers, strings, integers, and by induction
on the nesting budget every value. With the grammar's parser theorem this is the round trip. -/

namespace TypeBit.Bencode

theorem digitChar_spec (d : Nat) (small : d < 10) :
    isDigit (ch d.digitChar) = true ∧ digitValue (ch d.digitChar) = d ∧
      (ch d.digitChar = ch '0' → d = 0) := by
  have table : ∀ e < 10, isDigit (ch e.digitChar) = true ∧ digitValue (ch e.digitChar) = e ∧
      (ch e.digitChar = ch '0' → e = 0) := by decide
  exact table d small

theorem decimal_of_lt {n : Nat} (small : n < 10) : decimal n = [ch n.digitChar] := by
  rw [decimal, Nat.toDigits_of_lt_base small]
  rfl

theorem decimal_of_ge {n : Nat} (large : 10 ≤ n) :
    decimal n = decimal (n / 10) ++ [ch (n % 10).digitChar] := by
  unfold decimal
  rw [Nat.toDigits_of_base_le (by decide) large, List.map_append]
  rfl

theorem decimal_ne_nil (n : Nat) : decimal n ≠ [] := by
  simp [decimal, Nat.toDigits_ne_nil]

theorem digitsFold_append (start : Nat) (a b : Bytes) :
    digitsFold start (a ++ b) = digitsFold (digitsFold start a) b := by
  simp [digitsFold]

theorem decimal_digits (n : Nat) : ∀ c ∈ decimal n, isDigit c = true := by
  induction n using Nat.strong_induction_on with
  | _ n ih =>
    intro c member
    by_cases small : n < 10
    · rw [decimal_of_lt small, List.mem_singleton] at member
      rw [member]
      exact (digitChar_spec n small).1
    · rw [decimal_of_ge (by omega), List.mem_append, List.mem_singleton] at member
      rcases member with earlier | rfl
      · exact ih (n / 10) (by omega) c earlier
      · exact (digitChar_spec (n % 10) (by omega)).1

theorem digitsFold_decimal (n : Nat) : digitsFold 0 (decimal n) = n := by
  induction n using Nat.strong_induction_on with
  | _ n ih =>
    by_cases small : n < 10
    · rw [decimal_of_lt small]
      have value := (digitChar_spec n small).2.1
      simpa [digitsFold] using value
    · have value := (digitChar_spec (n % 10) (by omega)).2.1
      rw [decimal_of_ge (by omega), digitsFold_append, ih (n / 10) (by omega)]
      simp only [digitsFold, List.foldl_cons, List.foldl_nil, value]
      omega

theorem decimal_length_le {n k : Nat} (positive : 0 < k) (below : n < 10 ^ k) : (decimal n).length ≤ k := by
  rw [decimal, List.length_map, Nat.length_toDigits_le_iff (by decide) positive]
  exact below

theorem decimal_head (n : Nat) (leading : (decimal n).head? = some (ch '0')) : n = 0 := by
  induction n using Nat.strong_induction_on with
  | _ n ih =>
    by_cases small : n < 10
    · rw [decimal_of_lt small] at leading
      exact (digitChar_spec n small).2.2 (by simpa using leading)
    · rw [decimal_of_ge (by omega), List.head?_append_of_ne_nil _ (decimal_ne_nil _)] at leading
      have front := ih (n / 10) (by omega) leading
      omega

theorem digitsValue_decimal (n : Nat) : digitsValue (decimal n) = some n := by
  have digits : (decimal n).all isDigit = true := List.all_eq_true.mpr (decimal_digits n)
  have nonempty : (decimal n).isEmpty = false := by simp [decimal_ne_nil]
  have value := digitsFold_decimal n
  unfold digitsFold at value
  rw [digitsValue, digits, nonempty, value]
  rfl

theorem decimal_cons (n : Nat) : ∃ c tail, decimal n = c :: tail ∧ isDigit c = true := by
  cases text : decimal n with
  | nil => exact absurd text (decimal_ne_nil n)
  | cons c tail => exact ⟨c, tail, rfl, decimal_digits n c (by simp [text])⟩

theorem stripMinus_decimal (n : Nat) : stripMinus (decimal n) = decimal n := by
  obtain ⟨c, tail, text, digit⟩ := decimal_cons n
  rw [text, stripMinus, if_neg (isDigit_ne digit (by decide))]

theorem parseI64_intText (i : Int) (low : -2 ^ 63 ≤ i) (high : i < 2 ^ 63) : parseI64 (intText i) = some i := by
  have inRange : (decide (-2 ^ 63 ≤ i) && decide (i < 2 ^ 63)) = true := by
    rw [decide_eq_true low, decide_eq_true high]
    rfl
  by_cases negative : i < 0
  · have magnitude : -(i.natAbs : Int) = i := by omega
    rw [intText, if_pos negative, parseI64, if_pos rfl, digitsValue_decimal, Option.map_some, magnitude]
    exact Option.filter_some_pos inRange
  · have magnitude : (i.natAbs : Int) = i := by omega
    obtain ⟨c, tail, text, digit⟩ := decimal_cons i.natAbs
    rw [intText, if_neg negative, text, parseI64, if_neg (isDigit_ne digit (by decide)),
      if_neg (isDigit_ne digit (by decide)), ← text, digitsValue_decimal, Option.map_some, magnitude]
    exact Option.filter_some_pos inRange

theorem stripMinus_intText (i : Int) : stripMinus (intText i) = decimal i.natAbs := by
  by_cases negative : i < 0
  · rw [intText, if_pos negative, stripMinus, if_pos rfl]
  · rw [intText, if_neg negative, stripMinus_decimal]

theorem parseBencodedInt_intText (i : Int) (low : -2 ^ 63 ≤ i) (high : i < 2 ^ 63) :
    parseBencodedInt (intText i) = .ok i := by
  have nonempty : (intText i).isEmpty = false := by
    unfold intText
    split_ifs <;> simp [decimal_ne_nil]
  have canonical : ¬ ((decimal i.natAbs).length > 1 ∧ (decimal i.natAbs).head? = some (ch '0')) := by
    rintro ⟨long, leading⟩
    rw [decimal_head _ leading] at long
    exact absurd long (by decide)
  have noMinusZero : ¬ (decimal i.natAbs = [ch '0'] ∧ (intText i).head? = some (ch '-')) := by
    rintro ⟨zero, minus⟩
    have vanishes := decimal_head i.natAbs (by rw [zero]; rfl)
    have isZero : i = 0 := by omega
    rw [isZero] at minus
    exact absurd minus (by decide)
  rw [parseBencodedInt, nonempty]
  simp only [Bool.false_eq_true, ↓reduceIte, stripMinus_intText, if_neg canonical, if_neg noMinusZero,
    parseI64_intText i low high]

theorem intText_no_e (i : Int) : ch 'e' ∉ intText i := by
  have clean : ch 'e' ∉ decimal i.natAbs := by
    intro member
    exact absurd (decimal_digits _ _ member) (by decide)
  unfold intText
  split_ifs
  · rw [List.mem_cons, not_or]
    exact ⟨by decide, clean⟩
  · exact clean

theorem intText_length (i : Int) (low : -2 ^ 63 ≤ i) (high : i < 2 ^ 63) : (intText i).length ≤ 24 := by
  have short : (decimal i.natAbs).length ≤ 20 := decimal_length_le (by decide) (by omega)
  unfold intText
  split_ifs
  · rw [List.length_cons]
    omega
  · omega

theorem encode_int_token (i : Int) (low : -2 ^ 63 ≤ i) (high : i < 2 ^ 63) :
    IntToken (encodeValue (.int i)) i :=
  ⟨intText i, by rw [encodeValue], intText_no_e i, intText_length i low high,
    parseBencodedInt_intText i low high⟩

theorem encodeBytes_token (b : Bytes) (bounded : b.length ≤ MAX_STR_LEN) : StrToken (encodeBytes b) b := by
  have short : (decimal b.length).length ≤ 10 := by
    apply decimal_length_le (by decide)
    exact lt_of_le_of_lt bounded (by decide)
  exact ⟨decimal b.length, rfl, decimal_ne_nil _, short, decimal_digits _, digitsFold_decimal _, bounded⟩

theorem insertAll_sorted (m entries : List (Bytes × BVal)) (sorted : OrdMap.Raw.Sorted (m ++ entries)) :
    insertAll m entries = m ++ entries :=
  OrdMap.Raw.foldl_insert_sorted m entries sorted

theorem roomy_sorted (m entries : List (Bytes × BVal)) (sorted : OrdMap.Raw.Sorted (m ++ entries))
    (room : (m ++ entries).length ≤ MAX_ITEMS) : Roomy m entries := by
  induction entries generalizing m with
  | nil => trivial
  | cons e tail ih =>
    have above : ∀ f ∈ m, f.1 < e.1 := fun f member =>
      (List.pairwise_append.mp sorted).2.2 f member e (by simp)
    refine ⟨?_, ?_⟩
    · simp only [List.length_append, List.length_cons] at room
      omega
    · rw [OrdMap.Raw.insert_last above]
      exact ih _ (by simpa using sorted) (by simpa using room)

theorem encode_denotes (budget : Nat) (v : BVal) (deep : v.depth < budget) (valid : v.Valid)
    (bounded : v.Bounded) : Denotes budget (encodeValue v) v := by
  induction budget generalizing v with
  | zero => omega
  | succ budget ih =>
    cases v with
    | int i =>
      simp only [BVal.Valid] at valid
      exact encode_int_token i valid.1 valid.2
    | bytes b =>
      simp only [BVal.Bounded] at bounded
      simp only [encodeValue]
      exact encodeBytes_token b bounded
    | list items =>
      simp only [BVal.depth, BVal.Valid, BVal.Bounded] at deep valid bounded
      refine ⟨items.map encodeValue, by rw [encodeValue, encodeItems_eq], ?_, bounded.1⟩
      rw [List.forall₂_map_left_iff, List.forall₂_same]
      intro item member
      have shallower := depthItems_of_mem member
      exact ih item (by omega) (valid_of_mem_items valid member) (bounded_of_mem_items bounded.2 member)
    | dict entries =>
      simp only [BVal.depth, BVal.Valid, BVal.Bounded] at deep valid bounded
      refine ⟨entries.map (fun e => encodeBytes e.1 ++ encodeValue e.2), entries,
        by rw [encodeValue, encodeEntries_eq], ?_, roomy_sorted [] entries valid.1 bounded.1,
        (insertAll_sorted [] entries valid.1).symm⟩
      rw [List.forall₂_map_left_iff, List.forall₂_same]
      intro e member
      have shallower := depthEntries_of_mem member
      have limits := bounded_of_mem_entries bounded.2 member
      exact ⟨encodeBytes e.1, encodeValue e.2, rfl, encodeBytes_token e.1 limits.1,
        ih e.2 (by omega) (valid_of_mem_entries valid.2 member) limits.2⟩

/-- Parsing what the encoder wrote gives the value back, at every limit inclusive. -/
theorem parse_encode (v : Value) (deep : v.val.depth ≤ MAX_DEPTH) (bounded : v.val.Bounded) :
    BVal.parse (v.val.encode []) = .ok v.val := by
  rw [parse_ok_iff, BVal.encode, List.nil_append]
  exact encode_denotes (MAX_DEPTH + 1) v.val (by omega) v.valid bounded

theorem parse_encode_nested :
    BVal.parse (ascii "d1:ai-7e1:bl2:xyee") =
      .ok (.dict [(ascii "a", .int (-7)), (ascii "b", .list [.bytes (ascii "xy")])]) := by
  have round := parse_encode
    ⟨.dict [(ascii "a", .int (-7)), (ascii "b", .list [.bytes (ascii "xy")])],
      ⟨by simp [OrdMap.Raw.Sorted]; decide, by simp [ValidEntries, BVal.Valid, ValidItems]⟩⟩
    (by decide) (by simp [BVal.Bounded, BoundedEntries, BoundedItems, MAX_STR_LEN, MAX_ITEMS, ascii])
  exact round

end TypeBit.Bencode
