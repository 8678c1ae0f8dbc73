import TypeBit.Ed25519.Group

/-! Points of `crypto/ed25519.rs` as 32 bytes. A decoded number is not compared with the modulus, nor the sign with a zero. -/

namespace TypeBit.Ed25519

def load64 (b : Bytes) : Nat := LittleEndian.read b

namespace Fe

def fromBytes (b : Bytes) : Fe :=
  let m := b.modify 31 (· &&& 0x7f)
  let a0 := load64 (m.take 8)
  let a1 := load64 ((m.drop 6).take 8)
  let a2 := load64 ((m.drop 12).take 8)
  let a3 := load64 ((m.drop 19).take 8)
  let a4 := load64 ((m.drop 25).take 7)
  ⟨[a0 &&& MASK51, (a1 >>> 3) &&& MASK51, (a2 >>> 6) &&& MASK51, (a3 >>> 1) &&& MASK51, (a4 >>> 4) &&& MASK51]⟩

def toBytes (a : Fe) : Bytes :=
  let l0 := a.limbs.getD 0 0
  let l1 := a.limbs.getD 1 0
  let l2 := a.limbs.getD 2 0
  let l3 := a.limbs.getD 3 0
  let l4 := a.limbs.getD 4 0
  let o0 := l0 ||| ((l1 &&& 0x1FFF) <<< 51) % 2 ^ 64
  let o1 := (l1 >>> 13) ||| ((l2 &&& 0x3FFFFFF) <<< 38) % 2 ^ 64
  let o2 := (l2 >>> 26) ||| ((l3 &&& 0x7FFFFFFFFF) <<< 25) % 2 ^ 64
  let o3 := (l3 >>> 39) ||| (l4 <<< 12) % 2 ^ 64
  [o0, o1, o2, o3].flatMap (LittleEndian.write 8)

def isNegative (a : Fe) : Bool := a.limbs.getD 0 0 &&& 1 == 1

def sqrtM1 : Fe :=
  fromBytes [0xB0, 0xA0, 0x0E, 0x4A, 0x27, 0x1B, 0xEE, 0xC4, 0x78, 0xE4, 0x2F, 0xAD, 0x06, 0x18, 0x43,
    0x2F, 0xA7, 0xD7, 0xFB, 0x3D, 0x99, 0x00, 0x4D, 0x2B, 0x0B, 0xDF, 0xC1, 0x4F, 0x80, 0x24,
    0x83, 0x2B]

/-- The candidate is the power `(p + 3) / 8`; where it does not do, its product with `sqrt(-1)` may. -/
def sqrt (a : Fe) : Except Fault (Option Fe) := do
  let r ← pow a (0xFE :: List.replicate 30 0xFF ++ [0x0F])
  if (← square r) = a then return some r
  else do
    let r2 ← mul r sqrtM1
    if (← square r2) = a then return some r2 else return none

end Fe

def Fe.withSign (x : Fe) (negative : Bool) : Except Fault Fe := if x.isNegative ≠ negative then Fe.neg x else .ok x

namespace Point

def decompress (b : Bytes) : Except Fault (Option Point) := do
  let sign := b.getD 31 0 >>> 7
  let m := b.modify 31 (· &&& 0x7f)
  let y := Fe.fromBytes m
  let y2 ← Fe.square y
  let d ← dConstant
  let u ← Fe.sub y2 .ONE
  let v ← Fe.add (← Fe.mul d y2) .ONE
  match ← (← Fe.mul u (← v.invert)).sqrt with
  | none => return none
  | some x => do
    let x ← x.withSign (sign == 1)
    return some (← fromXy x y)

def compress (P : Point) : Except Fault Bytes := do
  let zi ← P.z.invert
  let x ← Fe.mul P.x zi
  let y ← Fe.mul P.y zi
  let out := y.toBytes
  return if x.isNegative then out.modify 31 (· ||| 0x80) else out

end Point

/-! ### Bytes -/

namespace Fe

theorem read_modify {b : Bytes} (length : b.length = 32) (f : UInt8 → UInt8) :
    ∃ last : UInt8, last = b.getD 31 0 ∧ last.toNat = LittleEndian.read b / 256 ^ 31 ∧
      LittleEndian.read (b.modify 31 f) + 256 ^ 31 * last.toNat = LittleEndian.read b + 256 ^ 31 * (f last).toNat := by
  have inside : 31 < b.length := by rw [length]; norm_num
  have window := Limbs.read_window b 31 1
  have below := LittleEndian.read_lt b
  rw [length] at below
  have one : (b.drop 31).take 1 = [b[31]] := by
    rw [List.drop_eq_getElem_cons inside, List.take_succ_cons, List.take_zero]
  rw [one] at window
  have set := @Limbs.ofDigits_set 256 (b.map UInt8.toNat) 31 (by rw [List.length_map]; exact inside) (f b[31]).toNat
  have old : (b.map UInt8.toNat).getD 31 0 = b[31].toNat := by
    rw [List.getD_eq_getElem _ _ (by rw [List.length_map]; exact inside), List.getElem_map]
  have modified : b.modify 31 f = b.set 31 (f b[31]) := by
    rw [List.modify_eq_set, List.getElem?_eq_getElem inside]
    rfl
  rw [old, ← Limbs.read_eq_ofDigits, ← List.map_set, ← Limbs.read_eq_ofDigits, ← modified] at set
  simp only [LittleEndian.read] at window
  exact ⟨b[31], (List.getD_eq_getElem _ _ inside).symm, by omega, set⟩

theorem read_low_bits {b : Bytes} (length : b.length = 32) :
    LittleEndian.read (b.modify 31 (· &&& 0x7f)) = LittleEndian.read b % 2 ^ 255 := by
  obtain ⟨last, -, value, modified⟩ := read_modify length (· &&& 0x7f)
  have mask : (last &&& 0x7f).toNat = last.toNat % 2 ^ 7 := by
    rw [UInt8.toNat_and]
    exact Nat.and_two_pow_sub_one_eq_mod _ 7
  rw [mask] at modified
  omega

theorem read_high_bit {b : Bytes} (length : b.length = 32) (small : LittleEndian.read b < 2 ^ 255) :
    LittleEndian.read (b.modify 31 (· ||| 0x80)) = LittleEndian.read b + 2 ^ 255 := by
  obtain ⟨last, -, value, modified⟩ := read_modify length (· ||| 0x80)
  have set : (last ||| 0x80).toNat = last.toNat + 2 ^ 7 := by
    have low : last.toNat < 2 ^ 7 := by omega
    rw [UInt8.toNat_or, Nat.or_comm]
    have shifted := Nat.shiftLeft_add_eq_or_of_lt low 1
    rw [Nat.shiftLeft_eq, Nat.one_mul] at shifted
    exact shifted.symm.trans (Nat.add_comm _ _)
  rw [set] at modified
  omega

theorem limb (m : Bytes) (s n r k : Nat) (place : 8 * s + r = 51 * k) (inside : r + 51 ≤ 8 * n) :
    (load64 ((m.drop s).take n) >>> r) &&& MASK51 = LittleEndian.read m / 2 ^ (51 * k) % 2 ^ 51 := by
  have mask : (load64 ((m.drop s).take n) >>> r) &&& MASK51 = (load64 ((m.drop s).take n) >>> r) % 2 ^ 51 :=
    Nat.and_two_pow_sub_one_eq_mod _ 51
  rw [mask, load64, Limbs.read_window, Nat.shiftRight_eq_div_pow, show 256 = 2 ^ 8 from rfl, ← pow_mul, ← pow_mul,
    Limbs.mod_div_mod inside, Nat.div_div_eq_div_mul, ← pow_add, place]

theorem fromBytes_spec {b : Bytes} (length : b.length = 32) :
    Carried (fromBytes b).limbs ∧ (fromBytes b).value = LittleEndian.read b % 2 ^ 255 := by
  have low := read_low_bits length
  rw [fromBytes]
  generalize b.modify 31 (· &&& 0x7f) = m at *
  have l0 := limb m 0 8 0 0 rfl (by norm_num)
  have l1 := limb m 6 8 3 1 rfl (by norm_num)
  have l2 := limb m 12 8 6 2 rfl (by norm_num)
  have l3 := limb m 19 8 1 3 rfl (by norm_num)
  have l4 := limb m 25 7 4 4 rfl (by norm_num)
  rw [List.drop_zero, Nat.shiftRight_zero] at l0
  dsimp only
  rw [l0, l1, l2, l3, l4, value_five, low]
  have kept (k : Nat) : LittleEndian.read b % 2 ^ 255 / 2 ^ (51 * k) % 2 ^ 51 < 2 ^ 51 := Nat.mod_lt _ (by norm_num)
  refine ⟨carried_five (kept 0) (kept 1) (kept 2) (kept 3) (kept 4), ?_⟩
  omega

theorem or_shift {x y i : Nat} (low : x < 2 ^ i) (high : y * 2 ^ i < 2 ^ 64) : x ||| (y <<< i) % 2 ^ 64 = x + y * 2 ^ i := by
  rw [Nat.shiftLeft_eq, Nat.mod_eq_of_lt high, Nat.or_comm, ← Nat.shiftLeft_eq, ← Nat.shiftLeft_add_eq_or_of_lt low, Nat.add_comm]

theorem toBytes_spec {a : Fe} (carried : Carried a.limbs) : a.toBytes = LittleEndian.write 32 a.value := by
  obtain ⟨limbs⟩ := a
  obtain ⟨l0, l1, l2, l3, l4, rfl, h0, h1, h2, h3, h4⟩ := carried.limbs
  have mask1 : l1 &&& 0x1FFF = l1 % 2 ^ 13 := Nat.and_two_pow_sub_one_eq_mod _ 13
  have mask2 : l2 &&& 0x3FFFFFF = l2 % 2 ^ 26 := Nat.and_two_pow_sub_one_eq_mod _ 26
  have mask3 : l3 &&& 0x7FFFFFFFFF = l3 % 2 ^ 39 := Nat.and_two_pow_sub_one_eq_mod _ 39
  rw [toBytes]
  simp only [List.getD_cons_zero, List.getD_cons_succ]
  rw [mask1, mask2, mask3, Nat.shiftRight_eq_div_pow, Nat.shiftRight_eq_div_pow, Nat.shiftRight_eq_div_pow,
    or_shift (by omega) (by omega), or_shift (by omega) (by omega), or_shift (by omega) (by omega),
    or_shift (by omega) (by omega), value_five]
  generalize total : l0 + 2 ^ 51 * (l1 + 2 ^ 51 * (l2 + 2 ^ 51 * (l3 + 2 ^ 51 * l4))) = n
  have words : LittleEndian.write 32 n = LittleEndian.write 8 n ++ (LittleEndian.write 8 (n / 256 ^ 8) ++
      (LittleEndian.write 8 (n / 256 ^ 16) ++ LittleEndian.write 8 (n / 256 ^ 24))) := by
    rw [Limbs.write_add 8 24, Limbs.write_add 8 16, Limbs.write_add 8 8, Nat.div_div_eq_div_mul, Nat.div_div_eq_div_mul]
    rfl
  have o0 : l0 + l1 % 2 ^ 13 * 2 ^ 51 = n % 256 ^ 8 := by omega
  have o1 : l1 / 2 ^ 13 + l2 % 2 ^ 26 * 2 ^ 38 = n / 256 ^ 8 % 256 ^ 8 := by omega
  have o2 : l2 / 2 ^ 26 + l3 % 2 ^ 39 * 2 ^ 25 = n / 256 ^ 16 % 256 ^ 8 := by omega
  have o3 : l3 / 2 ^ 39 + l4 * 2 ^ 12 = n / 256 ^ 24 % 256 ^ 8 := by omega
  rw [words, o0, o1, o2, o3]
  simp only [List.flatMap_cons, List.flatMap_nil, List.append_nil, LittleEndian.write_mod]

theorem isNegative_iff {a : Fe} (carried : Carried a.limbs) : a.isNegative = true ↔ a.value % 2 = 1 := by
  obtain ⟨limbs⟩ := a
  obtain ⟨l0, l1, l2, l3, l4, rfl, -⟩ := carried.limbs
  rw [isNegative, List.getD_cons_zero, Nat.and_one_is_mod, beq_iff_eq, value_five]
  omega

theorem sqrtM1_spec : sqrtM1.Canonical ∧ sqrtM1.toField ^ 2 = -1 := by
  have value : sqrtM1.value = sqrtMinusOne := by decide
  refine ⟨⟨⟨rfl, by decide⟩, by decide⟩, ?_⟩
  rw [toField, value]
  exact sqrtMinusOne_sq

theorem Canonical.val {a : Fe} (canonical : a.Canonical) : a.toField.val = a.value := ZMod.val_natCast_of_lt canonical.reduced

/-! ### Square roots -/

theorem sqrt_spec {a : Fe} (canonical : a.Canonical) : Returns (sqrt a) fun o =>
    o = none ∧ ¬ IsSquare a.toField ∨ ∃ r, o = some r ∧ r.Canonical ∧ r.toField ^ 2 = a.toField := by
  have exponent : LittleEndian.read (0xFE :: List.replicate 30 0xFF ++ [0x0F]) = (p + 3) / 8 := by decide
  apply (pow_spec canonical.carried rfl).bind
  intro r ⟨r_canonical, power⟩
  rw [exponent] at power
  apply (square_spec r_canonical.carried).bind
  intro s ⟨s_canonical, square⟩
  by_cases first : s = a
  · rw [if_pos first]
    exact .ret (.inr ⟨r, rfl, r_canonical, by rw [← square, first]⟩)
  · rw [if_neg first]
    obtain ⟨unit_canonical, unit⟩ := sqrtM1_spec
    apply (mul_spec r_canonical.carried unit_canonical.carried).bind
    intro r2 ⟨r2_canonical, product⟩
    apply (square_spec r2_canonical.carried).bind
    intro s2 ⟨s2_canonical, square2⟩
    by_cases second : s2 = a
    · rw [if_pos second]
      exact .ret (.inr ⟨r2, rfl, r2_canonical, by rw [← square2, second]⟩)
    · rw [if_neg second]
      refine .ret (.inl ⟨rfl, ?_⟩)
      rintro ⟨root, same⟩
      -- one of the two candidates would have done
      have neither : r.toField ^ 2 ≠ a.toField ∧ -r.toField ^ 2 ≠ a.toField := by
        constructor
        · exact fun equal => first (s_canonical.ext canonical (square.trans equal))
        · intro equal
          apply second (s2_canonical.ext canonical _)
          rw [square2, product, mul_pow, unit, mul_neg_one, equal]
      by_cases zero : root = 0
      · rw [zero, mul_zero] at same
        apply neither.1
        rw [power, same, zero_pow (by decide), zero_pow two_ne_zero]
      · obtain ⟨m, half, candidates⟩ : ∃ m, p - 1 = m + m ∧ 2 * ((p + 3) / 8 * 2) = m + 2 := ⟨2 ^ 254 - 10, by decide, by decide⟩
        have fermat : root ^ m * root ^ m = 1 := by
          rw [← pow_add, ← half]
          exact ZMod.pow_card_sub_one_eq_one zero
        have candidate : r.toField ^ 2 = root ^ m * a.toField := by
          rw [power, same, ← sq, ← pow_mul, ← pow_mul, ← pow_add, candidates]
        rcases mul_self_eq_one_iff.mp fermat with one | minus
        · exact neither.1 (by rw [candidate, one, one_mul])
        · exact neither.2 (by rw [candidate, minus, neg_one_mul, neg_neg])

theorem neg_parity {a r : Fe} (first : a.Canonical) (second : r.Canonical) (some_ : a.toField ≠ 0)
    (negative : r.toField = -a.toField) : r.value % 2 = 1 ↔ ¬ a.value % 2 = 1 := by
  have odd : p = 2 ^ 255 - 19 := rfl
  have nonzero : a.value ≠ 0 := by
    intro zero
    apply some_
    rw [toField, zero, Nat.cast_zero]
  have value : r.value = p - a.value := by
    rw [← second.val, negative, ZMod.neg_val, if_neg some_, first.val]
  have below := first.reduced
  omega

theorem withSign_spec {x : Fe} (canonical : x.Canonical) (negative : Bool) : Returns (x.withSign negative) fun r =>
    r.Canonical ∧ r.toField ^ 2 = x.toField ^ 2 ∧ (r.toField ≠ 0 → (r.value % 2 = 1 ↔ negative = true)) := by
  have parity := isNegative_iff canonical.carried
  rw [withSign]
  by_cases other : x.isNegative ≠ negative
  · rw [if_pos other]
    apply (neg_spec canonical.carried).mono
    intro r ⟨canonical', same⟩
    refine ⟨canonical', by rw [same, neg_sq], fun some_ => ?_⟩
    have nonzero : x.toField ≠ 0 := fun zero => some_ (by rw [same, zero, neg_zero])
    rw [neg_parity canonical canonical' nonzero same, ← parity]
    cases known : x.isNegative <;> cases wanted : negative <;> simp_all
  · rw [if_neg other]
    refine .ok ⟨canonical, rfl, fun _ => ?_⟩
    rw [← parity, not_not.mp other]

end Fe

/-! ### Points -/

def encode (A : curve.Point) : Bytes := LittleEndian.write 32 (A.y.val + 2 ^ 255 * (A.x.val % 2))

theorem denominator_ne (y : ZMod p) : d * y ^ 2 + 1 ≠ 0 := by
  intro zero
  have some_ : y ≠ 0 := by
    intro none
    rw [none, zero_pow two_ne_zero, mul_zero, zero_add] at zero
    exact one_ne_zero zero
  apply d_nonsquare
  refine ⟨sqrtMinusOne / y, ?_⟩
  rw [div_mul_div_comm, ← sq, ← sq, sqrtMinusOne_sq, eq_div_iff (pow_ne_zero 2 some_)]
  linear_combination zero

theorem on_iff (x y : ZMod p) : curve.On x y ↔ x ^ 2 = (y ^ 2 - 1) * (d * y ^ 2 + 1)⁻¹ := by
  rw [← div_eq_mul_inv, eq_div_iff (denominator_ne y)]
  change -1 * x ^ 2 + y ^ 2 = 1 + d * x ^ 2 * y ^ 2 ↔ _
  constructor
  · intro on
    linear_combination -on
  · intro solved
    linear_combination -solved

namespace Point

theorem compress_spec {P : Point} {A : curve.Point} (carried : P.Carried) (same : P.Represents A) :
    Returns (compress P) (· = encode A) := by
  apply (Fe.invert_spec carried.z).bind
  intro zi ⟨zi_canonical, inverse⟩
  apply (Fe.mul_spec carried.x zi_canonical.carried).bind
  intro x ⟨x_canonical, x_value⟩
  apply (Fe.mul_spec carried.y zi_canonical.carried).bind
  intro y ⟨y_canonical, y_value⟩
  apply Returns.ret
  have x_val : x.value = A.x.val := by
    rw [← x_canonical.val, x_value, inverse, same.x, mul_comm P.z.toField, mul_inv_cancel_right₀ same.z]
  have y_val : y.value = A.y.val := by
    rw [← y_canonical.val, y_value, inverse, same.y, mul_comm P.z.toField, mul_inv_cancel_right₀ same.z]
  have small := Fe.value_lt y_canonical.carried
  have length : y.toBytes.length = 32 := by rw [Fe.toBytes_spec y_canonical.carried, LittleEndian.length_write]
  have read : LittleEndian.read y.toBytes = A.y.val := by
    rw [Fe.toBytes_spec y_canonical.carried, LittleEndian.read_write_of_lt (by omega), y_val]
  rw [encode, ← x_val, ← read]
  by_cases odd : x.value % 2 = 1
  · have length' : (y.toBytes.modify 31 (· ||| 0x80)).length = 32 := by rw [List.length_modify, length]
    rw [if_pos ((Fe.isNegative_iff x_canonical.carried).mpr odd), odd,
      ← LittleEndian.write_read (y.toBytes.modify 31 (· ||| 0x80)), length', Fe.read_high_bit length (by omega), Nat.mul_one]
  · have even : x.value % 2 = 0 := by omega
    rw [if_neg fun negative => odd ((Fe.isNegative_iff x_canonical.carried).mp negative), even, Nat.mul_zero, Nat.add_zero]
    exact (length ▸ LittleEndian.write_read y.toBytes).symm

def writtenY (b : Bytes) : Nat := LittleEndian.read b % 2 ^ 255

def writtenSign (b : Bytes) : Nat := LittleEndian.read b / 2 ^ 255

theorem sign_iff {b : Bytes} (length : b.length = 32) : (b.getD 31 0 >>> 7 == 1) = true ↔ writtenSign b = 1 := by
  obtain ⟨last, same, value, -⟩ := Fe.read_modify length id
  have shift : (last >>> 7).toNat = writtenSign b := by
    rw [UInt8.toNat_shiftRight, Nat.shiftRight_eq_div_pow, value, Nat.div_div_eq_div_mul]
    rfl
  rw [← same, beq_iff_eq, ← UInt8.toNat_inj, shift]
  rfl

theorem writtenSign_lt {b : Bytes} (length : b.length = 32) : writtenSign b < 2 := by
  have below := LittleEndian.read_lt b
  rw [length] at below
  unfold writtenSign
  omega

theorem decompress_spec {b : Bytes} (length : b.length = 32) : Returns (decompress b) fun o =>
    o = none ∧ (¬ ∃ x, curve.On x (writtenY b)) ∨
    ∃ P A, o = some P ∧ P.Carried ∧ P.Represents A ∧ A.y = writtenY b ∧ (A.x ≠ 0 → A.x.val % 2 = writtenSign b) := by
  have masked : (b.modify 31 (· &&& 0x7f)).length = 32 := by rw [List.length_modify, length]
  obtain ⟨y_carried, y_value⟩ := Fe.fromBytes_spec masked
  rw [Fe.read_low_bits length, Nat.mod_mod] at y_value
  have y_field : (Fe.fromBytes (b.modify 31 (· &&& 0x7f))).toField = writtenY b := by
    rw [Fe.toField, y_value, writtenY]
  rw [decompress]
  generalize Fe.fromBytes (b.modify 31 (· &&& 0x7f)) = y at *
  apply (Fe.square_spec y_carried).bind
  rintro y2 ⟨y2_canonical, y2_value⟩
  apply dConstant_spec.bind
  rintro d' ⟨d_canonical, d_value⟩
  apply (Fe.sub_spec y2_canonical.carried Fe.one_carried).bind
  rintro u ⟨u_canonical, u_value⟩
  apply (Fe.mul_spec d_canonical.carried y2_canonical.carried).bind
  rintro dy2 ⟨dy2_canonical, dy2_value⟩
  apply (Fe.add_spec dy2_canonical.carried Fe.one_carried).bind
  rintro v ⟨v_canonical, v_value⟩
  apply (Fe.invert_spec v_canonical.carried).bind
  rintro vi ⟨vi_canonical, vi_value⟩
  apply (Fe.mul_spec u_canonical.carried vi_canonical.carried).bind
  rintro q ⟨q_canonical, q_value⟩
  have quotient : q.toField = ((writtenY b : ZMod p) ^ 2 - 1) * (d * (writtenY b : ZMod p) ^ 2 + 1)⁻¹ := by
    rw [q_value, u_value, vi_value, v_value, dy2_value, d_value, y2_value, y_field, Fe.toField_one]
  apply (Fe.sqrt_spec q_canonical).bind
  rintro o (⟨rfl, no_root⟩ | ⟨x, rfl, x_canonical, x_value⟩)
  · refine .ret (.inl ⟨rfl, ?_⟩)
    rintro ⟨x, on⟩
    apply no_root
    rw [quotient, ← (on_iff x _).mp on, sq]
    exact ⟨x, rfl⟩
  · have signed := Fe.withSign_spec x_canonical (b.getD 31 0 >>> 7 == 1)
    apply signed.bind
    rintro x' ⟨x'_canonical, square, parity⟩
    rw [x_value] at square
    have on : curve.On x'.toField y.toField := (on_iff _ _).mpr (by rw [square, quotient, y_field])
    apply (fromXy_spec x'_canonical.carried y_carried on).bind
    rintro P ⟨carried, same⟩
    refine .ret (.inr ⟨P, _, rfl, carried, same, y_field, fun some_ => ?_⟩)
    have sign := sign_iff length
    have bit := writtenSign_lt length
    rw [← parity some_] at sign
    change x'.toField.val % 2 = _
    rw [x'_canonical.val]
    omega

theorem read_encode (A : curve.Point) : LittleEndian.read (encode A) = A.y.val + 2 ^ 255 * (A.x.val % 2) := by
  have y := ZMod.val_lt A.y
  have modulus : p = 2 ^ 255 - 19 := rfl
  exact LittleEndian.read_write_of_lt (by omega)

theorem writtenY_encode (A : curve.Point) : writtenY (encode A) = A.y.val := by
  have y := ZMod.val_lt A.y
  have modulus : p = 2 ^ 255 - 19 := rfl
  rw [writtenY, read_encode]
  omega

theorem writtenSign_encode (A : curve.Point) : writtenSign (encode A) = A.x.val % 2 := by
  have y := ZMod.val_lt A.y
  have modulus : p = 2 ^ 255 - 19 := rfl
  rw [writtenSign, read_encode]
  omega

theorem val_neg_parity {x : ZMod p} (some_ : x ≠ 0) : (-x).val % 2 ≠ x.val % 2 := by
  have below := ZMod.val_lt x
  have nonzero : x.val ≠ 0 := fun zero => some_ ((ZMod.val_eq_zero x).mp zero)
  have odd : p = 2 ^ 255 - 19 := rfl
  rw [ZMod.neg_val, if_neg some_]
  omega

theorem decompress_encode (A : curve.Point) :
    Returns (decompress (encode A)) fun o => ∃ P, o = some P ∧ P.Carried ∧ P.Represents A := by
  have y : ((writtenY (encode A) : Nat) : ZMod p) = A.y := by rw [writtenY_encode, ZMod.natCast_zmod_val]
  have length : (encode A).length = 32 := LittleEndian.length_write 32 _
  apply (decompress_spec length).mono
  rintro o (⟨-, absent⟩ | ⟨P, B, rfl, carried, same, y', parity⟩)
  · exact absurd ⟨A.x, by rw [y]; exact A.on⟩ absent
  · have ys : B.y = A.y := y'.trans y
    have squares : B.x ^ 2 = A.x ^ 2 := by rw [(on_iff _ _).mp B.on, (on_iff _ _).mp A.on, ys]
    have xs : B.x = A.x := by
      rcases sq_eq_sq_iff_eq_or_eq_neg.mp squares with equal | opposite
      · exact equal
      · by_cases zero : A.x = 0
        · rw [opposite, zero, neg_zero]
        · have some_ : B.x ≠ 0 := by
            rw [opposite]
            exact neg_ne_zero.mpr zero
          have sign := (parity some_).trans (writtenSign_encode A)
          rw [opposite] at sign
          exact absurd sign (val_neg_parity zero)
    have points : B = A := EdwardsCurve.Point.ext xs ys
    exact ⟨P, rfl, carried, points ▸ same⟩

def DecodesCanonically (b : Bytes) : Prop :=
  ∀ P, decompress b = .ok (some P) → P.Extended ∧ compress P = .ok b

theorem decodesCanonically_iff {b : Bytes} (length : b.length = 32) : DecodesCanonically b ↔
    (¬ ∃ x, curve.On x (writtenY b)) ∨ writtenY b < p ∧ ¬ ((writtenY b : ZMod p) ^ 2 = 1 ∧ writtenSign b = 1) := by
  obtain ⟨o, decoded, ⟨rfl, absent⟩ | ⟨P, A, rfl, carried, same, y, parity⟩⟩ := decompress_spec length
  · refine iff_of_true ?_ (.inl absent)
    intro P decoded'
    rw [decoded] at decoded'
    cases decoded'
  · have some_point : ∃ x, curve.On x (writtenY b) := ⟨A.x, by rw [← y]; exact A.on⟩
    have encoded : compress P = .ok (encode A) := by
      obtain ⟨out, compressed, rfl⟩ := compress_spec carried same
      exact compressed
    have bit := writtenSign_lt length
    have whole : LittleEndian.read b = writtenY b + 2 ^ 255 * writtenSign b := (Nat.mod_add_div _ _).symm
    have unique : DecodesCanonically b ↔ encode A = b := by
      constructor
      · intro canonical
        obtain ⟨-, compressed⟩ := canonical P decoded
        exact Except.ok.inj (encoded.symm.trans compressed)
      · intro equal P' decoded'
        have points : P = P' := Option.some.inj (Except.ok.inj (decoded.symm.trans decoded'))
        obtain ⟨extended, -⟩ := represents_iff.mp same
        rw [← points]
        exact ⟨extended, by rw [encoded, equal]⟩
    have parts : encode A = b ↔ A.y.val = writtenY b ∧ A.x.val % 2 = writtenSign b := by
      constructor
      · rintro rfl
        exact ⟨(writtenY_encode A).symm, (writtenSign_encode A).symm⟩
      · rintro ⟨equal, sign⟩
        rw [encode, equal, sign, ← whole, ← length]
        exact LittleEndian.write_read b
    have reduced : A.y.val = writtenY b ↔ writtenY b < p := by
      rw [y, ZMod.val_natCast]
      exact ⟨fun equal => equal ▸ Nat.mod_lt _ (by decide), Nat.mod_eq_of_lt⟩
    have zero : A.x = 0 ↔ (writtenY b : ZMod p) ^ 2 = 1 := by
      have solved := (on_iff _ _).mp A.on
      rw [y] at solved
      rw [← sq_eq_zero_iff, solved, mul_eq_zero, or_iff_left (inv_ne_zero (denominator_ne _)), sub_eq_zero]
    have sign : A.x.val % 2 = writtenSign b ↔ ¬ (A.x = 0 ∧ writtenSign b = 1) := by
      by_cases none : A.x = 0
      · rw [none, ZMod.val_zero, eq_self, true_and]
        omega
      · exact iff_of_true (parity none) fun both => none both.1
    rw [unique, parts, reduced, sign, zero, or_iff_right (not_not.mpr some_point)]

/-- A string is decoded canonically exactly if no point of the curve has the second coordinate it writes, or that is below the
modulus and not that of a point without a sign, written with one; and every point is decoded from what it is encoded as. -/
theorem decompress_canonical_iff {b : Bytes} (length : b.length = 32) {P : Point} (carried : P.Carried) (extended : P.Extended) :
    (DecodesCanonically b ↔
      (¬ ∃ x, curve.On x (writtenY b)) ∨ writtenY b < p ∧ ¬ ((writtenY b : ZMod p) ^ 2 = 1 ∧ writtenSign b = 1)) ∧
      Returns (compress P >>= decompress) fun o => ∃ Q, o = some Q ∧ ∃ e : Q.Extended, Q.affine e = P.affine extended := by
  refine ⟨decodesCanonically_iff length, ?_⟩
  apply (compress_spec carried (represents_iff.mpr ⟨extended, rfl⟩)).bind
  rintro out rfl
  apply (decompress_encode (P.affine extended)).mono
  rintro o ⟨Q, rfl, -, same⟩
  exact ⟨Q, rfl, represents_iff.mp same⟩

/-- The encoding of zero, which is a second coordinate, and the point of order two. -/
theorem decompress_canonical_zero : DecodesCanonically (List.replicate 32 0) ∧
    Returns (compress orderTwo >>= decompress) fun o =>
      ∃ Q, o = some Q ∧ ∃ e : Q.Extended, Q.affine e = orderTwo.affine orderTwo_extended := by
  have carried : orderTwo.Carried := ⟨Fe.zero_carried, ⟨rfl, by decide⟩, Fe.one_carried, Fe.zero_carried⟩
  have length : (List.replicate 32 0 : Bytes).length = 32 := rfl
  obtain ⟨canonical, decoded⟩ := decompress_canonical_iff length carried orderTwo_extended
  refine ⟨canonical.mpr (.inr ⟨by decide, ?_⟩), decoded⟩
  rintro ⟨-, sign⟩
  exact absurd sign (by decide)

/-- The modulus is decoded as zero is; and one is decoded with a sign. -/
theorem decompress_not_canonical :
    ¬ DecodesCanonically (LittleEndian.write 32 p) ∧ ¬ DecodesCanonically (LittleEndian.write 32 (2 ^ 255 + 1)) := by
  constructor
  · have y : writtenY (LittleEndian.write 32 p) = p := by decide
    rw [decodesCanonically_iff (LittleEndian.length_write 32 p), y]
    rintro (absent | ⟨reduced, -⟩)
    · apply absent
      refine ⟨sqrtMinusOne, ?_⟩
      rw [on_iff, ZMod.natCast_self, sqrtMinusOne_sq]
      ring
    · exact Nat.lt_irrefl p reduced
  · have y : writtenY (LittleEndian.write 32 (2 ^ 255 + 1)) = 1 := by decide
    have sign : writtenSign (LittleEndian.write 32 (2 ^ 255 + 1)) = 1 := by decide
    rw [decodesCanonically_iff (LittleEndian.length_write 32 _), y, sign]
    rintro (absent | ⟨-, unsigned⟩)
    · apply absent
      refine ⟨0, ?_⟩
      rw [on_iff, Nat.cast_one]
      ring
    · exact unsigned ⟨by rw [Nat.cast_one, one_pow], rfl⟩

end Point
end TypeBit.Ed25519
