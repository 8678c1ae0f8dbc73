import Mathlib.NumberTheory.LegendreSymbol.Basic
import TypeBit.Lib.Edwards
import TypeBit.Ed25519.Arith

/-! The group of `crypto/ed25519.rs`: points in extended coordinates, and that their operations are those of the curve. -/

namespace TypeBit.Ed25519
open LittleEndian

structure Point where
  x : Fe
  y : Fe
  z : Fe
  t : Fe
  deriving DecidableEq, Repr

def dConstant : Except Fault Fe := do
  let a := Fe.mk [121665, 0, 0, 0, 0]
  let b := Fe.mk [121666, 0, 0, 0, 0]
  Fe.neg (← Fe.mul a (← b.invert))

namespace Point

def identity : Point := ⟨.ZERO, .ONE, .ONE, .ZERO⟩

def fromXy (x y : Fe) : Except Fault Point := do
  let t ← Fe.mul x y
  return ⟨x, y, .ONE, t⟩

def add (a b : Point) : Except Fault Point := do
  let d2 ← Fe.mul (← dConstant) ⟨[2, 0, 0, 0, 0]⟩
  let a' ← Fe.sub a.y a.x
  let b' ← Fe.sub b.y b.x
  let c ← Fe.mul a' b'
  let d ← Fe.add a.y a.x
  let e ← Fe.add b.y b.x
  let f ← Fe.mul d e
  let g ← Fe.mul a.t b.t
  let g ← Fe.mul g d2
  let h ← Fe.mul a.z b.z
  let h ← Fe.add h h
  let i ← Fe.sub f c
  let j ← Fe.sub h g
  let k ← Fe.add h g
  let l ← Fe.add f c
  let x3 ← Fe.mul i j
  let y3 ← Fe.mul k l
  let t3 ← Fe.mul i l
  let z3 ← Fe.mul j k
  return ⟨x3, y3, z3, t3⟩

def double (a : Point) : Except Fault Point := do
  let a' ← Fe.square a.x
  let b ← Fe.square a.y
  let c ← Fe.square a.z
  let c ← Fe.add c c
  let d ← Fe.neg a'
  let e ← Fe.add a.x a.y
  let e ← Fe.sub (← Fe.square e) (← Fe.add a' b)
  let g ← Fe.add d b
  let f ← Fe.sub g c
  let h ← Fe.sub d b
  let x3 ← Fe.mul e f
  let y3 ← Fe.mul g h
  let t3 ← Fe.mul e h
  let z3 ← Fe.mul f g
  return ⟨x3, y3, z3, t3⟩

def table (P : Point) : Except Fault (List Point) :=
  (List.range 14).foldlM (fun table j => do
    let next ← add (table.getD (j + 1) identity) P
    return table.set (j + 2) next) ((List.replicate 16 identity).set 1 P)

def nibble (scalar : Bytes) (i : Nat) : Nat := ((scalar.getD (i / 2) 0).toNat >>> (i % 2 * 4)) &&& 0x0f

def scalarMul (P : Point) (scalar : Bytes) : Except Fault Point := do
  let table ← table P
  (List.range 64).reverse.foldlM (fun result i => do
    let result ← (List.range 4).foldlM (fun r _ => double r) result
    add result (table.getD (nibble scalar i) identity)) identity

end Point

/-! ### The curve -/

def d : ZMod p := -121665 / 121666

def sqrtMinusOne : Nat := 19681161376707505956807079304988542015446066515923890162744021073123829784752

def dValue : Nat := 37095705934669439343138083508754565189542113879843219016388785533085940283555

theorem cast_ne_zero {n : Nat} (other : n % p ≠ 0) : (n : ZMod p) ≠ 0 := by
  rw [Ne, ZMod.natCast_eq_zero_iff]
  exact fun divides => other (Nat.mod_eq_zero_of_dvd divides)

theorem d_eq : d = dValue := by
  have some_ : ((121666 : Nat) : ZMod p) ≠ 0 := cast_ne_zero (by decide)
  have product : ((dValue * 121666 + 121665 : Nat) : ZMod p) = 0 := by
    rw [ZMod.natCast_eq_zero_iff]
    decide
  rw [d, div_eq_iff (by exact_mod_cast some_)]
  push_cast at product
  linear_combination -product

theorem sqrtMinusOne_sq : (sqrtMinusOne : ZMod p) ^ 2 = -1 := by
  have sum : ((sqrtMinusOne ^ 2 + 1 : Nat) : ZMod p) = 0 := by
    rw [ZMod.natCast_eq_zero_iff]
    decide
  push_cast at sum
  linear_combination sum

theorem d_nonsquare : ¬ IsSquare d := by
  have some_ : (dValue : ZMod p) ≠ 0 := cast_ne_zero (by decide)
  have power : ¬ Pratt.powMod p 256 1 dValue (p / 2) % p = 1 % p := by decide +kernel
  rw [d_eq, ZMod.euler_criterion p some_, ← Nat.cast_one, ← @Pratt.powMod_mod p 256 (p / 2) dValue 1 (by decide)]
  exact power

def curve : EdwardsCurve (ZMod p) where
  a := -1
  d := d
  root := sqrtMinusOne
  square := sqrtMinusOne_sq
  nonsquare := d_nonsquare
  two_ne_zero := by exact_mod_cast cast_ne_zero (n := 2) (by decide)

theorem toField_small (n : Nat) : (Fe.mk [n, 0, 0, 0, 0]).toField = n := by
  rw [Fe.toField, Fe.value_five]
  norm_num

theorem dConstant_spec : Returns dConstant fun r => r.Canonical ∧ r.toField = d := by
  have a : (Fe.mk [121665, 0, 0, 0, 0]).toField = 121665 := toField_small 121665
  have b : (Fe.mk [121666, 0, 0, 0, 0]).toField = 121666 := toField_small 121666
  apply (Fe.invert_spec ⟨rfl, by decide⟩).bind
  intro i ⟨canonical, inverse⟩
  apply (Fe.mul_spec ⟨rfl, by decide⟩ canonical.carried).bind
  intro m ⟨canonical', product⟩
  apply (Fe.neg_spec canonical'.carried).mono
  intro r ⟨canonical'', negative⟩
  refine ⟨canonical'', ?_⟩
  rw [negative, product, inverse, a, b, d, neg_div, div_eq_mul_inv]

/-! ### Points in extended coordinates -/

namespace Point

structure Carried (P : Point) : Prop where
  x : Ed25519.Carried P.x.limbs
  y : Ed25519.Carried P.y.limbs
  z : Ed25519.Carried P.z.limbs
  t : Ed25519.Carried P.t.limbs

structure Canonical (P : Point) : Prop where
  x : P.x.Canonical
  y : P.y.Canonical
  z : P.z.Canonical
  t : P.t.Canonical

variable {P : Point}

theorem Canonical.carried (canonical : P.Canonical) : P.Carried :=
  ⟨canonical.x.carried, canonical.y.carried, canonical.z.carried, canonical.t.carried⟩

structure Represents (P : Point) (A : curve.Point) : Prop where
  z : P.z.toField ≠ 0
  x : P.x.toField = P.z.toField * A.x
  y : P.y.toField = P.z.toField * A.y
  t : P.x.toField * P.y.toField = P.z.toField * P.t.toField

variable {A : curve.Point}

theorem Represents.t_eq (same : P.Represents A) : P.t.toField = P.z.toField * A.x * A.y := by
  apply mul_left_cancel₀ same.z
  rw [← same.t, same.x, same.y]
  ring

theorem identity_canonical : identity.Canonical :=
  ⟨Fe.zero_canonical, Fe.one_canonical, Fe.one_canonical, Fe.zero_canonical⟩

theorem identity_represents : identity.Represents 0 where
  z := by simp [identity]
  x := by simp [identity]
  y := by simp [identity]
  t := by simp [identity]

theorem fromXy_spec {x y : Fe} (first : Ed25519.Carried x.limbs) (second : Ed25519.Carried y.limbs)
    (on : curve.On x.toField y.toField) :
    Returns (fromXy x y) fun P => P.Carried ∧ P.Represents ⟨x.toField, y.toField, on⟩ := by
  apply (Fe.mul_spec first second).bind
  intro t ⟨canonical, product⟩
  refine .ret ⟨⟨first, second, Fe.one_carried, canonical.carried⟩, ?_⟩
  constructor
  · rw [Fe.toField_one]
    exact one_ne_zero
  · rw [Fe.toField_one, one_mul]
  · rw [Fe.toField_one, one_mul]
  · rw [Fe.toField_one, one_mul, product]

theorem add_spec {P Q : Point} {A B : curve.Point} (first : P.Carried) (second : Q.Carried) (same : P.Represents A)
    (same' : Q.Represents B) : Returns (add P Q) fun R => R.Canonical ∧ R.Represents (A + B) := by
  have two : (Fe.mk [2, 0, 0, 0, 0]).toField = 2 := toField_small 2
  apply dConstant_spec.bind
  intro d' ⟨d_canonical, d_value⟩
  apply (Fe.mul_spec d_canonical.carried ⟨rfl, by decide⟩).bind
  intro d2 ⟨d2_canonical, d2_value⟩
  apply (Fe.sub_spec first.y first.x).bind
  intro a ⟨a_canonical, a_value⟩
  apply (Fe.sub_spec second.y second.x).bind
  intro b ⟨b_canonical, b_value⟩
  apply (Fe.mul_spec a_canonical.carried b_canonical.carried).bind
  intro c ⟨c_canonical, c_value⟩
  apply (Fe.add_spec first.y first.x).bind
  intro d'' ⟨d''_canonical, d''_value⟩
  apply (Fe.add_spec second.y second.x).bind
  intro e ⟨e_canonical, e_value⟩
  apply (Fe.mul_spec d''_canonical.carried e_canonical.carried).bind
  intro f ⟨f_canonical, f_value⟩
  apply (Fe.mul_spec first.t second.t).bind
  intro g' ⟨g'_canonical, g'_value⟩
  apply (Fe.mul_spec g'_canonical.carried d2_canonical.carried).bind
  intro g ⟨g_canonical, g_value⟩
  apply (Fe.mul_spec first.z second.z).bind
  intro h' ⟨h'_canonical, h'_value⟩
  apply (Fe.add_spec h'_canonical.carried h'_canonical.carried).bind
  intro h ⟨h_canonical, h_value⟩
  apply (Fe.sub_spec f_canonical.carried c_canonical.carried).bind
  intro i ⟨i_canonical, i_value⟩
  apply (Fe.sub_spec h_canonical.carried g_canonical.carried).bind
  intro j ⟨j_canonical, j_value⟩
  apply (Fe.add_spec h_canonical.carried g_canonical.carried).bind
  intro k ⟨k_canonical, k_value⟩
  apply (Fe.add_spec f_canonical.carried c_canonical.carried).bind
  intro l ⟨l_canonical, l_value⟩
  apply (Fe.mul_spec i_canonical.carried j_canonical.carried).bind
  intro x3 ⟨x3_canonical, x3_value⟩
  apply (Fe.mul_spec k_canonical.carried l_canonical.carried).bind
  intro y3 ⟨y3_canonical, y3_value⟩
  apply (Fe.mul_spec i_canonical.carried l_canonical.carried).bind
  intro t3 ⟨t3_canonical, t3_value⟩
  apply (Fe.mul_spec j_canonical.carried k_canonical.carried).bind
  intro z3 ⟨z3_canonical, z3_value⟩
  refine .ret ⟨⟨x3_canonical, y3_canonical, z3_canonical, t3_canonical⟩, ?_⟩
  have plus := EdwardsCurve.one_add_cross A.on B.on
  have minus := EdwardsCurve.one_sub_cross A.on B.on
  have sum_x : (A + B).x * (1 + curve.cross A.x A.y B.x B.y) = A.x * B.y + A.y * B.x := div_mul_cancel₀ _ plus
  have sum_y : (A + B).y * (1 - curve.cross A.x A.y B.x B.y) = A.y * B.y - curve.a * A.x * B.x := div_mul_cancel₀ _ minus
  have cross : curve.cross A.x A.y B.x B.y = d * A.x * B.x * A.y * B.y := rfl
  have minus_one : curve.a = -1 := rfl
  rw [minus_one] at sum_y
  generalize curve.cross A.x A.y B.x B.y = κ at *
  -- the four factors, each with the denominators in it
  have i_eq : i.toField = 2 * P.z.toField * Q.z.toField * (A.x * B.y + A.y * B.x) := by
    rw [i_value, f_value, c_value, a_value, b_value, d''_value, e_value, same.x, same.y, same'.x, same'.y]
    ring
  have l_eq : l.toField = 2 * P.z.toField * Q.z.toField * (A.y * B.y + A.x * B.x) := by
    rw [l_value, f_value, c_value, a_value, b_value, d''_value, e_value, same.x, same.y, same'.x, same'.y]
    ring
  have j_eq : j.toField = 2 * P.z.toField * Q.z.toField * (1 - κ) := by
    rw [j_value, h_value, h'_value, g_value, g'_value, d2_value, d_value, two, same.t_eq, same'.t_eq, cross]
    ring
  have k_eq : k.toField = 2 * P.z.toField * Q.z.toField * (1 + κ) := by
    rw [k_value, h_value, h'_value, g_value, g'_value, d2_value, d_value, two, same.t_eq, same'.t_eq, cross]
    ring
  have scale : 2 * P.z.toField * Q.z.toField ≠ 0 := mul_ne_zero (mul_ne_zero curve.two_ne_zero same.z) same'.z
  constructor
  · rw [z3_value, j_eq, k_eq]
    exact mul_ne_zero (mul_ne_zero scale minus) (mul_ne_zero scale plus)
  · rw [x3_value, z3_value, i_eq, j_eq, k_eq, ← sum_x]
    ring
  · rw [y3_value, z3_value, j_eq, k_eq, l_eq]
    linear_combination -(2 * P.z.toField * Q.z.toField) ^ 2 * (1 + κ) * sum_y
  · rw [x3_value, y3_value, z3_value, t3_value]
    ring

theorem double_spec (carried : P.Carried) (same : P.Represents A) :
    Returns (double P) fun R => R.Canonical ∧ R.Represents (A + A) := by
  apply (Fe.square_spec carried.x).bind
  intro a ⟨a_canonical, a_value⟩
  apply (Fe.square_spec carried.y).bind
  intro b ⟨b_canonical, b_value⟩
  apply (Fe.square_spec carried.z).bind
  intro c' ⟨c'_canonical, c'_value⟩
  apply (Fe.add_spec c'_canonical.carried c'_canonical.carried).bind
  intro c ⟨c_canonical, c_value⟩
  apply (Fe.neg_spec a_canonical.carried).bind
  intro d' ⟨d'_canonical, d'_value⟩
  apply (Fe.add_spec carried.x carried.y).bind
  intro e' ⟨e'_canonical, e'_value⟩
  apply (Fe.square_spec e'_canonical.carried).bind
  intro e'' ⟨e''_canonical, e''_value⟩
  apply (Fe.add_spec a_canonical.carried b_canonical.carried).bind
  intro ab ⟨ab_canonical, ab_value⟩
  apply (Fe.sub_spec e''_canonical.carried ab_canonical.carried).bind
  intro e ⟨e_canonical, e_value⟩
  apply (Fe.add_spec d'_canonical.carried b_canonical.carried).bind
  intro g ⟨g_canonical, g_value⟩
  apply (Fe.sub_spec g_canonical.carried c_canonical.carried).bind
  intro f ⟨f_canonical, f_value⟩
  apply (Fe.sub_spec d'_canonical.carried b_canonical.carried).bind
  intro h ⟨h_canonical, h_value⟩
  apply (Fe.mul_spec e_canonical.carried f_canonical.carried).bind
  intro x3 ⟨x3_canonical, x3_value⟩
  apply (Fe.mul_spec g_canonical.carried h_canonical.carried).bind
  intro y3 ⟨y3_canonical, y3_value⟩
  apply (Fe.mul_spec e_canonical.carried h_canonical.carried).bind
  intro t3 ⟨t3_canonical, t3_value⟩
  apply (Fe.mul_spec f_canonical.carried g_canonical.carried).bind
  intro z3 ⟨z3_canonical, z3_value⟩
  refine .ret ⟨⟨x3_canonical, y3_canonical, z3_canonical, t3_canonical⟩, ?_⟩
  have plus := EdwardsCurve.one_add_cross A.on A.on
  have minus := EdwardsCurve.one_sub_cross A.on A.on
  have sum_x : (A + A).x * (1 + curve.cross A.x A.y A.x A.y) = A.x * A.y + A.y * A.x := div_mul_cancel₀ _ plus
  have sum_y : (A + A).y * (1 - curve.cross A.x A.y A.x A.y) = A.y * A.y - curve.a * A.x * A.x := div_mul_cancel₀ _ minus
  have on : -1 * A.x ^ 2 + A.y ^ 2 = 1 + curve.cross A.x A.y A.x A.y := by
    have equation : -1 * A.x ^ 2 + A.y ^ 2 = 1 + curve.d * A.x ^ 2 * A.y ^ 2 := A.on
    unfold EdwardsCurve.cross
    linear_combination equation
  have minus_one : curve.a = -1 := rfl
  rw [minus_one] at sum_y
  generalize curve.cross A.x A.y A.x A.y = κ at *
  have e_eq : e.toField = P.z.toField ^ 2 * (2 * A.x * A.y) := by
    rw [e_value, e''_value, e'_value, ab_value, a_value, b_value, same.x, same.y]
    ring
  have g_eq : g.toField = P.z.toField ^ 2 * (1 + κ) := by
    rw [g_value, d'_value, a_value, b_value, same.x, same.y, ← on]
    ring
  have f_eq : f.toField = -(P.z.toField ^ 2 * (1 - κ)) := by
    rw [f_value, g_eq, c_value, c'_value]
    ring
  have h_eq : h.toField = -(P.z.toField ^ 2 * (A.x ^ 2 + A.y ^ 2)) := by
    rw [h_value, d'_value, a_value, b_value, same.x, same.y]
    ring
  have scale : P.z.toField ^ 2 ≠ 0 := pow_ne_zero 2 same.z
  constructor
  · rw [z3_value, f_eq, g_eq]
    exact mul_ne_zero (neg_ne_zero.mpr (mul_ne_zero scale minus)) (mul_ne_zero scale plus)
  · rw [x3_value, z3_value, e_eq, f_eq, g_eq]
    linear_combination P.z.toField ^ 4 * (1 - κ) * sum_x
  · rw [y3_value, z3_value, f_eq, g_eq, h_eq]
    linear_combination P.z.toField ^ 4 * (1 + κ) * sum_y
  · rw [x3_value, y3_value, z3_value, t3_value]
    ring

/-! ### Multiples -/

theorem table_spec (carried : P.Carried) (same : P.Represents A) :
    Returns (table P) fun table => ∀ k < 16, (table.getD k identity).Carried ∧ (table.getD k identity).Represents (k • A) := by
  have entry {l : List Point} {j k : Nat} (inside : j < l.length) (Q : Point) :
      (l.set j Q).getD k identity = if j = k then Q else l.getD k identity := by
    rw [List.getD_eq_getElem?_getD, List.getD_eq_getElem?_getD, List.getElem?_set]
    split_ifs with here
    · rfl
    · rfl
  have filled := Returns.range (f := fun table j => do
      let next ← add (table.getD (j + 1) identity) P
      return table.set (j + 2) next) (n := 14) (b := (List.replicate 16 identity).set 1 P)
    (fun i table => table.length = 16 ∧
      ∀ k < i + 2, (table.getD k identity).Carried ∧ (table.getD k identity).Represents (k • A)) ⟨rfl, by
        intro k below
        rw [entry (by decide)]
        interval_cases k
        · exact ⟨identity_canonical.carried, by rw [zero_smul]; exact identity_represents⟩
        · exact ⟨carried, by rw [one_smul]; exact same⟩⟩ (by
      intro i table inside ⟨length, entries⟩
      obtain ⟨last, multiple⟩ := entries (i + 1) (Nat.lt_succ_self _)
      apply (add_spec last carried multiple same).bind
      intro next ⟨canonical, sum⟩
      refine .ret ⟨by rw [List.length_set, length], fun k below => ?_⟩
      rw [entry (by omega)]
      split_ifs with here
      · rw [← here, succ_nsmul]
        exact ⟨canonical.carried, sum⟩
      · exact entries k (by omega))
  exact filled.mono fun table ⟨_, entries⟩ => entries

theorem nibble_eq (scalar : Bytes) (i : Nat) : nibble scalar i = read scalar / 16 ^ i % 16 := by
  have bits := @Limbs.bits (scalar.map UInt8.toNat) 8 (i / 2) (i % 2 * 4) 4 (Limbs.byte_lt scalar) (by omega) (by norm_num)
  have byte : (scalar.map UInt8.toNat).getD (i / 2) 0 = (scalar.getD (i / 2) 0).toNat := List.getD_map _ 0 UInt8.toNat
  have place : 8 * (i / 2) + i % 2 * 4 = 4 * i := by omega
  have mask : nibble scalar i = (scalar.getD (i / 2) 0).toNat >>> (i % 2 * 4) % 2 ^ 4 := Nat.and_two_pow_sub_one_eq_mod _ 4
  rw [mask, Nat.shiftRight_eq_div_pow, ← byte, ← bits, place, pow_mul, Limbs.read_eq_ofDigits]
  rfl

theorem scalarMul_spec (carried : P.Carried) (same : P.Represents A) {scalar : Bytes} (length : scalar.length = 32) :
    Returns (scalarMul P scalar) fun R => R.Canonical ∧ R.Represents (read scalar • A) := by
  have small : read scalar < 16 ^ 64 := by
    have below := read_lt scalar
    rw [length] at below
    exact lt_of_lt_of_eq below (by norm_num)
  apply (table_spec carried same).bind
  intro table entries
  have multiples := Returns.range_reverse (f := fun result i => do
      let result ← (List.range 4).foldlM (fun r _ => double r) result
      add result (table.getD (nibble scalar i) identity)) (n := 64) (b := identity)
    (fun i R => R.Canonical ∧ R.Represents ((read scalar / 16 ^ i) • A))
    ⟨identity_canonical, by rw [Nat.div_eq_of_lt small, zero_smul]; exact identity_represents⟩ (by
      intro i R inside ⟨canonical, multiple⟩
      have doubles := Returns.range (f := fun r _ => double r) (n := 4) (b := R)
        (fun k S => S.Canonical ∧ S.Represents (2 ^ k • (read scalar / 16 ^ (i + 1)) • A))
        ⟨canonical, by rw [pow_zero, one_smul]; exact multiple⟩ (by
          intro k S below ⟨canonical', power⟩
          apply (double_spec canonical'.carried power).mono
          intro T ⟨canonical'', twice⟩
          rw [← two_nsmul, ← mul_smul, ← pow_succ'] at twice
          exact ⟨canonical'', twice⟩)
      apply doubles.bind
      intro S ⟨canonical', sixteen⟩
      have digit : nibble scalar i < 16 := nibble_eq scalar i ▸ Nat.mod_lt _ (by norm_num)
      obtain ⟨carried', entry⟩ := entries _ digit
      apply (add_spec canonical'.carried carried' sixteen entry).mono
      intro T ⟨canonical'', sum⟩
      have split : read scalar / 16 ^ i = 2 ^ 4 * (read scalar / 16 ^ (i + 1)) + nibble scalar i := by
        rw [nibble_eq, @Nat.pow_succ 16 i, ← Nat.div_div_eq_div_mul]
        omega
      rw [split, add_smul, mul_smul]
      exact ⟨canonical'', sum⟩)
  rw [pow_zero, Nat.div_one] at multiples
  exact multiples

/-! ### The affine points -/

/-- On the curve, with the third coordinate not zero and the fourth in its place. -/
structure Extended (P : Point) : Prop where
  z : P.z.toField ≠ 0
  t : P.x.toField * P.y.toField = P.z.toField * P.t.toField
  on : curve.On (P.x.toField / P.z.toField) (P.y.toField / P.z.toField)

def affine (P : Point) (extended : P.Extended) : curve.Point :=
  ⟨P.x.toField / P.z.toField, P.y.toField / P.z.toField, extended.on⟩

theorem represents_iff : P.Represents A ↔ ∃ extended : P.Extended, P.affine extended = A := by
  constructor
  · intro same
    have x : P.x.toField / P.z.toField = A.x := by rw [same.x, mul_div_cancel_left₀ _ same.z]
    have y : P.y.toField / P.z.toField = A.y := by rw [same.y, mul_div_cancel_left₀ _ same.z]
    exact ⟨⟨same.z, same.t, by rw [x, y]; exact A.on⟩, EdwardsCurve.Point.ext x y⟩
  · rintro ⟨extended, rfl⟩
    exact ⟨extended.z, (mul_div_cancel₀ _ extended.z).symm, (mul_div_cancel₀ _ extended.z).symm, extended.t⟩

/-- The operations on points in extended coordinates are the sum, the double and the multiples on the curve. -/
theorem point_operations {P Q : Point} (first : P.Carried) (second : Q.Carried) (extended : P.Extended) (extended' : Q.Extended)
    {scalar : Bytes} (length : scalar.length = 32) :
    Returns (add P Q) (fun R => R.Canonical ∧ ∃ e : R.Extended, R.affine e = P.affine extended + Q.affine extended') ∧
      Returns (double P) (fun R => R.Canonical ∧ ∃ e : R.Extended, R.affine e = P.affine extended + P.affine extended) ∧
      Returns (double P) (fun R => Returns (add P P) fun S => ∃ (e : R.Extended) (e' : S.Extended), R.affine e = S.affine e') ∧
      Returns (scalarMul P scalar)
        (fun R => R.Canonical ∧ ∃ e : R.Extended, R.affine e = read scalar • P.affine extended) := by
  have same : P.Represents (P.affine extended) := represents_iff.mpr ⟨extended, rfl⟩
  have same' : Q.Represents (Q.affine extended') := represents_iff.mpr ⟨extended', rfl⟩
  refine ⟨?_, ?_, ?_, ?_⟩
  · exact (add_spec first second same same').mono fun R ⟨canonical, sum⟩ => ⟨canonical, represents_iff.mp sum⟩
  · exact (double_spec first same).mono fun R ⟨canonical, sum⟩ => ⟨canonical, represents_iff.mp sum⟩
  · apply (double_spec first same).mono
    intro R ⟨_, twice⟩
    apply (add_spec first first same same).mono
    intro S ⟨_, sum⟩
    obtain ⟨e, twice⟩ := represents_iff.mp twice
    obtain ⟨e', sum⟩ := represents_iff.mp sum
    exact ⟨e, e', twice.trans sum.symm⟩
  · exact (scalarMul_spec first same length).mono fun R ⟨canonical, multiple⟩ => ⟨canonical, represents_iff.mp multiple⟩

def orderTwo : Point :=
  ⟨.ZERO, ⟨[0x7FFFFFFFFFFEC, 0x7FFFFFFFFFFFF, 0x7FFFFFFFFFFFF, 0x7FFFFFFFFFFFF, 0x7FFFFFFFFFFFF]⟩, .ONE, .ZERO⟩

theorem orderTwo_extended : orderTwo.Extended := by
  have minus_one : orderTwo.y.toField = -1 := by
    have sum : ((orderTwo.y.value + 1 : Nat) : ZMod p) = 0 := by
      rw [ZMod.natCast_eq_zero_iff]
      decide
    rw [Nat.cast_add, Nat.cast_one] at sum
    exact eq_neg_of_add_eq_zero_left sum
  have x : orderTwo.x.toField = 0 := Fe.toField_zero
  have z : orderTwo.z.toField = 1 := Fe.toField_one
  have t : orderTwo.t.toField = 0 := Fe.toField_zero
  constructor
  · rw [z]
    exact one_ne_zero
  · rw [x, t, zero_mul, mul_zero]
  · rw [x, z, minus_one, EdwardsCurve.On]
    ring

/-- That point twice. -/
theorem point_operations_two : Returns (double orderTwo) fun R => R.Canonical ∧ ∃ e : R.Extended, R.affine e =
    orderTwo.affine orderTwo_extended + orderTwo.affine orderTwo_extended := by
  have carried : orderTwo.Carried := ⟨Fe.zero_carried, ⟨rfl, by decide⟩, Fe.one_carried, Fe.zero_carried⟩
  have length : (List.replicate 32 3 : Bytes).length = 32 := rfl
  exact (point_operations carried carried orderTwo_extended orderTwo_extended length).2.1

end Point

end TypeBit.Ed25519
