import Mathlib.Algebra.Field.Basic
import Mathlib.Algebra.Group.Even
import Mathlib.Tactic.LinearCombination
import Mathlib.Tactic.Ring

/-! Twisted Edwards curves `a x² + y² = 1 + d x² y²` for a square `a` and a non-square `d`. Their addition has no exceptions,
and the points are a commutative group. -/

structure EdwardsCurve (F : Type) [Field F] where
  a : F
  d : F
  root : F
  square : root ^ 2 = a
  nonsquare : ¬ IsSquare d
  two_ne_zero : (2 : F) ≠ 0

namespace EdwardsCurve
variable {F : Type} [Field F] (E : EdwardsCurve F)

/-- The equation of the curve. -/
def On (x y : F) : Prop := E.a * x ^ 2 + y ^ 2 = 1 + E.d * x ^ 2 * y ^ 2

/-- What the denominators of a sum differ from one by. -/
def cross (x₁ y₁ x₂ y₂ : F) : F := E.d * x₁ * x₂ * y₁ * y₂

section Formulas
variable {E} {x₁ y₁ x₂ y₂ x₃ y₃ : F}

/-- On a curve with a non-square `d` the product is never one of the roots of unity of order two. -/
theorem cross_sq_ne_one (on₁ : E.On x₁ y₁) (on₂ : E.On x₂ y₂) : E.cross x₁ y₁ x₂ y₂ ^ 2 ≠ 1 := by
  intro one
  unfold cross at one
  unfold On at on₁ on₂
  have square := E.square
  have some₁ : x₁ * y₁ ≠ 0 := by
    intro zero
    have none : (E.d * x₁ * x₂ * y₁ * y₂) ^ 2 = 0 := by linear_combination E.d ^ 2 * x₂ ^ 2 * y₂ ^ 2 * (x₁ * y₁) * zero
    exact zero_ne_one (none.symm.trans one)
  -- `d` would be a square by either of these, unless both sums are zero
  have plus : (E.root * x₁ + E.d * x₁ * x₂ * y₁ * y₂ * y₁) ^ 2 = E.d * (x₁ * y₁ * (E.root * x₂ + y₂)) ^ 2 := by
    linear_combination (x₁ ^ 2 - E.d * x₁ ^ 2 * y₁ ^ 2 * x₂ ^ 2) * square + on₁ - E.d * x₁ ^ 2 * y₁ ^ 2 * on₂ + (y₁ ^ 2 - 1) * one
  have minus : (E.root * x₁ - E.d * x₁ * x₂ * y₁ * y₂ * y₁) ^ 2 = E.d * (x₁ * y₁ * (E.root * x₂ - y₂)) ^ 2 := by
    linear_combination (x₁ ^ 2 - E.d * x₁ ^ 2 * y₁ ^ 2 * x₂ ^ 2) * square + on₁ - E.d * x₁ ^ 2 * y₁ ^ 2 * on₂ + (y₁ ^ 2 - 1) * one
  have root : ∀ v w : F, v ^ 2 = E.d * (x₁ * y₁ * w) ^ 2 → w = 0 := by
    intro v w same
    by_contra other
    have unit : x₁ * y₁ * w ≠ 0 := mul_ne_zero some₁ other
    apply E.nonsquare
    refine ⟨v / (x₁ * y₁ * w), ?_⟩
    rw [div_mul_div_comm, ← sq, same, ← sq, mul_div_assoc, div_self (pow_ne_zero 2 unit), mul_one]
  have first := root _ _ plus
  have second := root _ _ minus
  have zero : y₂ = 0 := by
    have double : 2 * y₂ = 0 := by linear_combination first - second
    exact (mul_eq_zero.mp double).resolve_left E.two_ne_zero
  rw [zero, mul_zero] at one
  exact zero_ne_one ((zero_pow (by decide)).symm.trans one)

theorem one_add_cross (on₁ : E.On x₁ y₁) (on₂ : E.On x₂ y₂) : 1 + E.cross x₁ y₁ x₂ y₂ ≠ 0 := by
  intro zero
  apply cross_sq_ne_one on₁ on₂
  linear_combination (E.cross x₁ y₁ x₂ y₂ - 1) * zero

theorem one_sub_cross (on₁ : E.On x₁ y₁) (on₂ : E.On x₂ y₂) : 1 - E.cross x₁ y₁ x₂ y₂ ≠ 0 := by
  intro zero
  apply cross_sq_ne_one on₁ on₂
  linear_combination (-(E.cross x₁ y₁ x₂ y₂) - 1) * zero

variable (E) in
/-- The coordinates of a sum. -/
def sumX (x₁ y₁ x₂ y₂ : F) : F := (x₁ * y₂ + y₁ * x₂) / (1 + E.cross x₁ y₁ x₂ y₂)

variable (E) in
def sumY (x₁ y₁ x₂ y₂ : F) : F := (y₁ * y₂ - E.a * x₁ * x₂) / (1 - E.cross x₁ y₁ x₂ y₂)

theorem on_sum (on₁ : E.On x₁ y₁) (on₂ : E.On x₂ y₂) : E.On (E.sumX x₁ y₁ x₂ y₂) (E.sumY x₁ y₁ x₂ y₂) := by
  have plus := one_add_cross on₁ on₂
  have minus := one_sub_cross on₁ on₂
  have x : E.sumX x₁ y₁ x₂ y₂ * (1 + E.cross x₁ y₁ x₂ y₂) = x₁ * y₂ + y₁ * x₂ := div_mul_cancel₀ _ plus
  have y : E.sumY x₁ y₁ x₂ y₂ * (1 - E.cross x₁ y₁ x₂ y₂) = y₁ * y₂ - E.a * x₁ * x₂ := div_mul_cancel₀ _ minus
  have cleared : E.a * (x₁ * y₂ + y₁ * x₂) ^ 2 * (1 - E.cross x₁ y₁ x₂ y₂) ^ 2 +
        (y₁ * y₂ - E.a * x₁ * x₂) ^ 2 * (1 + E.cross x₁ y₁ x₂ y₂) ^ 2 =
      (1 + E.cross x₁ y₁ x₂ y₂) ^ 2 * (1 - E.cross x₁ y₁ x₂ y₂) ^ 2 +
        E.d * (x₁ * y₂ + y₁ * x₂) ^ 2 * (y₁ * y₂ - E.a * x₁ * x₂) ^ 2 := by
    unfold On at on₁ on₂
    unfold cross
    linear_combination
      ((1 + E.d * x₁ ^ 2 * y₁ ^ 2 * (E.d * x₂ ^ 2 * y₂ ^ 2)) * (E.a * x₂ ^ 2 + y₂ ^ 2) -
        E.d * x₂ ^ 2 * y₂ ^ 2 * (E.a * x₁ ^ 2 + y₁ ^ 2 + 1 + E.d * x₁ ^ 2 * y₁ ^ 2)) * on₁ +
      ((1 + E.d * x₁ ^ 2 * y₁ ^ 2 * (E.d * x₂ ^ 2 * y₂ ^ 2)) * (1 + E.d * x₁ ^ 2 * y₁ ^ 2) -
        E.d * x₁ ^ 2 * y₁ ^ 2 * (E.a * x₂ ^ 2 + y₂ ^ 2 + 1 + E.d * x₂ ^ 2 * y₂ ^ 2)) * on₂
  rw [← x, ← y] at cleared
  apply mul_left_cancel₀ (pow_ne_zero 2 (mul_ne_zero plus minus))
  linear_combination cleared

end Formulas

/-- A point of the curve. -/
@[ext] structure Point where
  x : F
  y : F
  on : E.On x y

namespace Point
variable {E}

theorem on_zero : E.On 0 1 := by
  unfold On
  ring

theorem on_neg {x y : F} (on : E.On x y) : E.On (-x) y := by
  unfold On at *
  linear_combination on

instance : Zero E.Point := ⟨⟨0, 1, on_zero⟩⟩
instance : Neg E.Point := ⟨fun P => ⟨-P.x, P.y, on_neg P.on⟩⟩
instance : Add E.Point := ⟨fun P Q => ⟨E.sumX P.x P.y Q.x Q.y, E.sumY P.x P.y Q.x Q.y, on_sum P.on Q.on⟩⟩

@[simp] theorem zero_x : (0 : E.Point).x = 0 := rfl
@[simp] theorem zero_y : (0 : E.Point).y = 1 := rfl
@[simp] theorem neg_x (P : E.Point) : (-P).x = -P.x := rfl
@[simp] theorem neg_y (P : E.Point) : (-P).y = P.y := rfl
theorem add_x (P Q : E.Point) : (P + Q).x = E.sumX P.x P.y Q.x Q.y := rfl
theorem add_y (P Q : E.Point) : (P + Q).y = E.sumY P.x P.y Q.x Q.y := rfl

theorem cross_comm (P Q : E.Point) : E.cross Q.x Q.y P.x P.y = E.cross P.x P.y Q.x Q.y := by
  unfold cross
  ring

theorem add_comm' (P Q : E.Point) : P + Q = Q + P := by
  apply Point.ext
  · rw [add_x, add_x, sumX, sumX, cross_comm P Q]
    ring
  · rw [add_y, add_y, sumY, sumY, cross_comm P Q]
    ring

theorem zero_add' (P : E.Point) : 0 + P = P := by
  apply Point.ext
  · simp [add_x, sumX, cross]
  · simp [add_y, sumY, cross]

theorem neg_add' (P : E.Point) : -P + P = 0 := by
  have minus := one_sub_cross (-P).on P.on
  apply Point.ext
  · rw [add_x, sumX]
    simp only [neg_x, neg_y, zero_x]
    rw [show -P.x * P.y + P.y * P.x = 0 by ring, zero_div]
  · rw [add_y, sumY, zero_y, div_eq_one_iff_eq minus]
    have on := P.on
    unfold On at on
    simp only [neg_x, neg_y, cross]
    linear_combination on

/-! ### Associativity

The two ways to add three points have the same coordinates once their denominators are cleared. -/

section Triple
variable (P Q R : E.Point)

def num : F := P.x * Q.y + P.y * Q.x
def den : F := P.y * Q.y - E.a * P.x * Q.x
def gap : F := E.cross P.x P.y Q.x Q.y

theorem gap_ne : (1 + gap P Q) * (1 - gap P Q) ≠ 0 :=
  mul_ne_zero (one_add_cross P.on Q.on) (one_sub_cross P.on Q.on)

theorem x_mul : (P + Q).x * (1 + gap P Q) = num P Q := div_mul_cancel₀ _ (one_add_cross P.on Q.on)

theorem y_mul : (P + Q).y * (1 - gap P Q) = den P Q := div_mul_cancel₀ _ (one_sub_cross P.on Q.on)

/-- The denominators of a threefold sum. -/
theorem triple_gap : (1 + gap P Q) * (1 - gap P Q) * gap (P + Q) R = E.d * num P Q * den P Q * R.x * R.y := by
  rw [← x_mul P Q, ← y_mul P Q]
  unfold gap cross
  ring

theorem triple_x : (P + Q + R).x = (num P Q * (1 - gap P Q) * R.y + den P Q * (1 + gap P Q) * R.x) /
    ((1 + gap P Q) * (1 - gap P Q) + E.d * num P Q * den P Q * R.x * R.y) := by
  have scaled : (P + Q + R).x = num (P + Q) R / (1 + gap (P + Q) R) := rfl
  rw [scaled, ← triple_gap, ← mul_div_mul_left _ _ (gap_ne P Q)]
  congr 1
  · rw [← x_mul P Q, ← y_mul P Q]
    unfold num
    ring
  · ring

theorem triple_y : (P + Q + R).y = (den P Q * (1 + gap P Q) * R.y - E.a * num P Q * (1 - gap P Q) * R.x) /
    ((1 + gap P Q) * (1 - gap P Q) - E.d * num P Q * den P Q * R.x * R.y) := by
  have scaled : (P + Q + R).y = den (P + Q) R / (1 - gap (P + Q) R) := rfl
  rw [scaled, ← triple_gap, ← mul_div_mul_left _ _ (gap_ne P Q)]
  congr 1
  · rw [← x_mul P Q, ← y_mul P Q]
    unfold den
    ring
  · ring

theorem triple_ne_x : (1 + gap P Q) * (1 - gap P Q) + E.d * num P Q * den P Q * R.x * R.y ≠ 0 := by
  have scaled := mul_ne_zero (gap_ne P Q) (one_add_cross (P + Q).on R.on)
  rw [← triple_gap]
  convert scaled using 1
  unfold gap
  ring

theorem triple_ne_y : (1 + gap P Q) * (1 - gap P Q) - E.d * num P Q * den P Q * R.x * R.y ≠ 0 := by
  have scaled := mul_ne_zero (gap_ne P Q) (one_sub_cross (P + Q).on R.on)
  rw [← triple_gap]
  convert scaled using 1
  unfold gap
  ring

/-- What the equation of an outer point is taken by in the difference of the cleared coordinates. -/
def outer : F := den P Q * (num P Q * (P.y * Q.y + E.a * P.x * Q.x) - Q.x * Q.y * (1 + gap P Q))

def outer' : F := num P Q * (den P Q * (Q.x * P.y - Q.y * P.x) - Q.x * Q.y * (1 - gap P Q))

/-- And that of the middle point. -/
def middle : F := (P.x * R.y - P.y * R.x) * ((E.a * P.x * R.x + P.y * R.y) *
    ((E.a * P.x * R.x - P.y * R.y) * Q.x - (P.x * R.y + P.y * R.x) * Q.y) + Q.y * (P.x * P.y + R.x * R.y)) +
  (E.a * P.x * R.x + P.y * R.y) * Q.x * (P.x * P.y - R.x * R.y)

def middle' : F := -((P.x * R.y - P.y * R.x) * ((E.a * P.x * R.x + P.y * R.y) *
    (E.a * Q.x * (P.x * R.y + P.y * R.x) + Q.y * (E.a * P.x * R.x - P.y * R.y)) - E.a * Q.x * (P.x * P.y + R.x * R.y))) -
  Q.y * (E.a * P.x * R.x + P.y * R.y) * (P.x * P.y - R.x * R.y)

theorem assoc_x : (num P Q * (1 - gap P Q) * R.y + den P Q * (1 + gap P Q) * R.x) *
      ((1 + gap Q R) * (1 - gap Q R) + E.d * num Q R * den Q R * P.x * P.y) =
    (num Q R * (1 - gap Q R) * P.y + den Q R * (1 + gap Q R) * P.x) *
      ((1 + gap P Q) * (1 - gap P Q) + E.d * num P Q * den P Q * R.x * R.y) := by
  have onP := P.on
  have onQ := Q.on
  have onR := R.on
  unfold On at onP onQ onR
  have cleared : ((num P Q * (1 - gap P Q) * R.y + den P Q * (1 + gap P Q) * R.x) *
      ((1 + gap Q R) * (1 - gap Q R) + E.d * num Q R * den Q R * P.x * P.y)) -
      ((num Q R * (1 - gap Q R) * P.y + den Q R * (1 + gap Q R) * P.x) *
      ((1 + gap P Q) * (1 - gap P Q) + E.d * num P Q * den P Q * R.x * R.y)) =
      E.d * Q.x * Q.y * (P.x * outer R Q + P.y * outer' R Q) * (E.a * P.x ^ 2 + P.y ^ 2 - (1 + E.d * P.x ^ 2 * P.y ^ 2)) +
        E.d * Q.x * Q.y * middle P Q R * (E.a * Q.x ^ 2 + Q.y ^ 2 - (1 + E.d * Q.x ^ 2 * Q.y ^ 2)) -
        E.d * Q.x * Q.y * (R.x * outer P Q + R.y * outer' P Q) * (E.a * R.x ^ 2 + R.y ^ 2 - (1 + E.d * R.x ^ 2 * R.y ^ 2)) := by
    unfold outer outer' middle num den gap cross
    ring
  rw [sub_eq_zero.mpr onP, sub_eq_zero.mpr onQ, sub_eq_zero.mpr onR] at cleared
  linear_combination cleared

theorem assoc_y : (den P Q * (1 + gap P Q) * R.y - E.a * num P Q * (1 - gap P Q) * R.x) *
      ((1 + gap Q R) * (1 - gap Q R) - E.d * num Q R * den Q R * P.x * P.y) =
    (den Q R * (1 + gap Q R) * P.y - E.a * num Q R * (1 - gap Q R) * P.x) *
      ((1 + gap P Q) * (1 - gap P Q) - E.d * num P Q * den P Q * R.x * R.y) := by
  have onP := P.on
  have onQ := Q.on
  have onR := R.on
  unfold On at onP onQ onR
  have cleared : ((den P Q * (1 + gap P Q) * R.y - E.a * num P Q * (1 - gap P Q) * R.x) *
      ((1 + gap Q R) * (1 - gap Q R) - E.d * num Q R * den Q R * P.x * P.y)) -
      ((den Q R * (1 + gap Q R) * P.y - E.a * num Q R * (1 - gap Q R) * P.x) *
      ((1 + gap P Q) * (1 - gap P Q) - E.d * num P Q * den P Q * R.x * R.y)) =
      E.d * Q.x * Q.y * (P.y * outer R Q - E.a * P.x * outer' R Q) * (E.a * P.x ^ 2 + P.y ^ 2 - (1 + E.d * P.x ^ 2 * P.y ^ 2)) +
        E.d * Q.x * Q.y * middle' P Q R * (E.a * Q.x ^ 2 + Q.y ^ 2 - (1 + E.d * Q.x ^ 2 * Q.y ^ 2)) -
        E.d * Q.x * Q.y * (R.y * outer P Q - E.a * R.x * outer' P Q) *
          (E.a * R.x ^ 2 + R.y ^ 2 - (1 + E.d * R.x ^ 2 * R.y ^ 2)) := by
    unfold outer outer' middle' num den gap cross
    ring
  rw [sub_eq_zero.mpr onP, sub_eq_zero.mpr onQ, sub_eq_zero.mpr onR] at cleared
  linear_combination cleared

end Triple

theorem add_assoc' (P Q R : E.Point) : P + Q + R = P + (Q + R) := by
  rw [add_comm' P (Q + R)]
  apply Point.ext
  · rw [triple_x, triple_x, div_eq_div_iff (triple_ne_x P Q R) (triple_ne_x Q R P)]
    exact assoc_x P Q R
  · rw [triple_y, triple_y, div_eq_div_iff (triple_ne_y P Q R) (triple_ne_y Q R P)]
    exact assoc_y P Q R

instance : AddCommGroup E.Point where
  add_assoc := add_assoc'
  zero_add := zero_add'
  add_zero P := by rw [add_comm', zero_add']
  neg_add_cancel := neg_add'
  add_comm := add_comm'
  nsmul := nsmulRec
  zsmul := zsmulRec

end Point
end EdwardsCurve
