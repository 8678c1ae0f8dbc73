import Mathlib.Tactic.LinearCombination
import TypeBit.Lib.Returns
import TypeBit.Ed25519.Field

/-! Scalars modulo the group order: the reduction of 512 bits, and what a signature's second half is computed from. -/

namespace TypeBit.Ed25519

/-- The group order `2^252 + 27742317777372353535851937790883648493`. -/
def L : List Nat := [0x5812631a5cf5d3ed, 0x14def9dea2f79cd6, 0x0000000000000000, 0x1000000000000000]

def bytesToLimbs (b : Bytes) : List Nat := (List.range 4).map fun i => LittleEndian.read ((b.drop (i * 8)).take 8)

def ge (a b : List Nat) : Bool := Limbs.ge a.reverse b.reverse

/-! ### Reduction -/

def shiftIn : List Nat → Nat → List Nat
  | [], _ => []
  | r :: rs, carry => ((r <<< 1) % 2 ^ 64 ||| carry) :: shiftIn rs (r >>> 63)

def modLStep (x r : List Nat) (i : Nat) : List Nat :=
  let bit := (x.getD (i / 64) 0 >>> (i % 64)) &&& 1
  let r := shiftIn r bit
  if ge r L then (Limbs.sub (2 ^ 64) r L 0).1 else r

def modL (x : List Nat) : List Nat := (List.range 512).reverse.foldl (modLStep x) [0, 0, 0, 0]

/-! ### What is reduced for a signature -/

def clamp (a : Bytes) : Bytes :=
  let a := a.modify 0 (· &&& 248)
  let a := a.modify 31 (· &&& 63)
  a.modify 31 (· ||| 64)

def mulLimb (h a : List Nat) (i : Nat) (s : List Nat × Nat) (j : Nat) : Except Fault (List Nat × Nat) := do
  let product ← u128 (h.getD i 0 * a.getD j 0)
  let sum ← u128 (s.1.getD (i + j) 0 + product)
  let cur ← u128 (sum + s.2)
  return (s.1.set (i + j) (cur % 2 ^ 64), cur >>> 64)

def mulRow (h a : List Nat) (prod : List Nat) (i : Nat) : Except Fault (List Nat) := do
  let s ← (List.range 4).foldlM (mulLimb h a i) (prod, 0)
  return s.1.set (i + 4) (s.2 % 2 ^ 64)

def addLimb (r : List Nat) (s : List Nat × Nat) (i : Nat) : Except Fault (List Nat × Nat) := do
  let sum ← u128 (s.1.getD i 0 + r.getD i 0)
  let cur ← u128 (sum + s.2)
  return (s.1.set i (cur % 2 ^ 64), cur >>> 64)

/-- The second half of a signature. What is carried out of the four low limbs is added to the fifth, and goes no further. -/
def scalarS (r h a : List Nat) : Except Fault (List Nat) := do
  let prod ← (List.range 4).foldlM (mulRow h a) (List.replicate 8 0)
  let s ← (List.range 4).foldlM (addLimb r) (prod, 0)
  return modL (s.1.set 4 ((s.1.getD 4 0 + s.2 % 2 ^ 64) % 2 ^ 64))

/-! ### Words -/

/-- Limbs of 64 bits. -/
def Words (n : Nat) (l : List Nat) : Prop := l.length = n ∧ ∀ x ∈ l, x < 2 ^ 64

def number (l : List Nat) : Nat := Nat.ofDigits (2 ^ 64) l

def order : Nat := 2 ^ 252 + 27742317777372353535851937790883648493

theorem words_L : Words 4 L := ⟨rfl, by decide⟩

theorem number_L : number L = order := by decide

variable {n : Nat} {l h a prod r : List Nat}

theorem Words.number_lt (words : Words n l) : number l < (2 ^ 64) ^ n := by
  rw [← words.1]
  exact Nat.ofDigits_lt_base_pow_length (by norm_num) words.2

theorem Words.getD_lt (words : Words n l) (k : Nat) : l.getD k 0 < 2 ^ 64 := by
  by_cases inside : k < l.length
  · rw [List.getD_eq_getElem _ _ inside]
    exact words.2 _ (List.getElem_mem inside)
  · rw [List.getD_eq_default _ _ (Nat.le_of_not_lt inside)]
    norm_num

theorem Words.set (words : Words n l) (k : Nat) {x : Nat} (small : x < 2 ^ 64) : Words n (l.set k x) := by
  refine ⟨by rw [List.length_set, words.1], fun e member => ?_⟩
  rcases List.mem_or_eq_of_mem_set member with old | rfl
  · exact words.2 e old
  · exact small

theorem ge_iff {a b : List Nat} (first : Words n a) (second : Words n b) : ge a b = true ↔ number b ≤ number a := by
  rw [ge, Limbs.ge_iff (by norm_num) (by rw [List.length_reverse, List.length_reverse, first.1, second.1])
    (fun x member => first.2 x (List.mem_reverse.mp member)) (fun x member => second.2 x (List.mem_reverse.mp member)),
    ← Limbs.ofDigits_eq_number, ← Limbs.ofDigits_eq_number]
  rfl

/-! ### The reduction is exact -/

theorem shiftIn_spec {r : List Nat} {carry : Nat} (words : ∀ x ∈ r, x < 2 ^ 64) (bit : carry ≤ 1) :
    Words r.length (shiftIn r carry) ∧
      ∃ out, number (shiftIn r carry) + (2 ^ 64) ^ r.length * out = 2 * number r + carry := by
  induction r generalizing carry with
  | nil => exact ⟨⟨rfl, fun x member => absurd member List.not_mem_nil⟩, carry, by simp [shiftIn, number]⟩
  | cons x r ih =>
    obtain ⟨here, rest⟩ := List.forall_mem_cons.mp words
    have high : x >>> 63 = x / 2 ^ 63 := Nat.shiftRight_eq_div_pow x 63
    have low : (x <<< 1) % 2 ^ 64 ||| carry = 2 * (x % 2 ^ 63) + carry := by
      have even : (x <<< 1) % 2 ^ 64 = (x % 2 ^ 63) <<< 1 := by
        rw [Nat.shiftLeft_eq, Nat.shiftLeft_eq]
        omega
      rw [even, ← Nat.shiftLeft_add_eq_or_of_lt (by omega), Nat.shiftLeft_eq, pow_one, Nat.mul_comm]
    obtain ⟨⟨length, small⟩, out, value⟩ := @ih (x >>> 63) rest (by omega)
    refine ⟨⟨congrArg Nat.succ length, List.forall_mem_cons.mpr ⟨by omega, small⟩⟩, out, ?_⟩
    rw [shiftIn, low, high, number, number, Nat.ofDigits_cons, Nat.ofDigits_cons, List.length_cons,
      @pow_succ Nat _ (2 ^ 64)]
    rw [high] at value
    unfold number at value
    have split := Nat.mod_add_div x (2 ^ 63)
    linear_combination 2 * split + 2 ^ 64 * value

theorem modLStep_spec {x r : List Nat} {i : Nat} (words : Words 8 x) (reduced : Words 4 r)
    (value : number r = number x / 2 ^ (i + 1) % order) :
    Words 4 (modLStep x r i) ∧ number (modLStep x r i) = number x / 2 ^ i % order := by
  have bit : (x.getD (i / 64) 0 >>> (i % 64)) &&& 1 = number x / 2 ^ i % 2 := by
    have bits := @Limbs.bits x 64 (i / 64) (i % 64) 1 words.2 (by omega) (by norm_num)
    rw [Nat.div_add_mod, pow_one] at bits
    rw [Nat.shiftRight_eq_div_pow, Nat.and_one_is_mod]
    exact bits.symm
  have half : number x / 2 ^ (i + 1) = number x / 2 ^ i / 2 := by
    rw [Nat.pow_succ, Nat.div_div_eq_div_mul]
  have modulus : order = 2 ^ 252 + 27742317777372353535851937790883648493 := rfl
  have below : number x / 2 ^ (i + 1) % order < order := Nat.mod_lt _ (by decide)
  rw [half] at value below
  rw [modLStep, bit]
  generalize number x / 2 ^ i = n at *
  obtain ⟨shifted, out, doubled⟩ := @shiftIn_spec r (n % 2) reduced.2 (by omega)
  rw [reduced.1] at shifted doubled
  generalize shiftIn r (n % 2) = s at *
  have double : number s = 2 * (n / 2 % order) + n % 2 := by omega
  have same : n % order = number s % order := by
    conv_lhs => rw [← Nat.div_add_mod n 2]
    rw [double, Nat.add_mod, Nat.mul_mod, Nat.add_mod (2 * (n / 2 % order)), Nat.mul_mod 2 (n / 2 % order), Nat.mod_mod]
  rw [same]
  by_cases le : number L ≤ number s
  · obtain ⟨length, small, borrow, difference⟩ :=
      @Limbs.sub_spec _ s L 0 (shifted.1.trans words_L.1.symm) shifted.2 words_L.2 (by norm_num)
    have reduced' : Words 4 (Limbs.sub (2 ^ 64) s L 0).1 := ⟨length.trans shifted.1, small⟩
    have bound := reduced'.number_lt
    rw [shifted.1] at difference
    change number s + _ = number L + 0 + number _ at difference
    rw [if_pos ((ge_iff shifted words_L).mpr le)]
    rw [number_L] at le difference
    refine ⟨reduced', ?_⟩
    rw [Nat.mod_eq_sub_mod le, Nat.mod_eq_of_lt (by omega)]
    omega
  · rw [if_neg fun ge => le ((ge_iff shifted words_L).mp ge), Nat.mod_eq_of_lt (number_L ▸ Nat.lt_of_not_le le)]
    exact ⟨shifted, rfl⟩

theorem modL_spec {x : List Nat} (words : Words 8 x) :
    Words 4 (modL x) ∧ number (modL x) = number x % order := by
  have bits (n : Nat) : ∀ r : List Nat, Words 4 r → number r = number x / 2 ^ n % order →
      Words 4 ((List.range n).reverse.foldl (modLStep x) r) ∧
        number ((List.range n).reverse.foldl (modLStep x) r) = number x % order := by
    induction n with
    | zero =>
      intro r reduced value
      rw [pow_zero, Nat.div_one] at value
      exact ⟨reduced, value⟩
    | succ n ih =>
      intro r reduced value
      obtain ⟨reduced', value'⟩ := modLStep_spec words reduced value
      rw [List.range_succ, List.reverse_append, List.reverse_singleton, List.singleton_append, List.foldl_cons]
      exact ih _ reduced' value'
  have zero : number x / 2 ^ 512 = 0 := Nat.div_eq_of_lt (lt_of_lt_of_eq words.number_lt (by rw [← pow_mul]))
  exact bits 512 [0, 0, 0, 0] ⟨rfl, by decide⟩ (by rw [zero]; rfl)

/-! ### What is computed for a signature -/

theorem set_number {l : List Nat} {k x : Nat} (inside : k < l.length) :
    number (l.set k (x % 2 ^ 64)) + (2 ^ 64) ^ (k + 1) * (x >>> 64) + (2 ^ 64) ^ k * l.getD k 0 =
      number l + (2 ^ 64) ^ k * x := by
  have set := @Limbs.ofDigits_set (2 ^ 64) l k inside (x % 2 ^ 64)
  have split := Nat.mod_add_div x (2 ^ 64)
  rw [Nat.shiftRight_eq_div_pow, @pow_succ Nat _ (2 ^ 64)]
  unfold number
  generalize (2 ^ 64) ^ k = b at *
  linear_combination set + b * split

theorem mulLimb_spec {i j c : Nat} (first : Words 4 h) (second : Words 4 a) (words : Words 8 prod)
    (carry : c < 2 ^ 64) (inside : i + j < 8) : Returns (mulLimb h a i (prod, c) j) fun s => Words 8 s.1 ∧ s.2 < 2 ^ 64 ∧
      (∀ k, i + j < k → s.1.getD k 0 = prod.getD k 0) ∧
      number s.1 + (2 ^ 64) ^ (i + j + 1) * s.2 = number prod + (2 ^ 64) ^ (i + j) * (h.getD i 0 * a.getD j 0 + c) := by
  have old := words.getD_lt (i + j)
  have product : h.getD i 0 * a.getD j 0 ≤ (2 ^ 64 - 1) * (2 ^ 64 - 1) :=
    Nat.mul_le_mul (Nat.le_pred_of_lt (first.getD_lt i)) (Nat.le_pred_of_lt (second.getD_lt j))
  rw [mulLimb]
  dsimp only
  rw [u128_ok (by omega)]
  refine .bind (.ok rfl) ?_
  rintro product rfl
  rw [u128_ok (by omega)]
  refine .bind (.ok rfl) ?_
  rintro sum rfl
  rw [u128_ok (by omega)]
  refine .bind (.ok rfl) ?_
  rintro cur rfl
  have value := set_number (l := prod) (x := prod.getD (i + j) 0 + h.getD i 0 * a.getD j 0 + c) (words.1.symm ▸ inside)
  refine .ret ⟨words.set _ (Nat.mod_lt _ (by norm_num)), ?_, fun k above => Limbs.getD_set_of_ne (by omega) _, ?_⟩
  · dsimp only
    rw [Nat.shiftRight_eq_div_pow]
    omega
  · dsimp only
    linear_combination value

theorem mulRow_spec {i : Nat} (first : Words 4 h) (second : Words 4 a) (words : Words 8 prod)
    (inside : i < 4) (fresh : ∀ k, i + 4 ≤ k → prod.getD k 0 = 0) :
    Returns (mulRow h a prod i) fun r => Words 8 r ∧ (∀ k, i + 5 ≤ k → r.getD k 0 = 0) ∧
      number r = number prod + (2 ^ 64) ^ i * h.getD i 0 * number a := by
  have whole : a.take 4 = a := List.take_of_length_le second.1.le
  have products := Returns.range (f := mulLimb h a i) (n := 4) (b := (prod, 0)) (fun j s => Words 8 s.1 ∧ s.2 < 2 ^ 64 ∧
    (∀ k, i + j ≤ k → s.1.getD k 0 = prod.getD k 0) ∧
    number s.1 + (2 ^ 64) ^ (i + j) * s.2 = number prod + (2 ^ 64) ^ i * h.getD i 0 * number (a.take j))
    ⟨words, by norm_num, fun k above => rfl, by simp [number]⟩ (by
      rintro j ⟨p, c⟩ below ⟨words', carry, rest, value⟩
      apply (mulLimb_spec first second words' carry (by omega)).mono
      intro s ⟨words'', carry', rest', value'⟩
      refine ⟨words'', carry', fun k above => (rest' k (by omega)).trans (rest k (by omega)), ?_⟩
      have more := @Limbs.ofDigits_take_succ (2 ^ 64) a j
      unfold number at value value' ⊢
      rw [more]
      dsimp only at value
      rw [← Nat.add_assoc, value', pow_add]
      rw [pow_add] at value
      linear_combination value)
  rw [whole] at products
  rw [mulRow]
  apply products.bind
  rintro ⟨p, c⟩ ⟨words', carry, rest, value⟩
  dsimp only at words' carry rest value ⊢
  have top : p.getD (i + 4) 0 = 0 := (rest (i + 4) le_rfl).trans (fresh (i + 4) le_rfl)
  have set := @Limbs.ofDigits_set (2 ^ 64) p (i + 4) (by rw [words'.1]; omega) (c % 2 ^ 64)
  rw [top, Nat.mul_zero, Nat.add_zero] at set
  refine .ret ⟨words'.set _ (Nat.mod_lt _ (by norm_num)), fun k above => ?_, ?_⟩
  · rw [Limbs.getD_set_of_ne (by omega), rest k (by omega), fresh k (by omega)]
  · rw [Nat.mod_eq_of_lt carry] at set ⊢
    unfold number at value ⊢
    rw [set, value]

theorem zeros_getD (n k : Nat) : (List.replicate n 0).getD k 0 = 0 := by
  by_cases inside : k < n
  · exact List.getD_replicate 0 inside
  · exact List.getD_eq_default _ _ (by rw [List.length_replicate]; omega)

theorem product_spec (first : Words 4 h) (second : Words 4 a) :
    Returns ((List.range 4).foldlM (mulRow h a) (List.replicate 8 0)) fun prod => Words 8 prod ∧
      number prod = number h * number a := by
  have whole : h.take 4 = h := List.take_of_length_le first.1.le
  have rows := Returns.range (f := mulRow h a) (n := 4) (b := List.replicate 8 0) (fun i prod => Words 8 prod ∧
    (∀ k, i + 4 ≤ k → prod.getD k 0 = 0) ∧ number prod = number (h.take i) * number a)
    ⟨⟨rfl, by decide⟩, fun k above => zeros_getD 8 k, by
      rw [List.take_zero, number, number, Nat.ofDigits_nil, Nat.zero_mul]
      decide⟩ (by
      intro i prod inside ⟨words, fresh, value⟩
      apply (mulRow_spec first second words inside fresh).mono
      intro r ⟨words', fresh', value'⟩
      refine ⟨words', fun k above => fresh' k (by omega), ?_⟩
      have more := @Limbs.ofDigits_take_succ (2 ^ 64) h i
      rw [value', value]
      unfold number
      rw [more]
      ring)
  rw [whole] at rows
  exact rows.mono fun prod ⟨words, _, value⟩ => ⟨words, value⟩

theorem addLow_spec (first : Words 4 r) (words : Words 8 prod) :
    Returns ((List.range 4).foldlM (addLimb r) (prod, 0)) fun s => Words 8 s.1 ∧ s.2 ≤ 1 ∧ s.1.drop 4 = prod.drop 4 ∧
      number s.1 + 2 ^ 256 * s.2 = number prod + number r := by
  have whole : r.take 4 = r := List.take_of_length_le first.1.le
  have sums := Returns.range (f := addLimb r) (n := 4) (b := (prod, 0)) (fun i s => Words 8 s.1 ∧ s.2 ≤ 1 ∧
    (∀ k, i ≤ k → s.1.getD k 0 = prod.getD k 0) ∧ number s.1 + (2 ^ 64) ^ i * s.2 = number prod + number (r.take i))
    ⟨words, by norm_num, fun k above => rfl, by simp [number]⟩ (by
      rintro i ⟨p, c⟩ below ⟨words', carry, rest, value⟩
      dsimp only at words' carry rest value
      have old := words'.getD_lt i
      have new := first.getD_lt i
      rw [addLimb]
      dsimp only
      rw [u128_ok (by omega)]
      refine .bind (.ok rfl) ?_
      rintro sum rfl
      rw [u128_ok (by omega)]
      refine .bind (.ok rfl) ?_
      rintro cur rfl
      have set := @set_number p i (p.getD i 0 + r.getD i 0 + c) (by rw [words'.1]; omega)
      have more := @Limbs.ofDigits_take_succ (2 ^ 64) r i
      refine .ret ⟨words'.set _ (Nat.mod_lt _ (by norm_num)), ?_,
        fun k above => (Limbs.getD_set_of_ne (by omega) _).trans (rest k (by omega)), ?_⟩
      · dsimp only
        rw [Nat.shiftRight_eq_div_pow]
        omega
      · dsimp only
        unfold number at set value ⊢
        rw [more]
        linear_combination set + value)
  rw [whole] at sums
  apply sums.mono
  rintro ⟨p, c⟩ ⟨words', carry, rest, value⟩
  refine ⟨words', carry, ?_, by rw [← value, ← pow_mul]⟩
  apply List.ext_getElem
  · rw [List.length_drop, List.length_drop, words'.1, words.1]
  · intro k inside inside'
    rw [List.length_drop] at inside inside'
    have same := rest (4 + k) (by omega)
    rw [List.getD_eq_getElem _ _ (by omega), List.getD_eq_getElem _ _ (by omega)] at same
    rw [List.getElem_drop, List.getElem_drop]
    exact same

theorem Words.split (words : Words 8 l) :
    number l = number (l.take 4) + 2 ^ 256 * number (l.drop 4) ∧ number (l.take 4) < 2 ^ 256 := by
  have length : (l.take 4).length = 4 := by rw [List.length_take, words.1]; rfl
  have low : Words 4 (l.take 4) := ⟨length, fun x member => words.2 x (List.mem_of_mem_take member)⟩
  constructor
  · unfold number
    conv_lhs => rw [← List.take_append_drop 4 l]
    rw [Nat.ofDigits_append, length, ← pow_mul]
  · exact lt_of_lt_of_eq low.number_lt (by rw [← pow_mul])

/-- The carry into the fifth limb leaves it again. -/
def CarryLost (r h a : List Nat) : Prop :=
  number h * number a / 2 ^ 256 % 2 ^ 64 = 2 ^ 64 - 1 ∧ 2 ^ 256 ≤ number h * number a % 2 ^ 256 + number r

instance (r h a : List Nat) : Decidable (CarryLost r h a) := inferInstanceAs (Decidable (_ ∧ _))

theorem scalarS_spec (reduced : Words 4 r) (first : Words 4 h) (second : Words 4 a) :
    Returns (scalarS r h a) fun s => Words 4 s ∧ ∃ sum, number s = sum % order ∧
      sum + (if CarryLost r h a then 2 ^ 320 else 0) = number r + number h * number a := by
  rw [scalarS]
  apply (product_spec first second).bind
  intro prod ⟨words, product⟩
  apply (addLow_spec reduced words).bind
  rintro ⟨low, c⟩ ⟨words', carry, high, value⟩
  dsimp only at words' carry high value ⊢
  have fifth : low.getD 4 0 = number h * number a / 2 ^ 256 % 2 ^ 64 := by
    have limb := @Limbs.ofDigits_div_mod (2 ^ 64) low (by norm_num) words'.2 4
    obtain ⟨parts, below⟩ := words'.split
    obtain ⟨parts', below'⟩ := words.split
    rw [← pow_mul] at limb
    change number low / 2 ^ 256 % 2 ^ 64 = _ at limb
    rw [high] at parts
    rw [← limb, ← product]
    omega
  have low_carry : number low % 2 ^ 256 + 2 ^ 256 * c = number h * number a % 2 ^ 256 + number r := by
    obtain ⟨parts, below⟩ := words'.split
    obtain ⟨parts', below'⟩ := words.split
    rw [high] at parts
    rw [← product]
    omega
  have set := @Limbs.ofDigits_set (2 ^ 64) low 4 (by rw [words'.1]; norm_num) ((low.getD 4 0 + c % 2 ^ 64) % 2 ^ 64)
  rw [← pow_mul] at set
  change number _ + 2 ^ 256 * _ = number low + 2 ^ 256 * _ at set
  have words'' := words'.set 4 (x := (low.getD 4 0 + c % 2 ^ 64) % 2 ^ 64) (Nat.mod_lt _ (by norm_num))
  obtain ⟨small, exact_⟩ := modL_spec words''
  refine .ret ⟨small, _, exact_, ?_⟩
  rw [product] at value
  by_cases lost : CarryLost r h a
  · rw [if_pos lost]
    unfold CarryLost at lost
    omega
  · rw [if_neg lost]
    unfold CarryLost at lost
    omega

/-! ### Signatures -/

/-- What the scalar of a signature is to be: the sum is computed, exactly and below the group order, and for a base point of that
order it solves the equation that is verified. -/
def Exact (r h a : List Nat) : Prop :=
  Returns (scalarS r h a) fun s => number s = (number r + number h * number a) % order ∧ number s < order ∧
    ∀ (G : Type) [AddCommGroup G] (B : G), order • B = 0 → number s • B = number r • B + number h • number a • B

theorem mod_smul {G : Type} [AddCommGroup G] {B : G} (torsion : order • B = 0) (n : Nat) : (n % order) • B = n • B := by
  conv_rhs => rw [← Nat.div_add_mod n order, add_smul, mul_comm, mul_smul, torsion, smul_zero, zero_add]

theorem exact_iff (reduced : Words 4 r) (first : Words 4 h) (second : Words 4 a) : Exact r h a ↔ ¬ CarryLost r h a := by
  obtain ⟨s, computed, words, sum, value, total⟩ := scalarS_spec reduced first second
  have below : number s < order := value ▸ Nat.mod_lt _ (by decide)
  constructor
  · rintro ⟨s', computed', exact_, -⟩ lost
    have same : s' = s := Except.ok.inj (computed'.symm.trans computed)
    rw [if_pos lost] at total
    rw [same, value, ← total] at exact_
    have divides : order ∣ 2 ^ 320 := by
      have difference := (Nat.modEq_iff_dvd' (Nat.le_add_right sum (2 ^ 320))).mp exact_
      rwa [Nat.add_sub_cancel_left] at difference
    rw [show (320 : Nat) = 256 + 64 from rfl, pow_add] at divides
    exact absurd divides (by decide)
  · intro kept
    rw [if_neg kept, Nat.add_zero] at total
    rw [total] at value
    refine ⟨s, computed, value, below, fun G _ B torsion => ?_⟩
    rw [value, mod_smul torsion, add_smul, mul_smul]

theorem bytesToLimbs_words {b : Bytes} (length : b.length = 32) : Words 4 (bytesToLimbs b) := by
  refine ⟨rfl, fun x member => ?_⟩
  obtain ⟨i, inside, rfl⟩ := List.mem_map.mp member
  have below := LittleEndian.read_lt ((b.drop (i * 8)).take 8)
  have i_lt := List.mem_range.mp inside
  rw [List.length_take, List.length_drop, length, Nat.min_eq_left (by omega)] at below
  exact lt_of_lt_of_eq below (by norm_num)

theorem length_clamp (a : Bytes) : (clamp a).length = a.length := by
  simp only [clamp, List.length_modify]

/-- Reduction of every number of 512 bits. -/
theorem modL_reduces {x : List Nat} (words : Words 8 x) :
    number (modL x) = number x % order ∧ Words 4 (modL x) ∧ number (modL x) < order := by
  obtain ⟨reduced, value⟩ := modL_spec words
  exact ⟨value, reduced, value ▸ Nat.mod_lt _ (by decide)⟩

/-- Twice the order and five. -/
theorem modL_reduces_sample :
    number (modL [0xb024c634b9eba7df, 0x29bdf3bd45ef39ac, 0, 0x2000000000000000, 0, 0, 0, 0]) = 5 := by
  have words : Words 8 [0xb024c634b9eba7df, 0x29bdf3bd45ef39ac, 0, 0x2000000000000000, 0, 0, 0, 0] := ⟨rfl, by decide⟩
  exact (modL_reduces words).1.trans (by decide)

/-- The scalar of a signature is exact but for the carry that is lost where the fifth limb of the product is full. -/
theorem scalarS_exact_iff {r h : List Nat} {secret : Bytes} (r_words : Words 4 r) (h_words : Words 4 h)
    (length : secret.length = 32) :
    Exact r h (bytesToLimbs (clamp secret)) ↔ ¬ CarryLost r h (bytesToLimbs (clamp secret)) :=
  exact_iff r_words h_words (bytesToLimbs_words ((length_clamp secret).trans length))

/-- The secret `2 ^ 254 + 2 ^ 188 - 2 ^ 185`, which is clamped as it is. -/
def clampedSecret : Bytes := List.replicate 23 0 ++ 14 :: List.replicate 7 0 ++ [64]

/-- The hash 5, and that secret. -/
theorem scalarS_exact_five : Exact [7, 0, 0, 0] [5, 0, 0, 0] (bytesToLimbs (clamp clampedSecret)) := by
  have r_words : Words 4 [7, 0, 0, 0] := ⟨rfl, by decide⟩
  have h_words : Words 4 [5, 0, 0, 0] := ⟨rfl, by decide⟩
  exact (scalarS_exact_iff r_words h_words rfl).mpr (by decide)

/-- The hash `2 ^ 66 - 1`, and the nonce one below the order. -/
theorem scalarS_inexact :
    number [0x5812631a5cf5d3ec, 0x14def9dea2f79cd6, 0, 0x1000000000000000] < order ∧
      number [0xffffffffffffffff, 3, 0, 0] < order ∧ clamp clampedSecret = clampedSecret ∧
      ¬ Exact [0x5812631a5cf5d3ec, 0x14def9dea2f79cd6, 0, 0x1000000000000000] [0xffffffffffffffff, 3, 0, 0]
        (bytesToLimbs (clamp clampedSecret)) := by
  refine ⟨by decide, by decide, by decide, ?_⟩
  have r_words : Words 4 [0x5812631a5cf5d3ec, 0x14def9dea2f79cd6, 0, 0x1000000000000000] := ⟨rfl, by decide⟩
  have h_words : Words 4 [0xffffffffffffffff, 3, 0, 0] := ⟨rfl, by decide⟩
  rw [exact_iff r_words h_words (bytesToLimbs_words (by decide)), not_not]
  decide

end TypeBit.Ed25519
