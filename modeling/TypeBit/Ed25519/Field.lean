import TypeBit.Basic
import TypeBit.Lib.Limbs

/-! The field of `crypto/ed25519.rs`: numbers modulo `2^255 - 19` in five limbs of 51 bits. The arithmetic on 128-bit integers
is checked, as in a build that aborts on an overflow. -/

namespace TypeBit.Ed25519

inductive Fault where
  | overflow
  | index
  deriving DecidableEq, Repr

def u128 (n : Nat) : Except Fault Nat := if n < 2 ^ 128 then .ok n else .error .overflow

theorem u128_ok {n : Nat} (small : n < 2 ^ 128) : u128 n = .ok n := if_pos small

def i128 (n : Int) : Except Fault Int := if -2 ^ 127 ≤ n ∧ n < 2 ^ 127 then .ok n else .error .overflow

def MASK51 : Nat := 1 <<< 51 - 1

def P : List Nat := [0x7FFFFFFFFFFED, 0x7FFFFFFFFFFFF, 0x7FFFFFFFFFFFF, 0x7FFFFFFFFFFFF, 0x7FFFFFFFFFFFF]

structure Fe where
  limbs : List Nat
  deriving DecidableEq, Repr

/-! ### Carrying -/

def carry : List Int → Int → Except Fault (List Nat × Int)
  | [], c => .ok ([], c)
  | t :: ts, c => do
      let cur ← i128 (t + c)
      let rest ← carry ts (cur / 2 ^ 51)
      return ((cur % 2 ^ 51).toNat :: rest.1, rest.2)

def ripple : List Nat → Int → Except Fault (List Nat × Int)
  | [], c => .ok ([], c)
  | l :: ls, c =>
      if c = 0 then .ok (l :: ls, 0)
      else do
        let cur ← i128 (l + c)
        let rest ← ripple ls (cur / 2 ^ 51)
        return ((cur % 2 ^ 51).toNat :: rest.1, rest.2)

/-- What is carried out of the last limb stands for multiples of `2^255`, and is folded in as multiples of 19. The two lowest
limbs always take part; a carry out of the second pass goes no further than the second limb. -/
def normalize (t : List Int) : Except Fault Fe := do
  let (out, c) ← carry t 0
  let extra ← i128 (19 * c)
  let cur ← i128 (out.getD 0 0 + extra)
  let cur1 ← i128 (out.getD 1 0 + cur / 2 ^ 51)
  let (high, c5) ← ripple (out.drop 2) (cur1 / 2 ^ 51)
  let l0 := (cur % 2 ^ 51).toNat
  let l1 := (cur1 % 2 ^ 51).toNat
  if c5 = 0 then return ⟨l0 :: l1 :: high⟩
  else do
    let cur0 ← i128 (l0 + 19 * c5)
    let l0 := (cur0 % 2 ^ 51).toNat
    let c6 := cur0 / 2 ^ 51
    if c6 = 0 then return ⟨l0 :: l1 :: high⟩
    else do
      let cur1 ← i128 (l1 + c6)
      return ⟨l0 :: (cur1 % 2 ^ 51).toNat :: high⟩

def geP (a : Fe) : Bool := Limbs.ge a.limbs.reverse P.reverse

def condSubP (a : Fe) : Fe := if geP a then ⟨(Limbs.sub (2 ^ 64) a.limbs P 0).1⟩ else a

/-! ### The operations -/

def addProduct (t : List Nat) (k x y : Nat) : Except Fault (List Nat) := do
  let product ← u128 (x * y)
  let sum ← u128 (t.getD k 0 + product)
  return t.set k sum

def row (a b : List Nat) (t : List Nat) (i : Nat) : Except Fault (List Nat) :=
  (List.range 5).foldlM (fun t j => addProduct t (i + j) (a.getD i 0) (b.getD j 0)) t

def foldHigh (t : List Nat) (i : Nat) : Except Fault (List Nat) := do
  let scaled ← u128 (19 * t.getD (i + 5) 0)
  let sum ← u128 (t.getD i 0 + scaled)
  return t.set i sum

def propagate : List Nat → Nat → Except Fault (List Nat × Nat)
  | [], c => .ok ([], c)
  | t :: ts, c => do
      let cur ← u128 (t + c)
      let rest ← propagate ts (cur >>> 51)
      return ((cur &&& MASK51) :: rest.1, rest.2)

theorem addBack_value {out : List Nat} {i : Nat} (inside : i < out.length) (c : Nat) :
    Nat.ofDigits (2 ^ 51) (out.set i ((out.getD i 0 + c) &&& MASK51)) + ((out.getD i 0 + c) >>> 51) * (2 ^ 51) ^ (i + 1) =
      Nat.ofDigits (2 ^ 51) out + c * (2 ^ 51) ^ i := by
  have mask : (out.getD i 0 + c) &&& MASK51 = (out.getD i 0 + c) % 2 ^ 51 := Nat.and_two_pow_sub_one_eq_mod _ 51
  rw [mask, Nat.shiftRight_eq_div_pow]
  generalize 2 ^ 51 = b
  have set := @Limbs.ofDigits_set b out i inside ((out.getD i 0 + c) % b)
  have split := Nat.mod_add_div (out.getD i 0 + c) b
  apply Nat.add_right_cancel (m := b ^ i * out.getD i 0)
  calc Nat.ofDigits b (out.set i ((out.getD i 0 + c) % b)) + (out.getD i 0 + c) / b * b ^ (i + 1) + b ^ i * out.getD i 0
      = Nat.ofDigits b out + b ^ i * ((out.getD i 0 + c) % b) + (out.getD i 0 + c) / b * b ^ (i + 1) := by
        rw [Nat.add_right_comm, set]
    _ = Nat.ofDigits b out + b ^ i * ((out.getD i 0 + c) % b + b * ((out.getD i 0 + c) / b)) := by ring
    _ = Nat.ofDigits b out + c * b ^ i + b ^ i * out.getD i 0 := by
        rw [split]
        ring

/-- Add the carry back in at a limb, and go on while something is carried; from the last limb 19 times as much goes to the
first. -/
def addBack (out : List Nat) (c i : Nat) : Except Fault (List Nat) :=
  if c = 0 then .ok out
  else if h : i < out.length then
    let cur := out.getD i 0 + c
    if cur < 2 ^ 128 then
      if i + 1 = 5 ∧ 0 < cur >>> 51 then
        if 19 * (cur >>> 51) < 2 ^ 128 then addBack (out.set i (cur &&& MASK51)) (19 * (cur >>> 51)) 0 else .error .overflow
      else addBack (out.set i (cur &&& MASK51)) (cur >>> 51) (i + 1)
    else .error .overflow
  else .error .index
termination_by (Nat.ofDigits (2 ^ 51) out + c * (2 ^ 51) ^ i, out.length - i)
decreasing_by
  · have value : Nat.ofDigits (2 ^ 51) (out.set i (cur &&& MASK51)) + (cur >>> 51) * (2 ^ 51) ^ (i + 1) = _ := addBack_value h c
    have room : 19 * (cur >>> 51) * (2 ^ 51) ^ 0 < (cur >>> 51) * (2 ^ 51) ^ (i + 1) := by
      have five : i + 1 = 5 := by tauto
      rw [five]
      omega
    simp only [Prod.lex_def]
    left
    exact lt_of_lt_of_eq (Nat.add_lt_add_left room _) value
  · have value := addBack_value h c
    simp only [Prod.lex_def]
    right
    refine ⟨value, ?_⟩
    rw [List.length_set]
    omega

namespace Fe

def ZERO : Fe := ⟨[0, 0, 0, 0, 0]⟩
def ONE : Fe := ⟨[1, 0, 0, 0, 0]⟩

def add (a b : Fe) : Except Fault Fe := do
  let t ← (a.limbs.zip b.limbs).mapM (fun x => i128 (x.1 + x.2))
  return condSubP (← normalize t)

def sub (a b : Fe) : Except Fault Fe := do
  let t ← (a.limbs.zip (P.zip b.limbs)).mapM (fun x => do
    let sum ← i128 (x.1 + x.2.1)
    i128 (sum - x.2.2))
  return condSubP (← normalize t)

def neg (a : Fe) : Except Fault Fe := sub ZERO a

def mul (a b : Fe) : Except Fault Fe := do
  let t ← (List.range 5).foldlM (row a.limbs b.limbs) (List.replicate 10 0)
  let t ← (List.range 5).foldlM foldHigh t
  let (out, c) ← propagate (t.take 5) 0
  let c ← u128 (19 * c)
  return condSubP ⟨← addBack out c 0⟩

def square (a : Fe) : Except Fault Fe := mul a a

def bitOf (e : Bytes) (i : Nat) : Nat := ((e.getD (i / 8) 0).toNat >>> (i % 8)) &&& 1

def pow (a : Fe) (e : Bytes) : Except Fault Fe :=
  (List.range 256).reverse.foldlM (fun result i => do
    let result ← square result
    if bitOf e i = 1 then mul result a else return result) ONE

def invert (a : Fe) : Except Fault Fe := pow a (0xEB :: List.replicate 30 0xFF ++ [0x7F])

end Fe
end TypeBit.Ed25519
