import Mathlib.Algebra.Order.Ring.Int
import Mathlib.Data.List.Lex
import Mathlib.Data.Nat.Basic
import Mathlib.Tactic.Common

/-! Shared vocabulary: the error taxonomy, bytes, and the two's-complement casts of the source. -/

namespace TypeBit

inductive Error where
  | invalidInput
  | bencode
  | metaInfo
  | magnet
  | handshake
  | protocol
  | hashMismatch
  | tracker
  | dht
  | crypto
  | receipt
  | io
  | full
  | notSupported
  | wouldBlock
  | timeout
  | notFound
  | tooLarge
  | depth
  | internal
  | range
  deriving DecidableEq, Repr

abbrev Result (α : Type*) := Except Error α

instance instDecidableEqExcept {ε α : Type*} [DecidableEq ε] [DecidableEq α] : DecidableEq (Except ε α)
  | .ok a, .ok b => decidable_of_iff (a = b) (by simp)
  | .error a, .error b => decidable_of_iff (a = b) (by simp)
  | .ok _, .error _ => isFalse (by simp)
  | .error _, .ok _ => isFalse (by simp)

theorem bind_eq_ok {α β : Type} {x : Result α} {f : α → Result β} {r : β} :
    (x >>= f) = .ok r ↔ ∃ a, x = .ok a ∧ f a = .ok r := by
  cases x with
  | error e => simp [bind, Except.bind]
  | ok a => simp [bind, Except.bind]

theorem guard_eq_ok {α : Type} {p : Prop} [Decidable p] {e : Error} {x : Result α} {r : α} :
    (if p then .error e else x) = .ok r ↔ ¬ p ∧ x = .ok r := by
  by_cases taken : p <;> simp [taken]

theorem map_toOption_eq_some {α β : Type} {x : Result α} {f : α → β} {b : β} :
    x.toOption.map f = some b ↔ ∃ a, x = .ok a ∧ f a = b := by
  cases x with
  | error e => simp [Except.toOption]
  | ok a => simp [Except.toOption]

abbrev Bytes := List UInt8

instance instLinearOrderUInt8 : LinearOrder UInt8 where
  le_refl := UInt8.le_refl
  le_trans _ _ _ := UInt8.le_trans
  le_antisymm _ _ := UInt8.le_antisymm
  le_total := UInt8.le_total
  lt_iff_le_not_ge a b := by
    rw [UInt8.lt_iff_toNat_lt, UInt8.le_iff_toNat_le, UInt8.le_iff_toNat_le]
    omega
  toDecidableLE := inferInstance
  toDecidableLT := inferInstance
  toDecidableEq := inferInstance

abbrev ch (c : Char) : UInt8 := c.toNat.toUInt8

def ascii (s : String) : Bytes := s.toList.map ch

def asU32 (i : Int) : Nat := (i % 2 ^ 32).toNat

theorem asU32_lt (i : Int) : asU32 i < 2 ^ 32 := by
  unfold asU32
  omega

def wadd (a b : Nat) : Nat := (a + b) % 2 ^ 64

def wsub (a b : Nat) : Nat := if b ≤ a then a - b else 2 ^ 64 - (b - a)

def wmul (a b : Nat) : Nat := a * b % 2 ^ 64

def satAdd (a b : Nat) : Nat := min (a + b) (2 ^ 64 - 1)

def divCeil (a b : Nat) : Nat := (a + b - 1) / b

theorem wadd_of_lt {a b : Nat} (fits : a + b < 2 ^ 64) : wadd a b = a + b := Nat.mod_eq_of_lt fits

theorem wmul_of_lt {a b : Nat} (fits : a * b < 2 ^ 64) : wmul a b = a * b := Nat.mod_eq_of_lt fits

theorem wsub_of_le {a b : Nat} (ordered : b ≤ a) : wsub a b = a - b := if_pos ordered

def okOr {α : Type*} (o : Option α) (e : Error) : Result α :=
  match o with
  | some a => .ok a
  | none => .error e

theorem okOr_eq_ok {α : Type*} {o : Option α} {e : Error} {a : α} : okOr o e = .ok a ↔ o = some a := by
  cases o <;> simp [okOr]

def BLOCK_LEN : Nat := 16 * 1024

end TypeBit
