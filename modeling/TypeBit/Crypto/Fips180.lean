import TypeBit.Lib.Radix
import TypeBit.Lib.MerkleDamgard
import TypeBit.Platform

/-! The words of the hash functions, and SHA-1 as FIPS 180 defines it: the schedule of eighty words, eighty rounds, and
the padded message. -/

namespace TypeBit.Crypto
open LittleEndian

def rotl (x : UInt32) (n : Nat) : UInt32 := ⟨x.toBitVec.rotateLeft n⟩

theorem getLsbD_rotl (x : UInt32) {n i : Nat} (small : n < 32) (inside : i < 32) :
    (rotl x n).toBitVec.getLsbD i = x.toBitVec.getLsbD ((i + (32 - n)) % 32) := by
  rw [rotl, BitVec.getLsbD_rotateLeft, Nat.mod_eq_of_lt small]
  by_cases low : i < n
  · have around : (i + (32 - n)) % 32 = 32 - n + i := by omega
    rw [decide_eq_true low, cond_true, around]
  · have back : (i + (32 - n)) % 32 = i - n := by omega
    rw [decide_eq_false low, cond_false, decide_eq_true inside, Bool.true_and, back]

theorem rotl_xor (x y : UInt32) {n : Nat} (small : n < 32) : rotl (x ^^^ y) n = rotl x n ^^^ rotl y n := by
  apply UInt32.toBitVec_inj.mp
  apply BitVec.eq_of_getLsbD_eq
  intro i inside
  simp only [UInt32.toBitVec_xor, BitVec.getLsbD_xor, getLsbD_rotl _ small inside]

theorem rotl_rotl_one (x : UInt32) : rotl (rotl x 1) 1 = rotl x 2 := by
  apply UInt32.toBitVec_inj.mp
  apply BitVec.eq_of_getLsbD_eq
  intro i inside
  have bound := Nat.mod_lt (i + 31) (show 0 < 32 by decide)
  rw [getLsbD_rotl _ (by decide) inside, getLsbD_rotl _ (by decide) bound, getLsbD_rotl _ (by decide) inside]
  congr 1
  omega

/-- A word from its bytes, the least significant first. -/
def fromLe (b : Bytes) : UInt32 := UInt32.ofNat (read b)

def fromBe (b : Bytes) : UInt32 := fromLe b.reverse

def toLe (x : UInt32) : Bytes := write 4 x.toNat

def toBe (x : UInt32) : Bytes := (toLe x).reverse

theorem toLe_fromLe {b : Bytes} (four : b.length = 4) : toLe (fromLe b) = b := by
  have small := read_lt b
  rw [four] at small
  rw [toLe, fromLe, UInt32.toNat_ofNat_of_lt' small, ← four, write_read]

/-- The bytes of a `u64` length, the most significant first. -/
def lenBe (n : Nat) : Bytes := (write 8 n).reverse

@[simp] theorem length_lenBe (n : Nat) : (lenBe n).length = 8 := by
  rw [lenBe, List.length_reverse, length_write]

theorem lenBe_mod (n : Nat) : lenBe (n % 2 ^ 64) = lenBe n := congrArg List.reverse (write_mod 8 n)

/-- The `i`-th word of a block. -/
def wordBe (block : Bytes) (i : Nat) : UInt32 :=
  fromBe [block.getD (i * 4) 0, block.getD (i * 4 + 1) 0, block.getD (i * 4 + 2) 0, block.getD (i * 4 + 3) 0]

/-- The five words of the state, and of the registers of a round. -/
structure Regs where
  a : UInt32
  b : UInt32
  c : UInt32
  d : UInt32
  e : UInt32
  deriving DecidableEq, Repr

namespace Regs

def add (s r : Regs) : Regs := ⟨s.a + r.a, s.b + r.b, s.c + r.c, s.d + r.d, s.e + r.e⟩

def bytes (s : Regs) : Bytes := toBe s.a ++ toBe s.b ++ toBe s.c ++ toBe s.d ++ toBe s.e

end Regs

namespace Fips180

def H0 : Regs := ⟨0x67452301, 0xEFCDAB89, 0x98BADCFE, 0x10325476, 0xC3D2E1F0⟩

def choose (b c d : UInt32) : UInt32 := (b &&& c) ||| (~~~b &&& d)

def parity (b c d : UInt32) : UInt32 := b ^^^ c ^^^ d

def majority (b c d : UInt32) : UInt32 := (b &&& c) ||| (b &&& d) ||| (c &&& d)

/-- The function of round `t`. -/
def f (t : Nat) : UInt32 → UInt32 → UInt32 → UInt32 :=
  if t < 20 then choose else if t < 40 then parity else if t < 60 then majority else parity

/-- The constant of round `t`. -/
def K (t : Nat) : UInt32 :=
  if t < 20 then 0x5A827999 else if t < 40 then 0x6ED9EBA1 else if t < 60 then 0x8F1BBCDC else 0xCA62C1D6

/-- The word of round `t`, from the words of the block. -/
def W (m : Nat → UInt32) (t : Nat) : UInt32 :=
  if t < 16 then m t else rotl (W m (t - 3) ^^^ W m (t - 8) ^^^ W m (t - 14) ^^^ W m (t - 16)) 1

theorem W_block {m : Nat → UInt32} {t : Nat} (first : t < 16) : W m t = m t := by
  rw [W, if_pos first]

theorem W_scheduled (m : Nat → UInt32) (t : Nat) :
    W m (t + 16) = rotl (W m (t + 13) ^^^ W m (t + 8) ^^^ W m (t + 2) ^^^ W m t) 1 := by
  rw [W, if_neg (by omega)]
  simp

/-- The same sum as the vector instructions order it. -/
theorem W_vector (m : Nat → UInt32) (t : Nat) :
    rotl (W m (t + 2) ^^^ W m t ^^^ W m (t + 8) ^^^ W m (t + 13)) 1 = W m (t + 16) := by
  rw [W_scheduled]
  congr 1
  ac_rfl

def round (f : UInt32 → UInt32 → UInt32 → UInt32) (k wi : UInt32) (r : Regs) : Regs :=
  ⟨rotl r.a 5 + f r.b r.c r.d + r.e + k + wi, r.a, rotl r.b 30, r.c, r.d⟩

/-- The registers before round `t`. -/
def regs (m : Nat → UInt32) (s : Regs) : Nat → Regs
  | 0 => s
  | t + 1 => round (f t) (K t) (W m t) (regs m s t)

theorem regs_zero (m : Nat → UInt32) (s : Regs) : regs m s 0 = s := rfl

/-- Four rounds later the first register has become the fifth. -/
theorem regs_e (m : Nat → UInt32) (s : Regs) (t : Nat) : (regs m s (t + 4)).e = rotl (regs m s t).a 30 := rfl

/-- One block taken into the state. -/
def process (s : Regs) (block : Bytes) : Regs := s.add (regs (wordBe block) s 80)

/-- The length goes modulo `2 ^ 64` into the last eight bytes. -/
def pad (message : Bytes) : Bytes :=
  message ++ MerkleDamgard.padding 64 0x80 0 message.length (lenBe (message.length * 8))

def digest (message : Bytes) : Bytes := (MerkleDamgard.absorb process 64 H0 (pad message)).bytes

end Fips180

end TypeBit.Crypto
