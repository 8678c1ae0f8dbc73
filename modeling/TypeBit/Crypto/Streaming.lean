import TypeBit.Crypto.Sha1
import TypeBit.Lib.Patch

/-! The incremental hasher of SHA-1: a state, a running length and a block that fills up. -/

namespace TypeBit.Crypto
open MerkleDamgard

/-- `part` copied into an array from position `o` on. -/
def copyFromSlice {size : Nat} (block : ByteArr size) (o : Nat) (part : Bytes) (fits : o + part.length ≤ size) :
    ByteArr size :=
  ⟨Patch.splice block.val o part, by
    rw [Patch.length_splice (by rw [block.property]; exact fits), block.property]⟩

theorem take_copyFromSlice {size o n : Nat} {part : Bytes} (block : ByteArr size) (fits : o + part.length ≤ size)
    (copied : o + part.length = n) : (copyFromSlice block o part fits).val.take n = block.val.take o ++ part := by
  subst copied
  have front : (block.val.take o).length = o := by
    rw [List.length_take, block.property]
    omega
  change (block.val.take o ++ part ++ block.val.drop (o + part.length)).take (o + part.length) = _
  exact List.take_left' (by rw [List.length_append, front])

/-- A copy that reaches the end of the block fills it. -/
theorem copyFromSlice_full {size o : Nat} {part : Bytes} (block : ByteArr size) (fits : o + part.length ≤ size)
    (full : o + part.length = size) : (copyFromSlice block o part fits).val = block.val.take o ++ part := by
  have filled := take_copyFromSlice block fits full
  rwa [List.take_of_length_le (copyFromSlice block o part fits).property.le] at filled

/-- An incremental hasher. The block is never full between two calls. -/
structure Hasher (S : Type) (size : Nat) where
  state : S
  len : Nat
  block : ByteArr size
  n : Nat
  short : n < size

namespace Hasher
variable {S : Type} {size : Nat}

/-- The bytes that wait for a full block. -/
def waiting (h : Hasher S size) : Bytes := h.block.val.take h.n

@[simp] theorem length_waiting (h : Hasher S size) : h.waiting.length = h.n := by
  rw [waiting, List.length_take, h.block.property]
  exact Nat.min_eq_left h.short.le

/-- The hasher `h'` is `h` with `data` taken in. -/
structure Takes (compress : S → Bytes → S) (lenMod : Nat) (h : Hasher S size) (data : Bytes) (h' : Hasher S size) :
    Prop where
  state : h'.state = absorb compress size h.state (h.waiting ++ data)
  waits : h'.waiting = rest size (h.waiting ++ data)
  len : h'.len = (h.len + data.length) % lenMod

/-- What a hasher holds after all of `data`. -/
structure Holds (compress : S → Bytes → S) (lenMod : Nat) (iv : S) (data : Bytes) (h : Hasher S size) : Prop where
  fed : Fed compress size iv data h.state h.waiting
  len : h.len = data.length % lenMod

section run
variable {compress : S → Bytes → S} {lenMod : Nat} {iv : S} {data : Bytes} {h : Hasher S size}

theorem Holds.takes {more : Bytes} {h' : Hasher S size} (holds : Holds compress lenMod iv data h)
    (takes : Takes compress lenMod h more h') : Holds compress lenMod iv (data ++ more) h' := by
  constructor
  · rw [takes.state, takes.waits]
    exact holds.fed.feed (Nat.zero_lt_of_lt h.short) more
  · rw [takes.len, holds.len, List.length_append, Nat.mod_add_mod]

/-- The invariant of a run: a hasher holds all the chunks it was fed. -/
theorem Holds.foldl {update : Hasher S size → Bytes → Hasher S size}
    (takes : ∀ h data, Takes compress lenMod h data (update h data)) (holds : Holds compress lenMod iv data h)
    (chunks : List Bytes) : Holds compress lenMod iv (data ++ chunks.flatten) (chunks.foldl update h) := by
  induction chunks generalizing data h with
  | nil => rwa [List.flatten_nil, List.append_nil]
  | cons chunk chunks ih =>
    rw [List.flatten_cons, ← List.append_assoc]
    exact ih (holds.takes (takes h chunk))

end run

end Hasher

end TypeBit.Crypto

/-! ### SHA-1 -/

namespace TypeBit.Crypto.Sha1
open Fips180 MerkleDamgard

inductive Arch where
  | x86_64
  | aarch64
  | other
  deriving DecidableEq, Repr

/-- What the build and the processor decide: the target, the `simd` feature, and whether the processor has the
instructions. -/
structure Target where
  arch : Arch
  simd : Bool
  available : Bool
  deriving DecidableEq, Repr

def compress (target : Target) (state : Regs) (block : Bytes) : Regs :=
  if target.arch = .x86_64 ∧ target.simd ∧ target.available then Shani.sha1Shani state block
  else if target.arch = .aarch64 ∧ target.simd ∧ target.available then Armv8.sha1Armv8 state block
  else sha1Scalar state block

def new : Hasher Regs 64 := ⟨H0, 0, .replicate 64 0, 0, by decide⟩

/-- The whole blocks of `data` straight into the state, and the rest into the block. -/
def direct (target : Target) (state : Regs) (len : Nat) (block : ByteArr 64) (data : Bytes) :
    Hasher Regs 64 :=
  let state := (whole 64 data).foldl (compress target) state
  let rem := rest 64 data
  have short : rem.length < 64 := by
    rw [length_rest]
    exact Nat.mod_lt _ (by decide)
  if rem ≠ [] then ⟨state, len, copyFromSlice block 0 rem (by omega), rem.length, short⟩
  else ⟨state, len, block, 0, by decide⟩

def update (target : Target) (h : Hasher Regs 64) (data : Bytes) : Hasher Regs 64 :=
  let len := (h.len + data.length) % 2 ^ 64
  if 0 < h.n then
    let want := 64 - h.n
    if few : data.length < want then
      ⟨h.state, len, copyFromSlice h.block h.n data (by omega), h.n + data.length, by omega⟩
    else
      have short := h.short
      let block := copyFromSlice h.block h.n (data.take want) (by rw [List.length_take]; omega)
      direct target (compress target h.state block.val) len block (data.drop want)
  else direct target h.state len h.block data

/-- Zeros up to the length, the length, and the last block. -/
def lastBlock (target : Target) (bitLen : Nat) (state : Regs) (block : ByteArr 64) (n : Nat)
    (room : n ≤ 56) : Regs :=
  let block := copyFromSlice block n (List.replicate (56 - n) 0) (by rw [List.length_replicate]; omega)
  let block := copyFromSlice block 56 (lenBe bitLen) (by simp)
  compress target state block.val

def finalize (target : Target) (h : Hasher Regs 64) : Bytes :=
  let bitLen := h.len * 8 % 2 ^ 64
  let block := copyFromSlice h.block h.n [0x80] h.short
  let n := h.n + 1
  if long : 56 < n then
    have short := h.short
    let block := copyFromSlice block n (List.replicate (64 - n) 0) (by rw [List.length_replicate]; omega)
    (lastBlock target bitLen (compress target h.state block.val) block 0 (by decide)).bytes
  else (lastBlock target bitLen h.state block n (by omega)).bytes

/-- One-shot SHA-1. -/
def digest (target : Target) (data : Bytes) : Bytes := finalize target (update target new data)

/-- One-shot SHA-1 through the portable backend. -/
def digestScalar (data : Bytes) : Bytes :=
  let state := (whole 64 data).foldl sha1Scalar H0
  let rem := rest 64 data
  have short : rem.length < 64 := by
    rw [length_rest]
    exact Nat.mod_lt _ (by decide)
  let bitLen := data.length * 8 % 2 ^ 64
  let block := copyFromSlice (.replicate 64 0) 0 rem (by omega)
  let block := copyFromSlice block rem.length [0x80] short
  let (state, block) := if 56 ≤ rem.length then (sha1Scalar state block.val, .replicate 64 0) else (state, block)
  let block := copyFromSlice block 56 (lenBe bitLen) (by simp)
  (sha1Scalar state block.val).bytes

section hasher
variable (target : Target)

theorem waiting_direct (state : Regs) (len : Nat) (block : ByteArr 64) (data : Bytes) :
    (direct target state len block data).waiting = rest 64 data := by
  have short : (rest 64 data).length < 64 := by
    rw [length_rest]
    exact Nat.mod_lt _ (by decide)
  by_cases none : rest 64 data = []
  · simp [direct, Hasher.waiting, none]
  · rw [direct, if_pos none]
    exact take_copyFromSlice block (by omega) (Nat.zero_add _)

theorem state_direct (state : Regs) (len : Nat) (block : ByteArr 64) (data : Bytes) :
    (direct target state len block data).state = absorb (compress target) 64 state data := by
  unfold direct
  dsimp only
  split_ifs <;> rfl

theorem len_direct (state : Regs) (len : Nat) (block : ByteArr 64) (data : Bytes) :
    (direct target state len block data).len = len := by
  unfold direct
  dsimp only
  split_ifs <;> rfl

/-- `update` takes the data in behind the bytes that wait. -/
theorem update_takes (h : Hasher Regs 64) (data : Bytes) :
    Hasher.Takes (compress target) (2 ^ 64) h data (update target h data) := by
  have short := h.short
  unfold update
  dsimp only
  split_ifs with waits few
  · have below : (h.waiting ++ data).length < 64 := by
      rw [List.length_append, Hasher.length_waiting]
      omega
    constructor
    · exact (absorb_short below).symm
    · rw [rest_short below]
      exact take_copyFromSlice h.block (by omega) rfl
    · rfl
  · have filled : (h.waiting ++ data.take (64 - h.n)).length = 64 := by
      rw [List.length_append, Hasher.length_waiting, List.length_take]
      omega
    have fills : h.n + (data.take (64 - h.n)).length = 64 := by
      rw [List.length_take]
      omega
    have block := copyFromSlice_full h.block fills.le fills
    have split : h.waiting ++ data = h.waiting ++ data.take (64 - h.n) ++ data.drop (64 - h.n) := by
      rw [List.append_assoc, List.take_append_drop]
    constructor
    · rw [state_direct, split, absorb_block (by decide) filled, block]
      rfl
    · rw [waiting_direct, split, rest_block (by decide) filled]
    · rw [len_direct]
  · have none : h.waiting = [] := by
      apply List.eq_nil_of_length_eq_zero
      rw [Hasher.length_waiting]
      omega
    constructor
    · rw [state_direct, none, List.nil_append]
    · rw [waiting_direct, none, List.nil_append]
    · rw [len_direct]

theorem lastBlock_eq (bitLen : Nat) (state : Regs) (block : ByteArr 64) (n : Nat) (room : n ≤ 56) :
    lastBlock target bitLen state block n room =
      compress target state (block.val.take n ++ List.replicate (56 - n) 0 ++ lenBe bitLen) := by
  rw [lastBlock, copyFromSlice_full _ _ (by simp), take_copyFromSlice block _ (by rw [List.length_replicate]; omega)]

/-- The bytes that wait, the marker and zeros, the length: in one block or in two. -/
theorem padded_one {waiting length : Bytes} (eight : length.length = 8) (room : waiting.length + 1 ≤ 56) :
    waiting ++ padding 64 0x80 0 waiting.length length =
      waiting ++ [0x80] ++ List.replicate (56 - (waiting.length + 1)) 0 ++ length := by
  have count := zeros_room 64 8 waiting.length (by omega)
  have zeros : zeros 64 length.length waiting.length = 56 - (waiting.length + 1) := by
    rw [eight]
    omega
  simp [padding, zeros]

theorem padded_two {waiting length : Bytes} (eight : length.length = 8) (short : waiting.length < 64)
    (long : 56 < waiting.length + 1) :
    waiting ++ padding 64 0x80 0 waiting.length length =
      (waiting ++ [0x80] ++ List.replicate (64 - (waiting.length + 1)) 0) ++ (List.replicate 56 0 ++ length) := by
  have count := zeros_overflow 64 8 waiting.length (by decide) (by decide) (by omega)
  have zeros : zeros 64 length.length waiting.length = 64 - (waiting.length + 1) + 56 := by
    rw [eight]
    omega
  simp [padding, zeros, List.replicate_add]

theorem finalize_eq (h : Hasher Regs 64) :
    finalize target h = (absorb (compress target) 64 h.state
      (h.waiting ++ padding 64 0x80 0 h.waiting.length (lenBe (h.len * 8 % 2 ^ 64)))).bytes := by
  have short := h.short
  have marked : (copyFromSlice h.block h.n [0x80] h.short).val.take (h.n + 1) = h.waiting ++ [0x80] :=
    take_copyFromSlice h.block h.short rfl
  have count := h.length_waiting
  unfold finalize
  dsimp only
  split_ifs with long
  · rw [padded_two (length_lenBe _) (by omega) (by omega), absorb_block (by decide) (by simp; omega),
      absorb_one (by decide) (by simp), lastBlock_eq, copyFromSlice_full _ _ (by simp; omega), marked, count]
    rfl
  · rw [padded_one (length_lenBe _) (by omega), absorb_one (by decide) (by simp; omega), lastBlock_eq, marked, count]

/-- The digest of all that a hasher was fed. -/
theorem finalize_holds {iv : Regs} {data : Bytes} {h : Hasher Regs 64}
    (holds : Hasher.Holds (compress target) (2 ^ 64) iv data h) :
    finalize target h =
      (hash (compress target) 64 iv 0x80 0 (fun n => lenBe (n * 8)) data).bytes := by
  have length : lenBe (h.len * 8 % 2 ^ 64) = lenBe (data.length * 8) := by
    rw [holds.len, Nat.mod_mul_mod, lenBe_mod]
  rw [finalize_eq, length]
  exact congrArg Regs.bytes (holds.fed.hash_eq (by decide) 0x80 0 (fun n => lenBe (n * 8)))

theorem compress_eq : compress target = process := by
  funext state block
  unfold compress
  split_ifs
  · exact Shani.sha1Shani_eq state block
  · exact Armv8.sha1Armv8_eq state block
  · exact sha1Scalar_eq state block

theorem new_holds : Hasher.Holds (compress target) (2 ^ 64) H0 [] new := ⟨Fed.fresh (by decide), rfl⟩

/-- A hasher that was fed chunks has the digest of all of them. -/
theorem finalize_foldl (chunks : List Bytes) :
    finalize target (chunks.foldl (update target) new) = Fips180.digest chunks.flatten := by
  have holds := (new_holds target).foldl (update_takes target) chunks
  rw [finalize_holds target holds, compress_eq]
  rfl

theorem digest_eq (data : Bytes) : digest target data = Fips180.digest data := by
  have one := finalize_foldl target [data]
  rwa [List.flatten_singleton] at one

end hasher

/-- A part that is written behind the front of a block with zeros behind it. -/
theorem copyFromSlice_blank {size o k : Nat} {part : Bytes} {block : ByteArr size} (front : Bytes)
    (blank : block.val = front ++ List.replicate k 0) (behind : front.length = o) (fits : o + part.length ≤ size) :
    (copyFromSlice block o part fits).val = front ++ part ++ List.replicate (k - part.length) 0 := by
  subst behind
  change block.val.take front.length ++ part ++ block.val.drop (front.length + part.length) = _
  rw [blank, List.take_left, ← List.drop_drop, List.drop_left, List.drop_replicate]

theorem digestScalar_eq (data : Bytes) : digestScalar data = Fips180.digest data := by
  have short : (rest 64 data).length < 64 := by
    rw [length_rest]
    exact Nat.mod_lt _ (by decide)
  have hashed := (Fed.mk rfl rfl : Fed sha1Scalar 64 H0 data _ _).hash_eq (by decide) 0x80 0 (fun n => lenBe (n * 8))
  have scalar : sha1Scalar = process := by
    funext state block
    exact sha1Scalar_eq state block
  have filled : (copyFromSlice (.replicate 64 0) 0 (rest 64 data) (by omega)).val =
      rest 64 data ++ List.replicate (64 - (rest 64 data).length) 0 :=
    copyFromSlice_blank [] rfl rfl _
  have marked : (copyFromSlice (copyFromSlice (.replicate 64 0) 0 (rest 64 data) (by omega)) (rest 64 data).length [0x80]
      short).val = rest 64 data ++ [0x80] ++ List.replicate (64 - ((rest 64 data).length + 1)) 0 :=
    copyFromSlice_blank _ filled rfl _
  have digested : (hash sha1Scalar 64 H0 0x80 0 (fun n => lenBe (n * 8)) data).bytes = Fips180.digest data := by
    rw [scalar]
    rfl
  rw [← digested, ← hashed]
  unfold digestScalar
  dsimp only
  split_ifs with long
  · rw [padded_two (length_lenBe _) short (by omega), absorb_block (by decide) (by simp; omega),
      absorb_one (by decide) (by simp)]
    dsimp only
    rw [marked, copyFromSlice_full _ _ (by simp), lenBe_mod]
    rfl
  · rw [padded_one (length_lenBe _) (by omega), absorb_one (by decide) (by simp; omega)]
    have top : (rest 64 data ++ [0x80] ++ List.replicate (64 - ((rest 64 data).length + 1)) 0).take 56 =
        rest 64 data ++ [0x80] ++ List.replicate (56 - ((rest 64 data).length + 1)) 0 := by
      rw [List.take_append, List.take_of_length_le (by rw [List.length_append, List.length_singleton]; omega),
        List.take_replicate, List.length_append, List.length_singleton]
      congr 2
      omega
    dsimp only
    rw [copyFromSlice_full _ _ (by simp), marked, top, lenBe_mod]
    rfl

end TypeBit.Crypto.Sha1

namespace TypeBit.Crypto

/-! ### What the digests are -/

/-- The two vector compressions and the portable one take a block into a state in the same way. -/
theorem vector_compressions (state : Regs) (block : Bytes) :
    Shani.sha1Shani state block = Sha1.sha1Scalar state block ∧
      Armv8.sha1Armv8 state block = Sha1.sha1Scalar state block := by
  rw [Sha1.sha1Scalar_eq]
  exact ⟨Shani.sha1Shani_eq state block, Armv8.sha1Armv8_eq state block⟩

/-- However a message is cut, and whatever the processor offers, SHA-1 has the digest of the definition, and so has the
portable one-shot function. -/
theorem sha1_streaming (target : Sha1.Target) (chunks : List Bytes) :
    Sha1.finalize target (chunks.foldl (Sha1.update target) Sha1.new) = Fips180.digest chunks.flatten ∧
      Sha1.digest target chunks.flatten = Fips180.digest chunks.flatten ∧
      Sha1.digestScalar chunks.flatten = Fips180.digest chunks.flatten :=
  ⟨Sha1.finalize_foldl target chunks, Sha1.digest_eq target _, Sha1.digestScalar_eq _⟩

end TypeBit.Crypto
