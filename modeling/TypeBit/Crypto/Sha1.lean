import TypeBit.Crypto.Fips180

/-! The three compressions of `sha1.rs` and their equality with the definition: the portable one, whose window of
sixteen words rolls through the schedule in four loops of twenty rounds, and those of the two instruction sets, which
run four rounds at a time. -/

namespace TypeBit.Crypto.Sha1
open Fips180

abbrev Window := Vector UInt32 16

/-- The index `i & 15` of the window. -/
def slot (i : Nat) : Fin 16 := Fin.ofNat 16 i

def schedule (i : Nat) (w : Window) : UInt32 × Window :=
  let v := rotl (w.get (slot (i - 3)) ^^^ w.get (slot (i - 8)) ^^^ w.get (slot (i - 14)) ^^^ w.get (slot i)) 1
  (v, w.set (slot i) v)

/-- A loop of rounds that schedules its words. -/
def rounds (f : UInt32 → UInt32 → UInt32 → UInt32) (k : UInt32) (is : List Nat) (s : Regs × Window) : Regs × Window :=
  is.foldl (fun s i =>
    let (wi, w) := schedule i s.2
    (round f k wi s.1, w)) s

def sha1Scalar (state : Regs) (block : Bytes) : Regs :=
  let w : Window := Vector.ofFn (fun i => wordBe block i)
  -- Rounds 0-19: f = choose.
  let r := w.toList.foldl (fun r wi => round choose 0x5A827999 wi r) state
  let s := rounds choose 0x5A827999 (List.range' 16 4) (r, w)
  -- Rounds 20-39: f = parity.
  let s := rounds parity 0x6ED9EBA1 (List.range' 20 20) s
  -- Rounds 40-59: f = majority.
  let s := rounds majority 0x8F1BBCDC (List.range' 40 20) s
  -- Rounds 60-79: f = parity.
  let s := rounds parity 0xCA62C1D6 (List.range' 60 20) s
  state.add s.1

section rounds
variable {m : Nat → UInt32} {state : Regs}

/-- Before round `i` the window holds the last sixteen words of the schedule, each in its slot. -/
structure Before (m : Nat → UInt32) (state : Regs) (i : Nat) (s : Regs × Window) : Prop where
  regs : s.1 = regs m state i
  window : ∀ t < i, i ≤ t + 16 → s.2.get (slot t) = W m t

theorem slot_add_sixteen (t : Nat) : slot (t + 16) = slot t := by
  apply Fin.ext
  simp [slot]

theorem slot_ne {t i : Nat} (later : t < i) (near : i < t + 16) : (slot i : Nat) ≠ slot t := by
  simp only [slot, Fin.val_ofNat]
  omega

theorem schedule_word {w : Window} {t : Nat} (window : ∀ u < t + 16, t + 16 ≤ u + 16 → w.get (slot u) = W m u) :
    (schedule (t + 16) w).1 = W m (t + 16) := by
  have three := window (t + 13) (by omega) (by omega)
  have eight := window (t + 8) (by omega) (by omega)
  have fourteen := window (t + 2) (by omega) (by omega)
  have sixteen := window t (by omega) (by omega)
  rw [← slot_add_sixteen t] at sixteen
  rw [W_scheduled, ← three, ← eight, ← fourteen, ← sixteen]
  rfl

theorem Before.round {i : Nat} {s : Regs × Window} (before : Before m state i s) (past : 16 ≤ i) :
    Before m state (i + 1) (round (f i) (K i) (schedule i s.2).1 s.1, (schedule i s.2).2) := by
  obtain ⟨t, rfl⟩ := Nat.exists_eq_add_of_le' past
  have word := schedule_word before.window
  constructor
  · rw [word, before.regs]
    rfl
  · intro u below near
    have written : (schedule (t + 16) s.2).2 = s.2.set (slot (t + 16)) (schedule (t + 16) s.2).1 := rfl
    rw [written, word]
    by_cases last : u = t + 16
    · rw [last]
      exact Vector.getElem_set_self _
    · have apart : (s.2.set (slot (t + 16)) (W m (t + 16))).get (slot u) = s.2.get (slot u) :=
        Vector.getElem_set_ne _ _ (slot_ne (by omega) (by omega))
      rw [apart]
      exact before.window u (by omega) (by omega)

/-- A loop whose rounds all have one function and one constant. -/
theorem Before.rounds {g : UInt32 → UInt32 → UInt32 → UInt32} {k : UInt32} {i n : Nat} {s : Regs × Window}
    (before : Before m state i s) (past : 16 ≤ i) (same : ∀ t, i ≤ t → t < i + n → f t = g ∧ K t = k) :
    Before m state (i + n) (rounds g k (List.range' i n) s) := by
  induction n generalizing i s with
  | zero => exact before
  | succ n ih =>
    obtain ⟨rfl, rfl⟩ := same i (le_refl i) (by omega)
    have next := ih (before.round past) (by omega) (fun t low high => same t (by omega) (by omega))
    rw [Nat.add_right_comm, Nat.add_assoc] at next
    exact next

/-- The first loop reads its words from the block. -/
theorem foldl_words (m : Nat → UInt32) (state : Regs) (ws : List UInt32) (i : Nat) (inside : i + ws.length ≤ 16)
    (words : ∀ j < ws.length, ws[j]? = some (m (i + j))) :
    ws.foldl (fun r wi => Fips180.round choose 0x5A827999 wi r) (regs m state i) = regs m state (i + ws.length) := by
  induction ws generalizing i with
  | nil => rfl
  | cons w ws ih =>
    rw [List.length_cons] at inside words
    have head := words 0 (by omega)
    have first : m i = w := (Option.some.inj head).symm
    have step : Fips180.round choose 0x5A827999 w (regs m state i) = regs m state (i + 1) := by
      rw [regs, W_block (by omega), first, f, K, if_pos (by omega), if_pos (by omega)]
    have tail := ih (i + 1) (by omega) (fun j below => by
      have next := words (j + 1) (by omega)
      rwa [List.getElem?_cons_succ, ← Nat.add_assoc, Nat.add_right_comm] at next)
    rw [List.foldl_cons, step, tail, List.length_cons, Nat.add_assoc, Nat.add_comm 1]

/-- Before the first scheduled word the window holds the words of the block. -/
theorem before_start (m : Nat → UInt32) (state : Regs) :
    Before m state 16
      ((Vector.ofFn (fun i : Fin 16 => m i)).toList.foldl (fun r wi => round choose 0x5A827999 wi r) state,
        Vector.ofFn (fun i : Fin 16 => m i)) := by
  have words : ∀ j < (Vector.ofFn (fun i : Fin 16 => m i)).toList.length,
      (Vector.ofFn (fun i : Fin 16 => m i)).toList[j]? = some (m (0 + j)) := by
    intro j below
    rw [Vector.length_toList] at below
    rw [Nat.zero_add]
    simp [below]
  constructor
  · have first := foldl_words m state _ 0 (by simp) words
    rw [Vector.length_toList, Nat.zero_add, regs_zero] at first
    dsimp only
    exact first
  · intro t below _
    have low : (slot t : Nat) = t := Nat.mod_eq_of_lt below
    rw [W_block below]
    exact (Vector.getElem_ofFn (slot t).isLt).trans (congrArg m low)

end rounds

/-- The rolling window computes the schedule of eighty words. -/
theorem sha1Scalar_eq (state : Regs) (block : Bytes) : sha1Scalar state block = process state block := by
  have start := before_start (wordBe block) state
  have chosen := start.rounds (g := choose) (k := 0x5A827999) (n := 4) (le_refl 16) (fun t low high => by
    simp [f, K, show t < 20 by omega])
  have second := chosen.rounds (g := parity) (k := 0x6ED9EBA1) (n := 20) (by decide) (fun t low high => by
    simp [f, K, show ¬t < 20 by omega, show t < 40 by omega])
  have third := second.rounds (g := majority) (k := 0x8F1BBCDC) (n := 20) (by decide) (fun t low high => by
    simp [f, K, show ¬t < 20 by omega, show ¬t < 40 by omega, show t < 60 by omega])
  have last := third.rounds (g := parity) (k := 0xCA62C1D6) (n := 20) (by decide) (fun t low high => by
    simp [f, K, show ¬t < 20 by omega, show ¬t < 40 by omega, show ¬t < 60 by omega])
  exact congrArg state.add last.regs

end TypeBit.Crypto.Sha1

/-! ### The SHA extensions of x86-64

The schedule is made four words at a time, a few groups ahead of the rounds. -/

namespace TypeBit.Crypto.Shani
open Fips180

/-- A vector register as its four dwords, the lowest first. -/
structure M128 where
  x0 : UInt32
  x1 : UInt32
  x2 : UInt32
  x3 : UInt32
  deriving DecidableEq, Repr

namespace M128

def dword (v : M128) (i : Nat) : UInt32 := if i = 0 then v.x0 else if i = 1 then v.x1 else if i = 2 then v.x2 else v.x3

def bytes (v : M128) : Bytes := toLe v.x0 ++ toLe v.x1 ++ toLe v.x2 ++ toLe v.x3

end M128

/-! ### The instructions -/

/-- `_mm_loadu_si128` of sixteen bytes. -/
def loaduSi128 (block : Bytes) (offset : Nat) : M128 :=
  let word := fun i => fromLe [block.getD (offset + 4 * i) 0, block.getD (offset + 4 * i + 1) 0,
    block.getD (offset + 4 * i + 2) 0, block.getD (offset + 4 * i + 3) 0]
  ⟨word 0, word 1, word 2, word 3⟩

def setEpi64x (e1 e0 : UInt64) : M128 := ⟨e0.toUInt32, (e0 >>> 32).toUInt32, e1.toUInt32, (e1 >>> 32).toUInt32⟩

def setEpi32 (e3 e2 e1 e0 : UInt32) : M128 := ⟨e0, e1, e2, e3⟩

def addEpi32 (v w : M128) : M128 := ⟨v.x0 + w.x0, v.x1 + w.x1, v.x2 + w.x2, v.x3 + w.x3⟩

def xorSi128 (v w : M128) : M128 := ⟨v.x0 ^^^ w.x0, v.x1 ^^^ w.x1, v.x2 ^^^ w.x2, v.x3 ^^^ w.x3⟩

/-- Two bits of `imm` select each dword. -/
def shuffleEpi32 (v : M128) (imm : Nat) : M128 :=
  ⟨v.dword (imm % 4), v.dword (imm / 4 % 4), v.dword (imm / 16 % 4), v.dword (imm / 64 % 4)⟩

/-- Each byte of `mask` selects a byte, or zero when its high bit is set. -/
def shuffleEpi8 (v mask : M128) : M128 :=
  loaduSi128 (mask.bytes.map (fun c => if c.toNat < 128 then v.bytes.getD (c.toNat % 16) 0 else 0)) 0

/-- The function and the constant that the immediate of `sha1rnds4` selects. -/
def func (imm : Nat) (b c d : UInt32) : UInt32 :=
  if imm = 0 then (b &&& c) ^^^ (~~~b &&& d)
  else if imm = 2 then (b &&& c) ^^^ (b &&& d) ^^^ (c &&& d)
  else b ^^^ c ^^^ d

def const (imm : Nat) : UInt32 :=
  if imm = 0 then 0x5A827999 else if imm = 1 then 0x6ED9EBA1 else if imm = 2 then 0x8F1BBCDC else 0xCA62C1D6

/-- Four rounds; the first word comes with `E` added. -/
def sha1rnds4 (v w : M128) (imm : Nat) : M128 :=
  let a1 := func imm v.x2 v.x1 v.x0 + rotl v.x3 5 + w.x3 + const imm
  let (b1, c1, d1, e1) := (v.x3, rotl v.x2 30, v.x1, v.x0)
  let a2 := func imm b1 c1 d1 + rotl a1 5 + w.x2 + e1 + const imm
  let (b2, c2, d2, e2) := (a1, rotl b1 30, c1, d1)
  let a3 := func imm b2 c2 d2 + rotl a2 5 + w.x1 + e2 + const imm
  let (b3, c3, d3, e3) := (a2, rotl b2 30, c2, d2)
  let a4 := func imm b3 c3 d3 + rotl a3 5 + w.x0 + e3 + const imm
  ⟨c3, rotl b3 30, a3, a4⟩

def sha1nexte (v w : M128) : M128 := ⟨w.x0, w.x1, w.x2, w.x3 + rotl v.x3 30⟩

def sha1msg1 (v w : M128) : M128 := ⟨w.x2 ^^^ v.x0, w.x3 ^^^ v.x1, v.x0 ^^^ v.x2, v.x1 ^^^ v.x3⟩

def sha1msg2 (v w : M128) : M128 :=
  let w16 := rotl (v.x3 ^^^ w.x2) 1
  let w17 := rotl (v.x2 ^^^ w.x1) 1
  let w18 := rotl (v.x1 ^^^ w.x0) 1
  ⟨rotl (v.x0 ^^^ w16) 1, w18, w17, w16⟩

/-! ### The compression -/

/-- What a group of four rounds assigns: the `E` slot it used, the state saved for the next group, the state, and the
three message registers it advanced. -/
structure Group where
  eCur : M128
  eSave : M128
  abcd : M128
  msg2 : M128
  msg1 : M128
  xor : M128

def group (abcd : M128) (rc : Nat) (eCur mCur mMsg2 mMsg1 mXor : M128) : Group :=
  let eCur := sha1nexte eCur mCur
  ⟨eCur, abcd, sha1rnds4 abcd eCur rc, sha1msg2 mMsg2 mCur, sha1msg1 mMsg1 mCur, xorSi128 mXor mCur⟩

/-- A group without the `msg1` step. -/
def groupNoMsg1 (abcd : M128) (rc : Nat) (eCur mCur mMsg2 mXor : M128) : M128 × M128 × M128 × M128 × M128 :=
  let eCur := sha1nexte eCur mCur
  (eCur, abcd, sha1rnds4 abcd eCur rc, sha1msg2 mMsg2 mCur, xorSi128 mXor mCur)

/-- The last but one group. -/
def groupTail (abcd : M128) (rc : Nat) (eCur mCur mMsg2 : M128) : M128 × M128 × M128 × M128 :=
  let eCur := sha1nexte eCur mCur
  (eCur, abcd, sha1rnds4 abcd eCur rc, sha1msg2 mMsg2 mCur)

def groupFinal (abcd : M128) (rc : Nat) (eCur mCur : M128) : M128 × M128 × M128 :=
  let eCur := sha1nexte eCur mCur
  (eCur, abcd, sha1rnds4 abcd eCur rc)

def sha1Shani (state : Regs) (block : Bytes) : Regs :=
  let mask := setEpi64x 0x0001020304050607 0x08090a0b0c0d0e0f
  let abcd := shuffleEpi32 ⟨state.a, state.b, state.c, state.d⟩ 0x1B
  let abcdSave := abcd
  let e0 := setEpi32 state.e 0 0 0
  let e0Save := e0
  let m0 := shuffleEpi8 (loaduSi128 block 0) mask
  let m1 := shuffleEpi8 (loaduSi128 block 16) mask
  let m2 := shuffleEpi8 (loaduSi128 block 32) mask
  let m3 := shuffleEpi8 (loaduSi128 block 48) mask
  -- Rounds 0-3.
  let e0 := addEpi32 e0 m0
  let e1 := abcd
  let abcd := sha1rnds4 abcd e0 0
  -- Rounds 4-7.
  let e1 := sha1nexte e1 m1
  let e0 := abcd
  let abcd := sha1rnds4 abcd e1 0
  let m0 := sha1msg1 m0 m1
  -- Rounds 8-11.
  let e0 := sha1nexte e0 m2
  let e1 := abcd
  let abcd := sha1rnds4 abcd e0 0
  let m1 := sha1msg1 m1 m2
  let m0 := xorSi128 m0 m2
  -- Rounds 12-15.
  let e1 := sha1nexte e1 m3
  let e0 := abcd
  let m0 := sha1msg2 m0 m3
  let abcd := sha1rnds4 abcd e1 0
  let m2 := sha1msg1 m2 m3
  let m1 := xorSi128 m1 m3
  -- Rounds 16-19.
  let ⟨_, e1, abcd, m1, m3, m2⟩ := group abcd 0 e0 m0 m1 m3 m2
  -- Rounds 20-39.
  let ⟨_, e0, abcd, m2, m0, m3⟩ := group abcd 1 e1 m1 m2 m0 m3
  let ⟨_, e1, abcd, m3, m1, m0⟩ := group abcd 1 e0 m2 m3 m1 m0
  let ⟨_, e0, abcd, m0, m2, m1⟩ := group abcd 1 e1 m3 m0 m2 m1
  let ⟨_, e1, abcd, m1, m3, m2⟩ := group abcd 1 e0 m0 m1 m3 m2
  let ⟨_, e0, abcd, m2, m0, m3⟩ := group abcd 1 e1 m1 m2 m0 m3
  -- Rounds 40-59.
  let ⟨_, e1, abcd, m3, m1, m0⟩ := group abcd 2 e0 m2 m3 m1 m0
  let ⟨_, e0, abcd, m0, m2, m1⟩ := group abcd 2 e1 m3 m0 m2 m1
  let ⟨_, e1, abcd, m1, m3, m2⟩ := group abcd 2 e0 m0 m1 m3 m2
  let ⟨_, e0, abcd, m2, m0, m3⟩ := group abcd 2 e1 m1 m2 m0 m3
  let ⟨_, e1, abcd, m3, m1, m0⟩ := group abcd 2 e0 m2 m3 m1 m0
  -- Rounds 60-67.
  let ⟨_, e0, abcd, m0, m2, m1⟩ := group abcd 3 e1 m3 m0 m2 m1
  let ⟨_, e1, abcd, m1, m3, m2⟩ := group abcd 3 e0 m0 m1 m3 m2
  -- Rounds 68-75.
  let (_, e0, abcd, m2, m3) := groupNoMsg1 abcd 3 e1 m1 m2 m3
  let (_, e1, abcd, m3) := groupTail abcd 3 e0 m2 m3
  -- Rounds 76-79.
  let (_, e0, abcd) := groupFinal abcd 3 e1 m3
  let abcd := addEpi32 abcd abcdSave
  let e0 := sha1nexte e0 e0Save
  let abcd := shuffleEpi32 abcd 0x1B
  ⟨abcd.x0, abcd.x1, abcd.x2, abcd.x3, e0.x3⟩

/-! ### The registers of a group -/

theorem bytes_load (block : Bytes) (o : Nat) :
    (loaduSi128 block o).bytes = (List.range 16).map (fun j => block.getD (o + j) 0) := by
  simp only [loaduSi128, M128.bytes]
  rw [toLe_fromLe rfl, toLe_fromLe rfl, toLe_fromLe rfl, toLe_fromLe rfl]
  rfl

theorem choose_eq (b c d : UInt32) : (b &&& c) ^^^ (~~~b &&& d) = choose b c d := by
  apply UInt32.toBitVec_inj.mp
  apply BitVec.eq_of_getLsbD_eq
  intro i inside
  simp only [choose, UInt32.toBitVec_xor, UInt32.toBitVec_and, UInt32.toBitVec_or, UInt32.toBitVec_not,
    BitVec.getLsbD_xor, BitVec.getLsbD_and, BitVec.getLsbD_or, BitVec.getLsbD_not]
  cases b.toBitVec.getLsbD i <;> simp

theorem majority_eq (b c d : UInt32) : (b &&& c) ^^^ (b &&& d) ^^^ (c &&& d) = majority b c d := by
  apply UInt32.toBitVec_inj.mp
  apply BitVec.eq_of_getLsbD_eq
  intro i inside
  simp only [majority, UInt32.toBitVec_xor, UInt32.toBitVec_and, UInt32.toBitVec_or, BitVec.getLsbD_xor,
    BitVec.getLsbD_and, BitVec.getLsbD_or]
  cases b.toBitVec.getLsbD i <;> cases c.toBitVec.getLsbD i <;> simp

theorem func_eq {t : Nat} (inside : t < 80) : func (t / 20) = f t := by
  funext b c d
  have phases : t / 20 = 0 ∨ t / 20 = 1 ∨ t / 20 = 2 ∨ t / 20 = 3 := by omega
  rcases phases with phase | phase | phase | phase
  · rw [phase, f, if_pos (by omega)]
    exact choose_eq b c d
  · rw [phase, f, if_neg (by omega), if_pos (by omega)]
    rfl
  · rw [phase, f, if_neg (by omega), if_neg (by omega), if_pos (by omega)]
    exact majority_eq b c d
  · rw [phase, f, if_neg (by omega), if_neg (by omega), if_neg (by omega)]
    rfl

theorem const_eq {t : Nat} (inside : t < 80) : const (t / 20) = K t := by
  have phases : t / 20 = 0 ∨ t / 20 = 1 ∨ t / 20 = 2 ∨ t / 20 = 3 := by omega
  rcases phases with phase | phase | phase | phase
  · rw [phase, K, if_pos (by omega)]
    rfl
  · rw [phase, K, if_neg (by omega), if_pos (by omega)]
    rfl
  · rw [phase, K, if_neg (by omega), if_neg (by omega), if_pos (by omega)]
    rfl
  · rw [phase, K, if_neg (by omega), if_neg (by omega), if_neg (by omega)]
    rfl

/-- The state as the instructions hold it, `A` in the highest dword. -/
def abcdOf (r : Regs) : M128 := ⟨r.d, r.c, r.b, r.a⟩

theorem round_a (g : UInt32 → UInt32 → UInt32 → UInt32) (k wi : UInt32) (r : Regs) :
    g r.b r.c r.d + rotl r.a 5 + wi + r.e + k = (round g k wi r).a := by
  simp only [Fips180.round]
  ac_rfl

/-- The instruction runs four rounds with the function and the constant of its immediate. -/
theorem sha1rnds4_round (r : Regs) (w0 w1 w2 w3 : UInt32) (imm : Nat) :
    sha1rnds4 (abcdOf r) ⟨w3, w2, w1, w0 + r.e⟩ imm =
      abcdOf (round (func imm) (const imm) w3 (round (func imm) (const imm) w2
        (round (func imm) (const imm) w1 (round (func imm) (const imm) w0 r)))) := by
  have first : func imm r.b r.c r.d + rotl r.a 5 + (w0 + r.e) + const imm =
      (round (func imm) (const imm) w0 r).a := by
    rw [← round_a]
    ac_rfl
  have second := round_a (func imm) (const imm) w1 (round (func imm) (const imm) w0 r)
  have third := round_a (func imm) (const imm) w2
    (round (func imm) (const imm) w1 (round (func imm) (const imm) w0 r))
  have fourth := round_a (func imm) (const imm) w3
    (round (func imm) (const imm) w2 (round (func imm) (const imm) w1 (round (func imm) (const imm) w0 r)))
  simp only [Fips180.round] at first second third fourth
  simp only [sha1rnds4, abcdOf, first, second, third, fourth, Fips180.round]

section group
variable (m : Nat → UInt32) (state : Regs)

/-- The state before round `t`. -/
def S (t : Nat) : M128 := abcdOf (regs m state t)

/-- The words of four rounds, the first in the highest dword. -/
def Q (t : Nat) : M128 := ⟨W m (t + 3), W m (t + 2), W m (t + 1), W m t⟩

/-- The words of four rounds, `E` added to the first. -/
def E (t : Nat) : M128 := ⟨W m (t + 3), W m (t + 2), W m (t + 1), W m t + (regs m state t).e⟩

/-- The words of four rounds after the first step of the schedule. -/
def P1 (t : Nat) : M128 := sha1msg1 (Q m t) (Q m (t + 4))

def P2 (t : Nat) : M128 := xorSi128 (P1 m t) (Q m (t + 8))

theorem sha1nexte_eq (t : Nat) : sha1nexte (S m state t) (Q m (t + 4)) = E m state (t + 4) := by
  rw [E, regs_e]
  rfl

theorem sha1rnds4_eq {t imm : Nat} (aligned : t % 4 = 0) (inside : t < 80) (phase : imm = t / 20) :
    sha1rnds4 (S m state t) (E m state t) imm = S m state (t + 4) := by
  subst phase
  have same : ∀ j < 4, func (t / 20) = f (t + j) ∧ const (t / 20) = K (t + j) := by
    intro j below
    have phase : t / 20 = (t + j) / 20 := by omega
    rw [phase]
    exact ⟨func_eq (by omega), const_eq (by omega)⟩
  obtain ⟨f0, k0⟩ := same 0 (by decide)
  obtain ⟨f1, k1⟩ := same 1 (by decide)
  obtain ⟨f2, k2⟩ := same 2 (by decide)
  obtain ⟨f3, k3⟩ := same 3 (by decide)
  have last : S m state (t + 4) = abcdOf (round (f (t + 3)) (K (t + 3)) (W m (t + 3)) (round (f (t + 2)) (K (t + 2))
      (W m (t + 2)) (round (f (t + 1)) (K (t + 1)) (W m (t + 1)) (round (f t) (K t) (W m t) (regs m state t))))) := rfl
  rw [S, E, sha1rnds4_round, last, ← f1, ← f2, ← f3, ← k1, ← k2, ← k3, f0, k0]
  rfl

theorem sha1msg2_eq (t : Nat) : sha1msg2 (P2 m t) (Q m (t + 12)) = Q m (t + 16) := by
  have w16 := W_vector m t
  have w17 := W_vector m (t + 1)
  have w18 := W_vector m (t + 2)
  have w19 := W_vector m (t + 3)
  simp only [Nat.add_assoc, Nat.reduceAdd] at w17 w18 w19
  simp only [sha1msg2, P2, P1, xorSi128, sha1msg1, Q, w16, w17, w18, w19]

theorem sha1msg1_eq (t : Nat) : sha1msg1 (Q m t) (Q m (t + 4)) = P1 m t := rfl

theorem xorSi128_eq (t : Nat) : xorSi128 (P1 m t) (Q m (t + 8)) = P2 m t := rfl

end group

/-- The sixteen bytes in the opposite order: the first word in the highest dword. -/
theorem words_eq (block : Bytes) (i : Nat) (first : i < 4) :
    shuffleEpi8 (loaduSi128 block (4 * i * 4)) (setEpi64x 0x0001020304050607 0x08090a0b0c0d0e0f) =
      Q (wordBe block) (4 * i) := by
  have mask : (setEpi64x 0x0001020304050607 0x08090a0b0c0d0e0f).bytes =
      [15, 14, 13, 12, 11, 10, 9, 8, 7, 6, 5, 4, 3, 2, 1, 0] := by decide
  have at1 : (4 * i + 1) * 4 = 4 * i * 4 + 4 := by omega
  have at2 : (4 * i + 2) * 4 = 4 * i * 4 + 8 := by omega
  have at3 : (4 * i + 3) * 4 = 4 * i * 4 + 12 := by omega
  rw [shuffleEpi8, mask, bytes_load, Q, W_block (by omega), W_block (by omega), W_block (by omega), W_block (by omega)]
  simp only [wordBe, at1, at2, at3]
  rfl

theorem sha1Shani_eq (state : Regs) (block : Bytes) : sha1Shani state block = process state block := by
  let m := wordBe block
  have q0 : shuffleEpi8 (loaduSi128 block 0) (setEpi64x 0x0001020304050607 0x08090a0b0c0d0e0f) = Q m 0 :=
    words_eq block 0 (by decide)
  have q4 : shuffleEpi8 (loaduSi128 block 16) (setEpi64x 0x0001020304050607 0x08090a0b0c0d0e0f) = Q m 4 :=
    words_eq block 1 (by decide)
  have q8 : shuffleEpi8 (loaduSi128 block 32) (setEpi64x 0x0001020304050607 0x08090a0b0c0d0e0f) = Q m 8 :=
    words_eq block 2 (by decide)
  have q12 : shuffleEpi8 (loaduSi128 block 48) (setEpi64x 0x0001020304050607 0x08090a0b0c0d0e0f) = Q m 12 :=
    words_eq block 3 (by decide)
  have start : shuffleEpi32 ⟨state.a, state.b, state.c, state.d⟩ 0x1B = S m state 0 := rfl
  have e0 : addEpi32 (setEpi32 state.e 0 0 0) (Q m 0) = E m state 0 := by
    simp only [addEpi32, setEpi32, Q, E, UInt32.zero_add, UInt32.add_comm state.e, regs_zero]
  simp (disch := decide) only [sha1Shani, group, groupNoMsg1, groupTail, groupFinal, q0, q4, q8, q12, start, e0,
    sha1rnds4_eq, sha1nexte_eq, sha1msg1_eq, xorSi128_eq, sha1msg2_eq, Nat.reduceAdd]
  have sum : addEpi32 (S m state 80) (S m state 0) = abcdOf (state.add (regs m state 80)) := by
    simp only [addEpi32, S, abcdOf, Regs.add, regs_zero, UInt32.add_comm]
  rw [sum]
  rfl

end TypeBit.Crypto.Shani

/-! ### The ARMv8 crypto extension -/

namespace TypeBit.Crypto.Armv8
open Fips180

/-- A vector register as its four lanes. -/
structure U32x4 where
  l0 : UInt32
  l1 : UInt32
  l2 : UInt32
  l3 : UInt32
  deriving DecidableEq, Repr

/-! ### The instructions -/

/-- `vld1q_u8` of sixteen bytes. -/
def vld1q (block : Bytes) (offset : Nat) : Bytes := (List.range 16).map (fun j => block.getD (offset + j) 0)

/-- The bytes of each word in the opposite order. -/
def vrev32q (b : Bytes) : Bytes :=
  (b.take 4).reverse ++ ((b.drop 4).take 4).reverse ++ ((b.drop 8).take 4).reverse ++ ((b.drop 12).take 4).reverse

def vreinterpretq (b : Bytes) : U32x4 :=
  ⟨fromLe (b.take 4), fromLe ((b.drop 4).take 4), fromLe ((b.drop 8).take 4), fromLe ((b.drop 12).take 4)⟩

def vaddq (v w : U32x4) : U32x4 := ⟨v.l0 + w.l0, v.l1 + w.l1, v.l2 + w.l2, v.l3 + w.l3⟩

def vdupq (k : UInt32) : U32x4 := ⟨k, k, k, k⟩

def vsha1h (x : UInt32) : UInt32 := rotl x 30

/-- One round of a hash update: the four registers of `x` and the fifth in `y`, rotated by a word. -/
def hashRound (g : UInt32 → UInt32 → UInt32 → UInt32) (s : U32x4 × UInt32) (wi : UInt32) : U32x4 × UInt32 :=
  let (x, y) := s
  let y := y + rotl x.l0 5 + g x.l1 x.l2 x.l3 + wi
  (⟨y, x.l0, rotl x.l1 30, x.l2⟩, x.l3)

def hashUpdate (g : UInt32 → UInt32 → UInt32 → UInt32) (abcd : U32x4) (e : UInt32) (wk : U32x4) : U32x4 :=
  ([wk.l0, wk.l1, wk.l2, wk.l3].foldl (hashRound g) (abcd, e)).1

def vsha1cq : U32x4 → UInt32 → U32x4 → U32x4 := hashUpdate (fun x y z => ((y ^^^ z) &&& x) ^^^ z)

def vsha1pq : U32x4 → UInt32 → U32x4 → U32x4 := hashUpdate (fun x y z => x ^^^ y ^^^ z)

def vsha1mq : U32x4 → UInt32 → U32x4 → U32x4 := hashUpdate (fun x y z => (x &&& y) ||| ((x ||| y) &&& z))

def vsha1su0q (w0 w1 w2 : U32x4) : U32x4 :=
  ⟨w0.l2 ^^^ w0.l0 ^^^ w2.l0, w0.l3 ^^^ w0.l1 ^^^ w2.l1, w1.l0 ^^^ w0.l2 ^^^ w2.l2, w1.l1 ^^^ w0.l3 ^^^ w2.l3⟩

def vsha1su1q (tw w3 : U32x4) : U32x4 :=
  let t0 := tw.l0 ^^^ w3.l1
  let t1 := tw.l1 ^^^ w3.l2
  let t2 := tw.l2 ^^^ w3.l3
  let t3 := tw.l3
  ⟨rotl t0 1, rotl t1 1, rotl t2 1, rotl t3 1 ^^^ rotl t0 2⟩

/-! ### The compression -/

/-- Big-endian words with the first word in lane 0. -/
def words (block : Bytes) (offset : Nat) : U32x4 := vreinterpretq (vrev32q (vld1q block offset))

/-- The next four schedule words. -/
def sched (a b c d : U32x4) : U32x4 := vsha1su1q (vsha1su0q a b c) d

/-- One group of four rounds. -/
def rounds (k : UInt32) (msg : U32x4) (instr : U32x4 → UInt32 → U32x4 → U32x4) (s : U32x4 × UInt32) :
    U32x4 × UInt32 :=
  let (abcd, e) := s
  let wk := vaddq msg (vdupq k)
  let nextE := vsha1h abcd.l0
  (instr abcd e wk, nextE)

def K0 : UInt32 := 0x5A827999

def K1 : UInt32 := 0x6ED9EBA1

def K2 : UInt32 := 0x8F1BBCDC

def K3 : UInt32 := 0xCA62C1D6

def sha1Armv8 (state : Regs) (block : Bytes) : Regs :=
  let abcdSave : U32x4 := ⟨state.a, state.b, state.c, state.d⟩
  let s := (abcdSave, state.e)
  let v0 := words block 0
  let v1 := words block 16
  let v2 := words block 32
  let v3 := words block 48
  let s := rounds K0 v0 vsha1cq s
  let s := rounds K0 v1 vsha1cq s
  let s := rounds K0 v2 vsha1cq s
  let s := rounds K0 v3 vsha1cq s
  let v4 := sched v0 v1 v2 v3
  let s := rounds K0 v4 vsha1cq s
  let v5 := sched v1 v2 v3 v4
  let s := rounds K1 v5 vsha1pq s
  let v6 := sched v2 v3 v4 v5
  let s := rounds K1 v6 vsha1pq s
  let v7 := sched v3 v4 v5 v6
  let s := rounds K1 v7 vsha1pq s
  let v8 := sched v4 v5 v6 v7
  let s := rounds K1 v8 vsha1pq s
  let v9 := sched v5 v6 v7 v8
  let s := rounds K1 v9 vsha1pq s
  let v10 := sched v6 v7 v8 v9
  let s := rounds K2 v10 vsha1mq s
  let v11 := sched v7 v8 v9 v10
  let s := rounds K2 v11 vsha1mq s
  let v12 := sched v8 v9 v10 v11
  let s := rounds K2 v12 vsha1mq s
  let v13 := sched v9 v10 v11 v12
  let s := rounds K2 v13 vsha1mq s
  let v14 := sched v10 v11 v12 v13
  let s := rounds K2 v14 vsha1mq s
  let v15 := sched v11 v12 v13 v14
  let s := rounds K3 v15 vsha1pq s
  let v16 := sched v12 v13 v14 v15
  let s := rounds K3 v16 vsha1pq s
  let v17 := sched v13 v14 v15 v16
  let s := rounds K3 v17 vsha1pq s
  let v18 := sched v14 v15 v16 v17
  let s := rounds K3 v18 vsha1pq s
  let v19 := sched v15 v16 v17 v18
  let s := rounds K3 v19 vsha1pq s
  let abcd := vaddq s.1 abcdSave
  ⟨abcd.l0, abcd.l1, abcd.l2, abcd.l3, state.e + s.2⟩

/-! ### The registers of a group -/

theorem choose_eq : (fun x y z : UInt32 => ((y ^^^ z) &&& x) ^^^ z) = choose := by
  funext x y z
  apply UInt32.toBitVec_inj.mp
  apply BitVec.eq_of_getLsbD_eq
  intro i inside
  simp only [choose, UInt32.toBitVec_xor, UInt32.toBitVec_and, UInt32.toBitVec_or, UInt32.toBitVec_not,
    BitVec.getLsbD_xor, BitVec.getLsbD_and, BitVec.getLsbD_or, BitVec.getLsbD_not]
  cases x.toBitVec.getLsbD i <;> cases z.toBitVec.getLsbD i <;> simp [inside]

theorem majority_eq : (fun x y z : UInt32 => (x &&& y) ||| ((x ||| y) &&& z)) = majority := by
  funext x y z
  apply UInt32.toBitVec_inj.mp
  apply BitVec.eq_of_getLsbD_eq
  intro i inside
  simp only [majority, UInt32.toBitVec_and, UInt32.toBitVec_or, BitVec.getLsbD_and, BitVec.getLsbD_or]
  cases x.toBitVec.getLsbD i <;> cases y.toBitVec.getLsbD i <;> simp

/-- The state as the instructions hold it, `E` in a register of its own. -/
def lanes (r : Regs) : U32x4 × UInt32 := (⟨r.a, r.b, r.c, r.d⟩, r.e)

theorem hashRound_eq (g : UInt32 → UInt32 → UInt32 → UInt32) (k wi : UInt32) (r : Regs) :
    hashRound g (lanes r) (wi + k) = lanes (round g k wi r) := by
  have sum : r.e + rotl r.a 5 + g r.b r.c r.d + (wi + k) = rotl r.a 5 + g r.b r.c r.d + r.e + k + wi := by
    ac_rfl
  simp only [hashRound, lanes, Fips180.round, sum]

section group
variable (m : Nat → UInt32) (state : Regs)

/-- The state before round `t`. -/
def R (t : Nat) : U32x4 × UInt32 := lanes (regs m state t)

/-- The words of four rounds. -/
def V (t : Nat) : U32x4 := ⟨W m t, W m (t + 1), W m (t + 2), W m (t + 3)⟩

theorem words_eq (block : Bytes) (i : Nat) (first : i < 4) : words block (4 * i * 4) = V (wordBe block) (4 * i) := by
  have at1 : (4 * i + 1) * 4 = 4 * i * 4 + 4 := by omega
  have at2 : (4 * i + 2) * 4 = 4 * i * 4 + 8 := by omega
  have at3 : (4 * i + 3) * 4 = 4 * i * 4 + 12 := by omega
  rw [V, W_block (by omega), W_block (by omega), W_block (by omega), W_block (by omega)]
  simp only [wordBe, at1, at2, at3]
  rfl

theorem sched_eq (t : Nat) : sched (V m t) (V m (t + 4)) (V m (t + 8)) (V m (t + 12)) = V m (t + 16) := by
  have w16 := W_vector m t
  have w17 := W_vector m (t + 1)
  have w18 := W_vector m (t + 2)
  have w19 : rotl (W m (t + 5) ^^^ W m (t + 3) ^^^ W m (t + 11)) 1 ^^^ rotl (W m (t + 16)) 1 = W m (t + 19) :=
    (rotl_xor _ _ (by decide)).symm.trans (W_vector m (t + 3))
  simp only [Nat.add_assoc, Nat.reduceAdd] at w17 w18
  simp only [sched, vsha1su1q, vsha1su0q, V, ← rotl_rotl_one, w16, w17, w18, w19]

theorem rounds_eq {g : UInt32 → UInt32 → UInt32 → UInt32} {k : UInt32} {t : Nat}
    (same : ∀ u, t ≤ u → u < t + 4 → f u = g ∧ K u = k) :
    rounds k (V m t) (hashUpdate g) (R m state t) = R m state (t + 4) := by
  obtain ⟨f0, k0⟩ := same t (by omega) (by omega)
  obtain ⟨f1, k1⟩ := same (t + 1) (by omega) (by omega)
  obtain ⟨f2, k2⟩ := same (t + 2) (by omega) (by omega)
  obtain ⟨f3, k3⟩ := same (t + 3) (by omega) (by omega)
  have last : regs m state (t + 4) = round (f (t + 3)) (K (t + 3)) (W m (t + 3)) (round (f (t + 2)) (K (t + 2))
      (W m (t + 2)) (round (f (t + 1)) (K (t + 1)) (W m (t + 1)) (round (f t) (K t) (W m t) (regs m state t)))) := rfl
  have update : [W m t + k, W m (t + 1) + k, W m (t + 2) + k, W m (t + 3) + k].foldl (hashRound g)
      (lanes (regs m state t)) = lanes (regs m state (t + 4)) := by
    simp only [List.foldl, hashRound_eq, last, f0, f1, f2, f3, k0, k1, k2, k3]
  exact Prod.ext (congrArg Prod.fst update) rfl

theorem rounds_c {t : Nat} (inside : t + 4 ≤ 20) :
    rounds K0 (V m t) vsha1cq (R m state t) = R m state (t + 4) := by
  rw [vsha1cq, choose_eq]
  exact rounds_eq m state (fun u low high => by simp [f, K, K0, show u < 20 by omega])

theorem rounds_p {t : Nat} (past : 20 ≤ t) (inside : t + 4 ≤ 40) :
    rounds K1 (V m t) vsha1pq (R m state t) = R m state (t + 4) :=
  rounds_eq m state (fun u low high => by
    rw [f, K, if_neg (by omega), if_pos (by omega), if_neg (by omega), if_pos (by omega)]
    exact ⟨rfl, rfl⟩)

theorem rounds_m {t : Nat} (past : 40 ≤ t) (inside : t + 4 ≤ 60) :
    rounds K2 (V m t) vsha1mq (R m state t) = R m state (t + 4) := by
  rw [vsha1mq, majority_eq]
  exact rounds_eq m state (fun u low high => by
    simp [f, K, K2, show ¬u < 20 by omega, show ¬u < 40 by omega, show u < 60 by omega])

theorem rounds_p3 {t : Nat} (past : 60 ≤ t) :
    rounds K3 (V m t) vsha1pq (R m state t) = R m state (t + 4) :=
  rounds_eq m state (fun u low high => by
    rw [f, K, if_neg (by omega), if_neg (by omega), if_neg (by omega), if_neg (by omega), if_neg (by omega),
      if_neg (by omega)]
    exact ⟨rfl, rfl⟩)

end group

theorem sha1Armv8_eq (state : Regs) (block : Bytes) : sha1Armv8 state block = process state block := by
  let m := wordBe block
  have v0 : words block 0 = V m 0 := words_eq block 0 (by decide)
  have v4 : words block 16 = V m 4 := words_eq block 1 (by decide)
  have v8 : words block 32 = V m 8 := words_eq block 2 (by decide)
  have v12 : words block 48 = V m 12 := words_eq block 3 (by decide)
  have start : ((⟨state.a, state.b, state.c, state.d⟩, state.e) : U32x4 × UInt32) = R m state 0 := rfl
  simp (disch := decide) only [sha1Armv8, v0, v4, v8, v12, start, rounds_c, rounds_p, rounds_m, rounds_p3, sched_eq,
    Nat.reduceAdd]
  have sum : vaddq (R m state 80).1 ⟨state.a, state.b, state.c, state.d⟩ =
      (lanes (state.add (regs m state 80))).1 := by
    simp only [vaddq, R, lanes, Regs.add, UInt32.add_comm]
  rw [sum]
  rfl

end TypeBit.Crypto.Armv8
