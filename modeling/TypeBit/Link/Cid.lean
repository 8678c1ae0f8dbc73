import TypeBit.Lib.Leb128
import TypeBit.Link.Base

/-! Content ids (`parse_cid` of `links.rs`). The numbers of a CIDv1 are read into 64 bits: the tenth byte of a number
loses its high bits, and the end of the digest is added without a check. -/

namespace TypeBit.Link
open Leb128

/-! ### The parser -/

structure Cid where
  version : Nat
  codec : Nat
  mhCode : Nat
  digest : Bytes
  deriving DecidableEq, Repr

def readVarintFrom : Bytes → Nat → Nat → Nat → Option (Nat × Nat)
  | [], _, _, _ => none
  | byte :: tail, i, val, shift =>
      if 10 ≤ i then none
      else
        let val := val ||| ((byte &&& 0x7f).toNat <<< shift) % 2 ^ 64
        if byte &&& 0x80 = 0 then some (val, i + 1) else readVarintFrom tail (i + 1) val (shift + 7)

def readVarint (b : Bytes) (start : Nat) : Option (Nat × Nat) := readVarintFrom (b.drop start) 0 0 0

def addUsize (a b : Nat) : Except Fault Nat := if a + b < 2 ^ 64 then .ok (a + b) else .error .overflow

def getRange (bytes : Bytes) (start stop : Nat) : Option Bytes :=
  if start ≤ stop ∧ stop ≤ bytes.length then some ((bytes.drop start).take (stop - start)) else none

def parseV1 (bytes : Bytes) : Except Fault (Option Cid) :=
  let pos := 0
  match readVarint bytes pos with
  | none => .ok none
  | some (version, n1) =>
      let pos := pos + n1
      match readVarint bytes pos with
      | none => .ok none
      | some (codec, n2) =>
          let pos := pos + n2
          if version ≠ 1 then .ok none
          else
            match readVarint bytes pos with
            | none => .ok none
            | some (mhCode, n3) =>
                let pos := pos + n3
                match readVarint bytes pos with
                | none => .ok none
                | some (mhLen, n4) => do
                    let pos := pos + n4
                    let stop ← addUsize pos mhLen
                    return (getRange bytes pos stop).map (fun digest => ⟨1, codec, mhCode, digest⟩)

def multibase : Bytes → Except Fault (Option Bytes)
  | [] => .ok none
  | p :: rest =>
      if p = ch 'b' ∨ p = ch 'B' then Base32.decode rest
      else if p = ch 'z' then Base58.decode rest
      else .ok none

def parseCid (cid : Bytes) : Except Fault (Option Cid) :=
  if (ascii "Qm").isPrefixOf cid then do
    match ← Base58.decode cid with
    | none => return none
    | some bytes =>
        return if bytes.length = 34 ∧ bytes[0]? = some 0x12 ∧ bytes[1]? = some 0x20
          then some ⟨0, 0x70, 0x12, bytes.drop 2⟩ else none
  else do
    match ← multibase cid with
    | none => return none
    | some bytes => parseV1 bytes

/-! ### Numbers -/

theorem low_byte (b : UInt8) : (b &&& 0x7f).toNat = b.toNat % 128 := by
  rw [UInt8.toNat_and]
  exact Nat.and_two_pow_sub_one_eq_mod b.toNat 7

set_option maxRecDepth 20000 in
theorem high_bit (b : UInt8) : b &&& 0x80 = 0 ↔ b.toNat < 128 :=
  forall_byte (P := fun b => b &&& 0x80 = 0 ↔ b.toNat < 128) (by decide) b

theorem or_group {val shift : Nat} (low : val < 2 ^ shift) (fits : shift ≤ 64) (x : Nat) :
    val ||| (x <<< shift) % 2 ^ 64 = (val + 2 ^ shift * x) % 2 ^ 64 := by
  have below : val < 2 ^ 64 := Nat.lt_of_lt_of_le low (Nat.pow_le_pow_right (by decide) fits)
  calc val ||| (x <<< shift) % 2 ^ 64
      = val % 2 ^ 64 ||| (x <<< shift) % 2 ^ 64 := by rw [Nat.mod_eq_of_lt below]
    _ = (val ||| x <<< shift) % 2 ^ 64 := (Nat.or_mod_two_pow).symm
    _ = (val + 2 ^ shift * x) % 2 ^ 64 := by
      rw [Nat.or_comm, ← Nat.shiftLeft_add_eq_or_of_lt low, Nat.shiftLeft_eq, Nat.add_comm, Nat.mul_comm]

def Begins (b : Bytes) (i val v n : Nat) : Prop :=
  ∃ p rest, b = p ++ rest ∧ Complete p ∧ i + p.length ≤ 10 ∧ v = (val + 2 ^ (7 * i) * value p) % 2 ^ 64 ∧
    n = i + p.length

theorem begins_last {byte : UInt8} (last : byte.toNat < 128) (tail : Bytes) {i val v n : Nat} :
    Begins (byte :: tail) i val v n ↔ i < 10 ∧ v = (val + 2 ^ (7 * i) * (byte.toNat % 128)) % 2 ^ 64 ∧ n = i + 1 := by
  constructor
  · intro begins
    obtain ⟨p, rest, same, complete, short, rfl, rfl⟩ := begins
    cases p with
    | nil => exact complete.elim
    | cons c p =>
      obtain ⟨rfl, -⟩ := List.cons.inj same
      rw [complete_last last] at complete
      rw [complete] at short ⊢
      exact ⟨short, by rw [value, value, Nat.mul_zero, Nat.add_zero], rfl⟩
  · intro read
    obtain ⟨early, rfl, rfl⟩ := read
    refine ⟨[byte], tail, rfl, (complete_last last []).mpr rfl, early, ?_, rfl⟩
    rw [value, value, Nat.mul_zero, Nat.add_zero]

theorem begins_more {byte : UInt8} (more : ¬ byte.toNat < 128) (tail : Bytes) {i val v n : Nat} :
    Begins (byte :: tail) i val v n ↔
      Begins tail (i + 1) ((val + 2 ^ (7 * i) * (byte.toNat % 128)) % 2 ^ 64) v n := by
  have step (p : Bytes) : (val + 2 ^ (7 * i) * value (byte :: p)) % 2 ^ 64 =
      ((val + 2 ^ (7 * i) * (byte.toNat % 128)) % 2 ^ 64 + 2 ^ (7 * (i + 1)) * value p) % 2 ^ 64 := by
    rw [Nat.mod_add_mod, value, Nat.mul_succ, Nat.pow_add, Nat.mul_add, Nat.mul_assoc, Nat.add_assoc]
  have count (p : Bytes) : i + (byte :: p).length = i + 1 + p.length := by
    rw [List.length_cons, Nat.add_assoc, Nat.add_comm 1]
  constructor
  · intro begins
    obtain ⟨p, rest, same, complete, short, rfl, rfl⟩ := begins
    cases p with
    | nil => exact complete.elim
    | cons c p =>
      obtain ⟨rfl, tails⟩ := List.cons.inj same
      exact ⟨p, rest, tails, (complete_more more p).mp complete, by rwa [← count], step p, count p⟩
  · intro begins
    obtain ⟨p, rest, same, complete, short, rfl, rfl⟩ := begins
    exact ⟨byte :: p, rest, congrArg (byte :: ·) same, (complete_more more p).mpr complete, by rwa [count],
      (step p).symm, (count p).symm⟩

theorem readVarintFrom_iff (b : Bytes) {i val v n : Nat} (low : i < 10 → val < 2 ^ (7 * i)) :
    readVarintFrom b i val (7 * i) = some (v, n) ↔ Begins b i val v n := by
  induction b generalizing i val with
  | nil =>
    apply iff_of_false (fun read => by cases read)
    intro begins
    obtain ⟨p, rest, empty, complete, -⟩ := begins
    exact complete.ne_nil (List.append_eq_nil_iff.mp empty.symm).1
  | cons byte tail ih =>
    rw [readVarintFrom]
    by_cases late : 10 ≤ i
    · rw [if_pos late]
      apply iff_of_false (fun read => by cases read)
      intro begins
      obtain ⟨p, rest, -, complete, short, -⟩ := begins
      have filled := List.length_pos_iff.mpr complete.ne_nil
      omega
    · have fits : val < 2 ^ (7 * i) := low (Nat.lt_of_not_le late)
      rw [if_neg late, or_group fits (by omega), low_byte]
      by_cases last : byte.toNat < 128
      · rw [begins_last last]
        dsimp only
        rw [if_pos ((high_bit byte).mpr last), Option.some.injEq, Prod.mk.injEq]
        exact ⟨fun read => ⟨Nat.lt_of_not_le late, read.1.symm, read.2.symm⟩, fun read => ⟨read.2.1.symm, read.2.2.symm⟩⟩
      · rw [begins_more last]
        dsimp only
        rw [if_neg (fun clear => last ((high_bit byte).mp clear))]
        -- seven more bits hold the next group
        apply ih
        intro early
        calc (val + 2 ^ (7 * i) * (byte.toNat % 128)) % 2 ^ 64
            ≤ val + 2 ^ (7 * i) * (byte.toNat % 128) := Nat.mod_le _ _
          _ < 2 ^ (7 * i) * (byte.toNat % 128 + 1) := by rw [Nat.mul_succ]; omega
          _ ≤ 2 ^ (7 * i) * 2 ^ 7 := Nat.mul_le_mul_left _ (Nat.succ_le_of_lt (Nat.mod_lt _ (by decide)))
          _ = 2 ^ (7 * (i + 1)) := (Nat.pow_add 2 (7 * i) 7).symm

def Varint (p : Bytes) : Prop := Complete p ∧ p.length ≤ 10

theorem readVarint_iff {b : Bytes} {start v n : Nat} :
    readVarint b start = some (v, n) ↔
      ∃ p rest, b.drop start = p ++ rest ∧ Varint p ∧ v = value p % 2 ^ 64 ∧ n = p.length := by
  have reads : readVarintFrom (b.drop start) 0 0 (7 * 0) = some (v, n) ↔ Begins (b.drop start) 0 0 v n :=
    readVarintFrom_iff _ fun _ => Nat.one_pos
  have begins : Begins (b.drop start) 0 0 v n ↔
      ∃ p rest, b.drop start = p ++ rest ∧ Varint p ∧ v = value p % 2 ^ 64 ∧ n = p.length := by
    unfold Begins Varint
    simp only [Nat.zero_add, Nat.mul_zero, Nat.pow_zero, Nat.one_mul, and_assoc]
  exact reads.trans begins

theorem readVarint_at {b front p rest : Bytes} {start : Nat} (split : b = front ++ (p ++ rest))
    (here : start = front.length) (varint : Varint p) : readVarint b start = some (value p % 2 ^ 64, p.length) := by
  rw [split, here, readVarint_iff]
  exact ⟨p, rest, List.drop_left, varint, rfl, rfl⟩

/-! ### Headers -/

@[ext]
structure Header where
  version : Bytes
  codec : Bytes
  mhCode : Bytes
  mhLen : Bytes
  rest : Bytes
  isVersion : Varint version
  isCodec : Varint codec
  isCode : Varint mhCode
  isLen : Varint mhLen

namespace Header

def bytes (h : Header) : Bytes := h.version ++ (h.codec ++ (h.mhCode ++ (h.mhLen ++ h.rest)))

def digestAt (h : Header) : Nat := h.version.length + h.codec.length + h.mhCode.length + h.mhLen.length

theorem getRange_digest (h : Header) (n : Nat) :
    getRange h.bytes h.digestAt (h.digestAt + n) = if n ≤ h.rest.length then some (h.rest.take n) else none := by
  have split : h.bytes = (h.version ++ h.codec ++ h.mhCode ++ h.mhLen) ++ h.rest := by
    simp only [bytes, List.append_assoc]
  have front : h.digestAt = (h.version ++ h.codec ++ h.mhCode ++ h.mhLen).length := by
    simp only [digestAt, List.length_append]
  have inside : (h.digestAt ≤ h.digestAt + n ∧ h.digestAt + n ≤ h.bytes.length) ↔ n ≤ h.rest.length := by
    rw [split, List.length_append, ← front]
    omega
  unfold getRange
  simp only [inside]
  rw [Nat.add_sub_cancel_left, split, front, List.drop_left]

theorem exists_of_reads {bytes : Bytes} {version codec mhCode mhLen n1 n2 n3 n4 : Nat}
    (first : readVarint bytes 0 = some (version, n1)) (second : readVarint bytes (0 + n1) = some (codec, n2))
    (third : readVarint bytes (0 + n1 + n2) = some (mhCode, n3))
    (fourth : readVarint bytes (0 + n1 + n2 + n3) = some (mhLen, n4)) :
    ∃ h : Header, h.bytes = bytes ∧ value h.version % 2 ^ 64 = version := by
  obtain ⟨p, afterVersion, one, isVersion, rfl, rfl⟩ := readVarint_iff.mp first
  obtain ⟨q, afterCodec, two, isCodec, -, rfl⟩ := readVarint_iff.mp second
  obtain ⟨r, afterCode, three, isCode, -, rfl⟩ := readVarint_iff.mp third
  obtain ⟨s, rest, four, isLen, -, -⟩ := readVarint_iff.mp fourth
  rw [← List.drop_drop, ← List.drop_drop, ← List.drop_drop, one, List.drop_left] at four
  rw [← List.drop_drop, ← List.drop_drop, one, List.drop_left] at three
  rw [← List.drop_drop, one, List.drop_left] at two
  rw [two, List.drop_left] at three four
  rw [three, List.drop_left] at four
  refine ⟨⟨p, q, r, s, rest, isVersion, isCodec, isCode, isLen⟩, ?_, rfl⟩
  show p ++ (q ++ (r ++ (s ++ rest))) = bytes
  rw [← four, ← three, ← two, ← one]
  rfl

theorem bytes_injective {h k : Header} (same : h.bytes = k.bytes) : h = k := by
  obtain ⟨version, afterVersion⟩ := h.isVersion.1.append_inj k.isVersion.1 same
  obtain ⟨codec, afterCodec⟩ := h.isCodec.1.append_inj k.isCodec.1 afterVersion
  obtain ⟨mhCode, afterCode⟩ := h.isCode.1.append_inj k.isCode.1 afterCodec
  obtain ⟨mhLen, rest⟩ := h.isLen.1.append_inj k.isLen.1 afterCode
  exact Header.ext version codec mhCode mhLen rest

end Header

theorem parseV1_header (h : Header) :
    parseV1 h.bytes =
      if value h.version % 2 ^ 64 ≠ 1 then .ok none
      else if h.digestAt + value h.mhLen % 2 ^ 64 < 2 ^ 64 then
        .ok (if value h.mhLen % 2 ^ 64 ≤ h.rest.length then
          some ⟨1, value h.codec % 2 ^ 64, value h.mhCode % 2 ^ 64, h.rest.take (value h.mhLen % 2 ^ 64)⟩ else none)
      else .error .overflow := by
  have version : readVarint h.bytes 0 = some (value h.version % 2 ^ 64, h.version.length) :=
    readVarint_at (List.nil_append _).symm rfl h.isVersion
  have codec : readVarint h.bytes (0 + h.version.length) = some (value h.codec % 2 ^ 64, h.codec.length) :=
    readVarint_at rfl (Nat.zero_add _) h.isCodec
  have mhCode : readVarint h.bytes (0 + h.version.length + h.codec.length) =
      some (value h.mhCode % 2 ^ 64, h.mhCode.length) := by
    have split : h.bytes = (h.version ++ h.codec) ++ (h.mhCode ++ (h.mhLen ++ h.rest)) := by
      rw [Header.bytes, List.append_assoc]
    exact readVarint_at split (by rw [List.length_append, Nat.zero_add]) h.isCode
  have mhLen : readVarint h.bytes (0 + h.version.length + h.codec.length + h.mhCode.length) =
      some (value h.mhLen % 2 ^ 64, h.mhLen.length) := by
    have split : h.bytes = (h.version ++ h.codec ++ h.mhCode) ++ (h.mhLen ++ h.rest) := by
      simp only [Header.bytes, List.append_assoc]
    exact readVarint_at split (by simp only [List.length_append, Nat.zero_add]) h.isLen
  unfold parseV1
  dsimp only
  rw [version]
  dsimp only
  rw [codec]
  dsimp only
  by_cases other : value h.version % 2 ^ 64 ≠ 1
  · rw [if_pos other, if_pos other]
  · rw [if_neg other, if_neg other, mhCode]
    dsimp only
    rw [mhLen]
    dsimp only
    have offset : 0 + h.version.length + h.codec.length + h.mhCode.length + h.mhLen.length = h.digestAt := by
      rw [Nat.zero_add]
      rfl
    rw [offset]
    unfold addUsize
    by_cases fits : h.digestAt + value h.mhLen % 2 ^ 64 < 2 ^ 64
    · rw [if_pos fits, if_pos fits]
      show Except.ok _ = Except.ok _
      rw [h.getRange_digest]
      by_cases whole : value h.mhLen % 2 ^ 64 ≤ h.rest.length
      · rw [if_pos whole, if_pos whole]
        rfl
      · rw [if_neg whole, if_neg whole]
        rfl
    · rw [if_neg fits, if_neg fits]
      rfl

theorem parseV1_none {bytes : Bytes} (other : ∀ h : Header, h.bytes = bytes → value h.version % 2 ^ 64 ≠ 1) :
    parseV1 bytes = .ok none := by
  unfold parseV1
  dsimp only
  cases readVersion : readVarint bytes 0 with
  | none => rfl
  | some version =>
    obtain ⟨version, n1⟩ := version
    dsimp only
    cases readCodec : readVarint bytes (0 + n1) with
    | none => rfl
    | some codec =>
      obtain ⟨codec, n2⟩ := codec
      dsimp only
      by_cases one : version ≠ 1
      · rw [if_pos one]
      · rw [if_neg one]
        cases readCode : readVarint bytes (0 + n1 + n2) with
        | none => rfl
        | some mhCode =>
          obtain ⟨mhCode, n3⟩ := mhCode
          dsimp only
          cases readLen : readVarint bytes (0 + n1 + n2 + n3) with
          | none => rfl
          | some mhLen =>
            obtain ⟨h, same, value⟩ := Header.exists_of_reads readVersion readCodec readCode readLen
            exact absurd (value.trans (of_not_not one)) (other h same)

/-! ### What is read and accepted -/

/-- The value is that of the bytes consumed. -/
def VarintExact (b : Bytes) (start : Nat) : Prop :=
  ∀ v n, readVarint b start = some (v, n) → v = value ((b.drop start).take n)

/-- Nine bytes that go on are not followed by a last one above one. -/
def TenthSmall (b : Bytes) : Prop :=
  ∀ c, b[9]? = some c → (∀ d ∈ b.take 9, 128 ≤ d.toNat) → c.toNat < 128 → c.toNat ≤ 1

def Payload (cid bytes : Bytes) : Prop := ¬ (ascii "Qm").isPrefixOf cid ∧ multibase cid = .ok (some bytes)

/-- Parsing comes to an end without a fault, and a digest of version 1 has the declared length. -/
def CidExact (cid : Bytes) : Prop :=
  ∃ r, parseCid cid = .ok r ∧ ∀ c, r = some c → c.version = 1 →
    ∃ h : Header, Payload cid h.bytes ∧ c.digest <+: h.rest ∧ c.digest.length = value h.mhLen

/-- The declared length leaves the end of the digest below `2 ^ 64`, and is below it itself where its low 64 bits are no
more than there is. -/
def LengthFits (cid : Bytes) : Prop :=
  ∀ h : Header, Payload cid h.bytes → value h.version % 2 ^ 64 = 1 →
    h.digestAt + value h.mhLen % 2 ^ 64 < 2 ^ 64 ∧
      (value h.mhLen % 2 ^ 64 ≤ h.rest.length → value h.mhLen < 2 ^ 64)

theorem tenthSmall_iff (b : Bytes) : TenthSmall b ↔ ∀ p rest, b = p ++ rest → Varint p → value p < 2 ^ 64 := by
  constructor
  · intro small p rest split varint
    obtain ⟨complete, short⟩ := varint
    by_cases nine : p.length ≤ 9
    · calc value p < 128 ^ p.length := value_lt p
        _ ≤ 128 ^ 9 := Nat.pow_le_pow_right (by decide) nine
        _ < 2 ^ 64 := by decide
    · obtain ⟨front, c, rfl, more, stop⟩ := complete_iff.mp complete
      have count : front.length = 9 := by
        rw [List.length_append, List.length_singleton] at short nine
        omega
      have tenth : b[9]? = some c := by
        rw [split, List.append_assoc, List.getElem?_append_right (Nat.le_of_eq count), count]
        rfl
      have before : b.take 9 = front := by
        rw [split, List.append_assoc, ← count, List.take_left]
      have low := small c tenth (by rwa [before]) stop
      have bound := value_lt front
      rw [value_last stop]
      rw [count] at bound ⊢
      omega
  · intro fits c tenth more stop
    obtain ⟨inside, same⟩ := List.getElem?_eq_some_iff.mp tenth
    have ten : b.take 9 ++ [c] = b.take 10 := by rw [← same, List.take_append_getElem inside]
    have nine : (b.take 9).length = 9 := by
      rw [List.length_take]
      omega
    have complete : Complete (b.take 9 ++ [c]) := complete_iff.mpr ⟨_, c, rfl, more, stop⟩
    have split : b = (b.take 9 ++ [c]) ++ b.drop 10 := by rw [ten, List.take_append_drop]
    have bound := fits _ _ split ⟨complete, by rw [List.length_append, nine]; rfl⟩
    rw [value_last stop, nine] at bound
    omega

theorem varintExact_iff (b : Bytes) (start : Nat) : VarintExact b start ↔ TenthSmall (b.drop start) := by
  rw [tenthSmall_iff]
  constructor
  · intro exact p rest split varint
    have same := exact _ _ (readVarint_iff.mpr ⟨p, rest, split, varint, rfl, rfl⟩)
    rw [split, List.take_left] at same
    rw [← same]
    exact Nat.mod_lt _ (by decide)
  · intro fits v n read
    obtain ⟨p, rest, split, varint, rfl, rfl⟩ := readVarint_iff.mp read
    rw [split, List.take_left]
    exact Nat.mod_eq_of_lt (fits p rest split varint)

theorem parseCid_payload {cid bytes : Bytes} (payload : Payload cid bytes) : parseCid cid = parseV1 bytes := by
  unfold parseCid
  rw [if_neg payload.1, payload.2]
  rfl

theorem parseCid_cases (cid : Bytes) :
    (∃ r, parseCid cid = .ok r ∧ ∀ c, r = some c → c.version = 0) ∨ ∃ bytes, Payload cid bytes := by
  by_cases zero : (ascii "Qm").isPrefixOf cid
  · obtain ⟨r, decoded⟩ := Base58.decode_ok cid
    left
    unfold parseCid
    rw [if_pos zero, decoded]
    cases r with
    | none => exact ⟨none, rfl, fun c same => by cases same⟩
    | some bytes =>
      refine ⟨_, rfl, ?_⟩
      intro c same
      split_ifs at same
      cases same
      rfl
  · have decoded : ∃ r, multibase cid = .ok r := by
      cases cid with
      | nil => exact ⟨none, rfl⟩
      | cons p rest =>
        rw [multibase]
        split_ifs
        · exact Base32.decode_ok rest
        · exact Base58.decode_ok rest
        · exact ⟨none, rfl⟩
    obtain ⟨r, decoded⟩ := decoded
    cases r with
    | none =>
      refine .inl ⟨none, ?_, fun c same => by cases same⟩
      unfold parseCid
      rw [if_neg zero, decoded]
      rfl
    | some bytes => exact .inr ⟨bytes, zero, decoded⟩

theorem cidExact_iff (cid : Bytes) : CidExact cid ↔ LengthFits cid := by
  constructor
  · intro exact h payload one
    obtain ⟨r, parsed, digest⟩ := exact
    rw [parseCid_payload payload, parseV1_header, if_neg (not_not_intro one)] at parsed
    by_cases fits : h.digestAt + value h.mhLen % 2 ^ 64 < 2 ^ 64
    · refine ⟨fits, fun whole => ?_⟩
      rw [if_pos fits, if_pos whole] at parsed
      obtain ⟨k, same, -, declared⟩ := digest _ (Except.ok.inj parsed).symm rfl
      have headers : h = k := by
        apply Header.bytes_injective
        exact Option.some.inj (Except.ok.inj (payload.2.symm.trans same.2))
      rw [← headers] at declared
      rw [← declared, List.length_take, Nat.min_eq_left whole]
      exact Nat.mod_lt _ (by decide)
    · rw [if_neg fits] at parsed
      cases parsed
  · intro fits
    rcases parseCid_cases cid with ⟨r, parsed, zero⟩ | ⟨bytes, payload⟩
    · refine ⟨r, parsed, fun c same one => ?_⟩
      rw [zero c same] at one
      exact absurd one (by decide)
    · by_cases header : ∃ h : Header, h.bytes = bytes ∧ value h.version % 2 ^ 64 = 1
      · obtain ⟨h, rfl, one⟩ := header
        obtain ⟨below, whole⟩ := fits h payload one
        have parsed := (parseCid_payload payload).trans (parseV1_header h)
        rw [if_neg (not_not_intro one), if_pos below] at parsed
        refine ⟨_, parsed, ?_⟩
        intro c same _
        split_ifs at same with enough
        cases same
        refine ⟨h, payload, List.take_prefix _ _, ?_⟩
        rw [List.length_take, Nat.min_eq_left enough]
        exact Nat.mod_eq_of_lt (whole enough)
      · have refused : parseV1 bytes = .ok none := by
          apply parseV1_none
          intro h same one
          exact header ⟨h, same, one⟩
        exact ⟨none, (parseCid_payload payload).trans refused, fun c same => by cases same⟩

/-- Numbers are read without loss exactly where no tenth byte is above one, and content ids are parsed as they should be
exactly where the declared length fits. -/
theorem cids_exact_iff (b : Bytes) (start : Nat) (cid : Bytes) :
    (VarintExact b start ↔ TenthSmall (b.drop start)) ∧ (CidExact cid ↔ LengthFits cid) :=
  ⟨varintExact_iff b start, cidExact_iff cid⟩

/-- A declared length of `2 ^ 64 - 1` overflows the end of the digest. -/
theorem greatest_length_overflows : ¬ ((∀ b start, VarintExact b start) ∧ ∀ cid, CidExact cid) := by
  intro all
  obtain ⟨r, parsed, -⟩ := all.2 (ascii "bafkrf77777777777777qc")
  have faults : parseCid (ascii "bafkrf77777777777777qc") = .error .overflow := by decide
  rw [faults] at parsed
  cases parsed

end TypeBit.Link
