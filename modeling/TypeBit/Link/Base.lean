import TypeBit.Link.Text

/-! The codecs of content ids: base32 (`crypto/base32.rs`) and base58 (`crypto/base58.rs`). -/

namespace TypeBit.Link

def add32 (a b : Nat) : Except Fault Nat := if a + b < 2 ^ 32 then .ok (a + b) else .error .overflow

def mul32 (a b : Nat) : Except Fault Nat := if a * b < 2 ^ 32 then .ok (a * b) else .error .overflow

theorem add32_ok {a b : Nat} (small : a + b < 2 ^ 32) : add32 a b = .ok (a + b) := if_pos small

theorem mul32_ok {a b : Nat} (small : a * b < 2 ^ 32) : mul32 a b = .ok (a * b) := if_pos small

/-! ### Base32 -/

namespace Base32

def digit (b : UInt8) : Option UInt8 :=
  if ch 'a' ≤ b ∧ b ≤ ch 'z' then some (b - ch 'a')
  else if ch 'A' ≤ b ∧ b ≤ ch 'Z' then some (b - ch 'A')
  else if ch '2' ≤ b ∧ b ≤ ch '7' then some (b - ch '2' + 26)
  else none

structure Decoder where
  acc : Nat
  bits : Nat
  out : Bytes

def Decoder.push (d : Decoder) (c : UInt8) : Except Fault Decoder := do
  let acc := (d.acc <<< 5) % 2 ^ 32 ||| c.toNat
  let bits ← add32 d.bits 5
  if 8 ≤ bits then
    let bits := bits - 8
    return ⟨acc &&& (1 <<< bits - 1), bits, d.out ++ [(acc >>> bits).toUInt8]⟩
  else
    return ⟨acc, bits, d.out⟩

/-- Padding is passed over wherever it stands; the bits left over have to be zero. -/
def decode (s : Bytes) : Except Fault (Option Bytes) :=
  match (s.filter (fun b => decide (b ≠ ch '='))).mapM digit with
  | none => .ok none
  | some body =>
      if body = [] then .ok (some [])
      else do
        let d ← body.foldlM Decoder.push ⟨0, 0, []⟩
        return if d.acc ≠ 0 then none else some d.out

theorem push_ok {d : Decoder} (few : d.bits < 8) (c : UInt8) : ∃ e, d.push c = .ok e ∧ e.bits < 8 := by
  unfold Decoder.push
  rw [add32_ok (by omega)]
  by_cases whole : 8 ≤ d.bits + 5
  · refine ⟨_, if_pos whole, ?_⟩
    show d.bits + 5 - 8 < 8
    omega
  · refine ⟨_, if_neg whole, ?_⟩
    show d.bits + 5 < 8
    omega

theorem foldlM_push_ok (body : Bytes) {d : Decoder} (few : d.bits < 8) : ∃ e, body.foldlM Decoder.push d = .ok e := by
  induction body generalizing d with
  | nil => exact ⟨d, rfl⟩
  | cons c tail ih =>
    obtain ⟨e, pushed, rest⟩ := push_ok few c
    obtain ⟨f, done⟩ := ih rest
    refine ⟨f, ?_⟩
    rw [List.foldlM_cons, pushed]
    exact done

theorem decode_ok (s : Bytes) : ∃ r, decode s = .ok r := by
  unfold decode
  cases (s.filter (fun b => decide (b ≠ ch '='))).mapM digit with
  | none => exact ⟨_, rfl⟩
  | some body =>
    dsimp only
    split_ifs
    · exact ⟨_, rfl⟩
    · have fresh : (⟨0, 0, []⟩ : Decoder).bits < 8 := by decide
      obtain ⟨d, folded⟩ := foldlM_push_ok body fresh
      rw [folded]
      exact ⟨_, rfl⟩

end Base32

/-! ### Base58 -/

namespace Base58

def alphabet : Bytes := ascii "123456789ABCDEFGHJKLMNPQRSTUVWXYZabcdefghijkmnopqrstuvwxyz"

/-- Multiply the number by 58 and add the carry, from the lowest byte on; what goes over is carried out. -/
def mulAdd : List Nat → Nat → Except Fault (List Nat × Nat)
  | [], carry => .ok ([], carry)
  | b :: tail, carry => do
      let product ← mul32 b 58
      let cur ← add32 product carry
      let (rest, carry) ← mulAdd tail (cur >>> 8)
      return ((cur &&& 0xff) :: rest, carry)

def carryBytes : Nat → Nat → List Nat
  | 0, _ => []
  | n + 1, carry => if carry = 0 then [] else (carry &&& 0xff) :: carryBytes n (carry >>> 8)

def decodeBody : Bytes → List Nat → Except Fault (Option (List Nat))
  | [], num => .ok (some num)
  | c :: tail, num =>
      match alphabet.idxOf? c with
      | none => .ok none
      | some val => do
          let (num, carry) ← mulAdd num val
          decodeBody tail (num ++ carryBytes 4 carry)

def decode (s : Bytes) : Except Fault (Option Bytes) :=
  let zeros := (s.takeWhile (· == ch '1')).length
  let body := s.drop zeros
  if body = [] then .ok (some (List.replicate zeros 0))
  else do
    let num ← decodeBody body [0]
    return num.map (fun num => List.replicate zeros 0 ++ num.reverse.map Nat.toUInt8)

theorem mulAdd_ok (num : List Nat) {carry : Nat} (bytes : ∀ b ∈ num, b < 256) (digit : carry < 58) :
    ∃ more out, mulAdd num carry = .ok (more, out) ∧ (∀ b ∈ more, b < 256) ∧ out < 58 := by
  induction num generalizing carry with
  | nil => exact ⟨[], carry, rfl, bytes, digit⟩
  | cons b tail ih =>
    have byte := bytes b List.mem_cons_self
    have next : (b * 58 + carry) >>> 8 < 58 := by
      rw [Nat.shiftRight_eq_div_pow]
      omega
    obtain ⟨more, out, rest, small, spill⟩ := ih (fun c member => bytes c (List.mem_cons_of_mem b member)) next
    refine ⟨((b * 58 + carry) &&& 0xff) :: more, out, ?_, ?_, spill⟩
    · rw [mulAdd, mul32_ok (by omega)]
      show (add32 (b * 58) carry >>= fun cur => _) = _
      rw [add32_ok (by omega)]
      show (mulAdd tail ((b * 58 + carry) >>> 8) >>= fun r => _) = _
      rw [rest]
      rfl
    · exact List.forall_mem_cons.mpr ⟨Nat.and_lt_two_pow _ (by decide : 0xff < 2 ^ 8), small⟩

theorem carryBytes_lt (n carry : Nat) : ∀ b ∈ carryBytes n carry, b < 256 := by
  induction n generalizing carry with
  | zero => exact fun b member => absurd member List.not_mem_nil
  | succ n ih =>
    rw [carryBytes]
    split_ifs
    · exact fun b member => absurd member List.not_mem_nil
    · exact List.forall_mem_cons.mpr ⟨Nat.and_lt_two_pow _ (by decide : 0xff < 2 ^ 8), ih _⟩

theorem decodeBody_ok (body : Bytes) {num : List Nat} (bytes : ∀ b ∈ num, b < 256) : ∃ r, decodeBody body num = .ok r := by
  induction body generalizing num with
  | nil => exact ⟨_, rfl⟩
  | cons c tail ih =>
    rw [decodeBody]
    cases found : alphabet.idxOf? c with
    | none => exact ⟨_, rfl⟩
    | some val =>
      obtain ⟨inside, -⟩ := List.idxOf?_eq_some_iff.mp found
      have digit : val < 58 := inside
      obtain ⟨more, out, added, small, -⟩ := mulAdd_ok num bytes digit
      dsimp only
      rw [added]
      apply ih
      intro b member
      rcases List.mem_append.mp member with old | carried
      · exact small b old
      · exact carryBytes_lt 4 out b carried

theorem decode_ok (s : Bytes) : ∃ r, decode s = .ok r := by
  unfold decode
  dsimp only
  split_ifs
  · exact ⟨_, rfl⟩
  · have zero : ∀ b ∈ [0], b < 256 := by decide
    obtain ⟨num, decoded⟩ := decodeBody_ok (s.drop (s.takeWhile (· == ch '1')).length) zero
    rw [decoded]
    exact ⟨_, rfl⟩

end Base58
end TypeBit.Link
