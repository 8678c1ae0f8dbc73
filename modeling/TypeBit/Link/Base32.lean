import Mathlib.Tactic.IntervalCases
import Mathlib.Tactic.Ring
import TypeBit.Lib.Radix
import TypeBit.Link.Base
import TypeBit.Link.Magnet

/-! Base32 of a v1 hash: what `crypto/base32.rs` writes of twenty bytes, `magnet.rs` reads in lower case only. -/

namespace TypeBit.Link
open Radix

namespace Base32

def alphabet : Bytes := ascii "abcdefghijklmnopqrstuvwxyz234567"

structure Encoder where
  acc : Nat
  bits : Nat
  out : Bytes

def symbol (d : Nat) : UInt8 := alphabet.getD d 0

def drain (acc : Nat) : Nat → Bytes × Nat
  | bits + 5 => (symbol ((acc >>> bits) &&& 0x1f) :: (drain acc bits).1, (drain acc bits).2)
  | bits => ([], bits)

def Encoder.push (e : Encoder) (b : UInt8) : Encoder :=
  let acc := (e.acc <<< 8) % 2 ^ 32 ||| b.toNat
  let d := drain acc (e.bits + 8)
  ⟨acc &&& (1 <<< d.2 - 1), d.2, e.out ++ d.1⟩

def encode (data : Bytes) : Bytes :=
  let e := data.foldl Encoder.push ⟨0, 0, []⟩
  if 0 < e.bits then e.out ++ [symbol ((e.acc <<< (5 - e.bits)) % 2 ^ 32 &&& 0x1f)] else e.out

def upper (c : UInt8) : UInt8 := if ch 'a' ≤ c ∧ c ≤ ch 'z' then c - 32 else c

/-! ### Writing -/

theorem drain_spec (acc n : Nat) : ∃ ds : List Nat, drain acc n = (ds.map symbol, n % 5) ∧ ds.length = n / 5 ∧
    (∀ d ∈ ds, d < 32) ∧ ∀ before, number 32 (before ++ ds) * 2 ^ (n % 5) + acc % 2 ^ (n % 5) =
      number 32 before * 2 ^ n + acc % 2 ^ n := by
  induction n using Nat.strongRecOn with
  | ind n ih =>
    by_cases enough : 5 ≤ n
    · obtain ⟨k, rfl⟩ := Nat.exists_eq_add_of_le' enough
      obtain ⟨ds, drained, count, small, value⟩ := ih k (by omega)
      have digit : (acc >>> k) &&& 0x1f = acc / 2 ^ k % 32 := by
        rw [Nat.shiftRight_eq_div_pow]
        exact Nat.and_two_pow_sub_one_eq_mod _ 5
      have left : (k + 5) % 5 = k % 5 := Nat.add_mod_right k 5
      refine ⟨acc / 2 ^ k % 32 :: ds, ?_, ?_, ?_, ?_⟩
      · rw [drain, drained, digit, left]
        rfl
      · rw [List.length_cons, count]
        omega
      · exact List.forall_mem_cons.mpr ⟨Nat.mod_lt _ (by decide), small⟩
      · intro before
        have rest := value (before ++ [acc / 2 ^ k % 32])
        rw [List.append_assoc, List.singleton_append, number_concat] at rest
        have whole : acc % 2 ^ (k + 5) = acc % 2 ^ k + 2 ^ k * (acc / 2 ^ k % 32) := by
          rw [Nat.pow_add]
          exact Nat.mod_mul
        rw [left, rest, whole, Nat.pow_add]
        ring
    · have few : n < 5 := Nat.lt_of_not_le enough
      refine ⟨[], ?_, ?_, fun d member => absurd member List.not_mem_nil, ?_⟩
      · rw [Nat.mod_eq_of_lt few]
        clear ih enough
        interval_cases n <;> rfl
      · exact (Nat.div_eq_of_lt few).symm
      · intro before
        rw [List.append_nil, Nat.mod_eq_of_lt few]

/-- The encoder has written the bytes taken so far, but for fewer than five bits. -/
structure Encoder.Wrote (e : Encoder) (bs : Bytes) (ds : List Nat) : Prop where
  out : e.out = ds.map symbol
  small : ∀ d ∈ ds, d < 32
  few : e.bits < 5
  rest : e.acc < 2 ^ e.bits
  value : number 32 ds * 2 ^ e.bits + e.acc = number 256 (bs.map UInt8.toNat)
  count : 5 * ds.length + e.bits = 8 * bs.length

theorem Encoder.Wrote.push {e : Encoder} {bs : Bytes} {ds : List Nat} (wrote : e.Wrote bs ds) (b : UInt8) :
    ∃ more, (e.push b).Wrote (bs ++ [b]) (ds ++ more) := by
  obtain ⟨out, small, few, rest, value, count⟩ := wrote
  have width : 2 ^ e.bits ≤ 2 ^ 4 := Nat.pow_le_pow_right (by decide) (by omega)
  have byte := b.toNat_lt
  have acc : (e.acc <<< 8) % 2 ^ 32 ||| b.toNat = e.acc * 256 + b.toNat := by
    rw [Nat.shiftLeft_eq, Nat.mod_eq_of_lt (by omega), ← Nat.shiftLeft_eq, Nat.shiftLeft_add_eq_or_of_lt byte]
  have fits : e.acc * 256 + b.toNat < 2 ^ (e.bits + 8) := by
    rw [Nat.pow_add]
    omega
  obtain ⟨more, drained, length, digits, written⟩ := drain_spec (e.acc * 256 + b.toNat) (e.bits + 8)
  have after := written ds
  rw [Nat.mod_eq_of_lt fits] at after
  have pushed : e.push b = ⟨(e.acc * 256 + b.toNat) % 2 ^ ((e.bits + 8) % 5), (e.bits + 8) % 5,
      e.out ++ more.map symbol⟩ := by
    unfold Encoder.push
    rw [acc]
    dsimp only
    rw [drained]
    dsimp only
    rw [Nat.one_shiftLeft, Nat.and_two_pow_sub_one_eq_mod]
  refine ⟨more, ?_⟩
  rw [pushed]
  refine ⟨by rw [out, List.map_append], ?_, Nat.mod_lt _ (by decide), Nat.mod_lt _ (Nat.two_pow_pos _), ?_, ?_⟩
  · intro d member
    rcases List.mem_append.mp member with old | new
    · exact small d old
    · exact digits d new
  · rw [List.map_append, List.map_singleton, number_concat, ← value]
    refine after.trans ?_
    rw [Nat.pow_add]
    ring
  · dsimp only
    rw [List.length_append, List.length_append, length, List.length_singleton]
    omega

theorem foldl_push_wrote (bs : Bytes) {e : Encoder} {before : Bytes} {ds : List Nat} (wrote : e.Wrote before ds) :
    ∃ es, (bs.foldl Encoder.push e).Wrote (before ++ bs) es := by
  induction bs generalizing e before ds with
  | nil => exact ⟨ds, by rwa [List.append_nil]⟩
  | cons b bs ih =>
    obtain ⟨more, next⟩ := wrote.push b
    obtain ⟨es, all⟩ := ih next
    exact ⟨es, by rwa [List.append_assoc] at all⟩

theorem encode_twenty (h : ByteArr 20) : ∃ ds : List Nat, encode h.val = ds.map symbol ∧ ds.length = 32 ∧
    (∀ d ∈ ds, d < 32) ∧ number 32 ds = number 256 (h.val.map UInt8.toNat) := by
  have fresh : (⟨0, 0, []⟩ : Encoder).Wrote [] [] :=
    ⟨rfl, fun d member => absurd member List.not_mem_nil, by decide, by decide, rfl, rfl⟩
  obtain ⟨ds, out, small, few, rest, value, count⟩ := foldl_push_wrote h.val fresh
  rw [List.nil_append] at value count
  rw [h.property] at count
  have none : (h.val.foldl Encoder.push ⟨0, 0, []⟩).bits = 0 := by omega
  rw [none] at rest value
  refine ⟨ds, ?_, by omega, small, by omega⟩
  unfold encode
  dsimp only
  rw [if_neg (by omega), out]

end Base32

/-! ### Reading -/

theorem idxOf?_symbol {d : Nat} (small : d < 32) : ALPH.idxOf? (Base32.symbol d) = some d := by
  have all : ∀ d < 32, ALPH.idxOf? (Base32.symbol d) = some d := by decide
  exact all d small

/-- The decoder has read the digits: their last 32 bits, and the bytes of all but the last few bits. -/
structure Sha1Decoder.Read (d : Sha1Decoder) (ds : List Nat) : Prop where
  bits : d.bits = number 32 ds % 2 ^ 32
  nbits : d.nbits = 5 * ds.length % 8
  count : d.out.length = 5 * ds.length / 8
  value : number 256 (d.out.map UInt8.toNat) = number 32 ds / 2 ^ d.nbits

theorem Sha1Decoder.Read.push {d : Sha1Decoder} {ds : List Nat} (read : d.Read ds) {v : Nat} (small : v < 32)
    (room : ds.length < 32) : ∃ e, d.push (Base32.symbol v) = some e ∧ e.Read (ds ++ [v]) := by
  obtain ⟨bits, nbits, count, value⟩ := read
  have length : (ds ++ [v]).length = ds.length + 1 := List.length_append
  have last : (d.bits <<< 5) % 2 ^ 32 ||| v = number 32 (ds ++ [v]) % 2 ^ 32 := by
    have shifted : (d.bits <<< 5) % 2 ^ 32 = (number 32 ds % 2 ^ 27) <<< 5 := by
      rw [bits, Nat.shiftLeft_eq, Nat.shiftLeft_eq]
      omega
    rw [shifted, ← Nat.shiftLeft_add_eq_or_of_lt small, Nat.shiftLeft_eq, number_concat]
    omega
  have pushed : d.push (Base32.symbol v) = some (if 8 ≤ d.nbits + 5 then
      ⟨number 32 (ds ++ [v]) % 2 ^ 32, d.nbits + 5 - 8, if d.out.length < 20 then
        d.out ++ [((number 32 (ds ++ [v]) % 2 ^ 32) >>> (d.nbits + 5 - 8)).toUInt8] else d.out⟩
      else ⟨number 32 (ds ++ [v]) % 2 ^ 32, d.nbits + 5, d.out⟩) := by
    unfold Sha1Decoder.push
    rw [idxOf?_symbol small]
    show (if 8 ≤ d.nbits + 5 then some _ else some _) = _
    rw [last]
    split_ifs <;> rfl
  refine ⟨_, pushed, ?_⟩
  by_cases whole : 8 ≤ d.nbits + 5
  · rw [if_pos whole, if_pos (by omega)]
    -- at most four bits stay behind, so that the byte is in the low 32 bits
    obtain ⟨k, left⟩ : ∃ k, d.nbits = k + 3 := Nat.exists_eq_add_of_le' (by omega)
    have few : k < 5 := by omega
    have now : d.nbits + 5 - 8 = k := by omega
    rw [now]
    refine ⟨rfl, ?_, ?_, ?_⟩
    · show k = 5 * (ds ++ [v]).length % 8
      omega
    · rw [List.length_append, List.length_singleton, count, length]
      omega
    · show number 256 ((d.out ++ [_]).map UInt8.toNat) = number 32 (ds ++ [v]) / 2 ^ k
      rw [List.map_append, List.map_singleton, number_concat, value, number_concat, left, Nat.shiftRight_eq_div_pow]
      show 256 * (number 32 ds / 2 ^ (k + 3)) + (32 * number 32 ds + v) % 2 ^ 32 / 2 ^ k % 256 = _
      clear pushed last bits nbits now left whole
      interval_cases k <;> omega
  · rw [if_neg whole]
    refine ⟨rfl, ?_, ?_, ?_⟩
    · show d.nbits + 5 = 5 * (ds ++ [v]).length % 8
      omega
    · show d.out.length = 5 * (ds ++ [v]).length / 8
      omega
    · show number 256 (d.out.map UInt8.toNat) = number 32 (ds ++ [v]) / 2 ^ (d.nbits + 5)
      rw [value, number_concat]
      clear pushed last bits
      have few : d.nbits < 3 := by omega
      generalize d.nbits = k at few
      interval_cases k <;> omega

theorem foldlM_push_read (vs : List Nat) {d : Sha1Decoder} {before : List Nat} (read : d.Read before)
    (small : ∀ v ∈ vs, v < 32) (room : (before ++ vs).length ≤ 32) :
    ∃ e, (vs.map Base32.symbol).foldlM Sha1Decoder.push d = some e ∧ e.Read (before ++ vs) := by
  induction vs generalizing d before with
  | nil => exact ⟨d, rfl, by rwa [List.append_nil]⟩
  | cons v vs ih =>
    have more : before.length < 32 := by
      rw [List.length_append, List.length_cons] at room
      omega
    obtain ⟨e, pushed, next⟩ := read.push (small v List.mem_cons_self) more
    obtain ⟨f, folded, all⟩ := ih next (fun w member => small w (List.mem_cons_of_mem v member))
      (by rwa [List.append_assoc])
    refine ⟨f, ?_, by rwa [List.append_assoc] at all⟩
    rw [List.map_cons, List.foldlM_cons, pushed]
    exact folded

theorem base32DecodeSha1_encode (h : ByteArr 20) : base32DecodeSha1 (Base32.encode h.val) = some h.val := by
  obtain ⟨ds, written, length, small, value⟩ := Base32.encode_twenty h
  have fresh : (⟨0, 0, []⟩ : Sha1Decoder).Read [] := ⟨rfl, rfl, rfl, rfl⟩
  obtain ⟨d, folded, read⟩ := foldlM_push_read ds fresh small (by rw [List.nil_append, length])
  rw [List.nil_append] at read
  have nbits := read.nbits
  have count := read.count
  have same := read.value
  rw [length] at nbits count
  rw [show d.nbits = 0 from nbits, Nat.pow_zero, Nat.div_one, value] at same
  have bytes (b : Bytes) : ∀ n ∈ b.map UInt8.toNat, n < 256 := by
    intro n member
    obtain ⟨c, -, rfl⟩ := List.mem_map.mp member
    exact c.toNat_lt
  have lengths : (d.out.map UInt8.toNat).length = (h.val.map UInt8.toNat).length := by
    rw [List.length_map, List.length_map, count, h.property]
  have out : d.out = h.val := by
    have numbers := number_injective (by decide) lengths (bytes d.out) (bytes h.val) same
    exact List.map_injective_iff.mpr (fun a b => UInt8.toNat_inj.mp) numbers
  unfold base32DecodeSha1
  rw [written, folded]
  show (if d.out.length ≠ 20 then none else some d.out) = some h.val
  rw [if_neg (not_not_intro count), out]

theorem mem_encode {h : ByteArr 20} {c : UInt8} (member : c ∈ Base32.encode h.val) : c ∈ Base32.alphabet := by
  obtain ⟨ds, written, -, small, -⟩ := Base32.encode_twenty h
  rw [written] at member
  obtain ⟨d, inside, rfl⟩ := List.mem_map.mp member
  have all : ∀ d < 32, Base32.symbol d ∈ Base32.alphabet := by decide
  exact all d (small d inside)

theorem length_encode (h : ByteArr 20) : (Base32.encode h.val).length = 32 := by
  obtain ⟨ds, written, length, -, -⟩ := Base32.encode_twenty h
  rw [written, List.length_map, length]

set_option maxRecDepth 2000 in
theorem upper_cases {c : UInt8} (symbol : c ∈ Base32.alphabet) :
    (c ≤ ch '7' → Base32.upper c = c) ∧ (¬ c ≤ ch '7' → ALPH.idxOf? (Base32.upper c) = none) := by
  have all : ∀ c ∈ Base32.alphabet,
      (c ≤ ch '7' → Base32.upper c = c) ∧ (¬ c ≤ ch '7' → ALPH.idxOf? (Base32.upper c) = none) := by decide
  exact all c symbol

theorem foldlM_push_none {s : Bytes} {c : UInt8} (member : c ∈ s) (unknown : ALPH.idxOf? c = none) (d : Sha1Decoder) :
    s.foldlM Sha1Decoder.push d = none := by
  induction s generalizing d with
  | nil => exact absurd member List.not_mem_nil
  | cons b s ih =>
    rw [List.foldlM_cons]
    rcases List.mem_cons.mp member with rfl | later
    · unfold Sha1Decoder.push
      rw [unknown]
      rfl
    · cases pushed : d.push b with
      | none => rfl
      | some e => exact ih later e

theorem base32DecodeSha1_upper {h : ByteArr 20} (digits : ∀ c ∈ Base32.encode h.val, c ≤ ch '7') :
    base32DecodeSha1 ((Base32.encode h.val).map Base32.upper) = some h.val := by
  have same : (Base32.encode h.val).map Base32.upper = Base32.encode h.val := by
    calc (Base32.encode h.val).map Base32.upper
        = (Base32.encode h.val).map id :=
          List.map_congr_left fun c member => (upper_cases (mem_encode member)).1 (digits c member)
      _ = Base32.encode h.val := List.map_id _
  rw [same, base32DecodeSha1_encode]

theorem base32DecodeSha1_letter {h : ByteArr 20} (letters : ¬ ∀ c ∈ Base32.encode h.val, c ≤ ch '7') :
    base32DecodeSha1 ((Base32.encode h.val).map Base32.upper) = none := by
  obtain ⟨c, member, letter⟩ := not_forall₂.mp letters
  have unknown := (upper_cases (mem_encode member)).2 letter
  unfold base32DecodeSha1
  rw [foldlM_push_none (List.mem_map_of_mem member) unknown]
  rfl

end TypeBit.Link
