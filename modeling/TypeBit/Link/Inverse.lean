import TypeBit.Link.Base32
import TypeBit.Link.Base58
import TypeBit.Link.Base64

/-! What the codecs write, they read again. The two that regroup bits keep a few of them back between the digits; what is
read and what is kept back is the number of the digits so far. -/

namespace TypeBit.Link
open Radix

namespace Base32

theorem encode_digits (bs : Bytes) : ∃ (ds : List Nat) (pad : Nat), encode bs = ds.map symbol ∧ (∀ d ∈ ds, d < 32) ∧ pad < 5 ∧
    5 * ds.length = 8 * bs.length + pad ∧ number 32 ds = number 256 (bs.map UInt8.toNat) * 2 ^ pad := by
  have fresh : (⟨0, 0, []⟩ : Encoder).Wrote [] [] :=
    ⟨rfl, fun d member => absurd member List.not_mem_nil, by decide, by decide, rfl, rfl⟩
  obtain ⟨ds, out, small, few, rest, value, count⟩ := foldl_push_wrote bs fresh
  rw [List.nil_append] at value count
  unfold encode
  dsimp only
  generalize bs.foldl Encoder.push ⟨0, 0, []⟩ = e at out few rest value count
  by_cases left : 0 < e.bits
  · have acc : (e.acc <<< (5 - e.bits)) % 2 ^ 32 &&& 0x1f = e.acc * 2 ^ (5 - e.bits) := by
      have fits : e.acc * 2 ^ (5 - e.bits) < 2 ^ 5 := by
        calc e.acc * 2 ^ (5 - e.bits) < 2 ^ e.bits * 2 ^ (5 - e.bits) := Nat.mul_lt_mul_of_pos_right rest (Nat.two_pow_pos _)
          _ = 2 ^ 5 := by rw [← Nat.pow_add, Nat.add_sub_cancel' few.le]
      rw [Nat.shiftLeft_eq, Nat.mod_eq_of_lt (by omega), show (0x1f : Nat) = 2 ^ 5 - 1 from rfl, Nat.and_two_pow_sub_one_eq_mod,
        Nat.mod_eq_of_lt fits]
    have digit : e.acc * 2 ^ (5 - e.bits) < 32 := by
      rw [← acc]
      exact Nat.and_lt_two_pow _ (by decide : 0x1f < 2 ^ 5)
    refine ⟨ds ++ [e.acc * 2 ^ (5 - e.bits)], 5 - e.bits, ?_, ?_, by omega, ?_, ?_⟩
    · rw [if_pos left, out, acc, List.map_append]
      rfl
    · intro d member
      rcases List.mem_append.mp member with old | last
      · exact small d old
      · rwa [List.mem_singleton.mp last]
    · rw [List.length_append, List.length_singleton]
      omega
    · have power : 2 ^ e.bits * 2 ^ (5 - e.bits) = 32 := by
        rw [← Nat.pow_add, Nat.add_sub_cancel' few.le]
      rw [number_concat, ← value, ← power]
      ring
  · have none : e.bits = 0 := by omega
    rw [none, Nat.pow_zero, Nat.mul_one] at value
    rw [none] at rest
    refine ⟨ds, 0, ?_, small, by decide, by omega, ?_⟩
    · rw [if_neg left, out]
    · rw [← value, Nat.pow_zero, Nat.mul_one]
      omega

theorem digit_symbol {d : Nat} (small : d < 32) : symbol d ≠ ch '=' ∧ digit (symbol d) = some d.toUInt8 := by
  have all : ∀ d < 32, symbol d ≠ ch '=' ∧ digit (symbol d) = some d.toUInt8 := by decide
  exact all d small

/-- The decoder has read the digits, but for fewer than eight bits. -/
structure Decoder.Read (d : Decoder) (ds : List Nat) : Prop where
  few : d.bits < 8
  rest : d.acc < 2 ^ d.bits
  value : number 256 (d.out.map UInt8.toNat) * 2 ^ d.bits + d.acc = number 32 ds
  count : 8 * d.out.length + d.bits = 5 * ds.length

theorem Decoder.Read.push {d : Decoder} {ds : List Nat} (read : d.Read ds) {v : Nat} (small : v < 32) :
    ∃ e, d.push v.toUInt8 = .ok e ∧ e.Read (ds ++ [v]) := by
  obtain ⟨few, rest, value, count⟩ := read
  have width : 2 ^ d.bits ≤ 2 ^ 7 := Nat.pow_le_pow_right (by decide) (by omega)
  have byte : v.toUInt8.toNat = v := Nat.mod_eq_of_lt (by omega)
  have acc : (d.acc <<< 5) % 2 ^ 32 ||| v.toUInt8.toNat = d.acc * 32 + v := by
    rw [byte, Nat.shiftLeft_eq, Nat.mod_eq_of_lt (by omega), ← Nat.shiftLeft_eq, Nat.shiftLeft_add_eq_or_of_lt small]
  have fits : d.acc * 32 + v < 2 ^ (d.bits + 5) := by
    rw [Nat.pow_add]
    omega
  have whole : number 256 (d.out.map UInt8.toNat) * 2 ^ (d.bits + 5) + (d.acc * 32 + v) = number 32 (ds ++ [v]) := by
    rw [number_concat, ← value, Nat.pow_add]
    ring
  have length : (ds ++ [v]).length = ds.length + 1 := List.length_append
  unfold Decoder.push
  rw [add32_ok (by omega), acc]
  by_cases enough : 8 ≤ d.bits + 5
  · obtain ⟨k, left⟩ : ∃ k, d.bits + 5 = k + 8 := Nat.exists_eq_add_of_le' enough
    rw [left] at fits whole
    have mask : (d.acc * 32 + v) &&& (1 <<< k - 1) = (d.acc * 32 + v) % 2 ^ k := by
      rw [Nat.one_shiftLeft, Nat.and_two_pow_sub_one_eq_mod]
    have top : ((d.acc * 32 + v) >>> k).toUInt8.toNat = (d.acc * 32 + v) / 2 ^ k := by
      rw [Nat.shiftRight_eq_div_pow]
      apply Nat.mod_eq_of_lt
      apply Nat.div_lt_of_lt_mul
      rwa [← Nat.pow_add]
    refine ⟨⟨(d.acc * 32 + v) % 2 ^ k, k, d.out ++ [((d.acc * 32 + v) >>> k).toUInt8]⟩, ?_, (by omega : k < 8),
      Nat.mod_lt _ (Nat.two_pow_pos k), ?_, ?_⟩
    · show (if 8 ≤ d.bits + 5 then _ else _) = _
      rw [if_pos enough, left, Nat.add_sub_cancel, mask]
      rfl
    · dsimp only
      rw [List.map_append, List.map_singleton, number_concat, top, ← whole, Nat.pow_add]
      calc (256 * number 256 (d.out.map UInt8.toNat) + (d.acc * 32 + v) / 2 ^ k) * 2 ^ k + (d.acc * 32 + v) % 2 ^ k
          = 256 * number 256 (d.out.map UInt8.toNat) * 2 ^ k +
              (2 ^ k * ((d.acc * 32 + v) / 2 ^ k) + (d.acc * 32 + v) % 2 ^ k) := by ring
        _ = 256 * number 256 (d.out.map UInt8.toNat) * 2 ^ k + (d.acc * 32 + v) := by rw [Nat.div_add_mod]
        _ = number 256 (d.out.map UInt8.toNat) * (2 ^ k * 2 ^ 8) + (d.acc * 32 + v) := by ring
    · dsimp only
      rw [List.length_append, List.length_singleton]
      omega
  · refine ⟨⟨d.acc * 32 + v, d.bits + 5, d.out⟩, ?_, by dsimp only; omega, fits, whole, ?_⟩
    · show (if 8 ≤ d.bits + 5 then _ else _) = _
      rw [if_neg enough]
      rfl
    · dsimp only
      omega

theorem foldlM_push_read (vs : List Nat) {d : Decoder} {before : List Nat} (read : d.Read before) (small : ∀ v ∈ vs, v < 32) :
    ∃ e, (vs.map Nat.toUInt8).foldlM Decoder.push d = .ok e ∧ e.Read (before ++ vs) := by
  induction vs generalizing d before with
  | nil => exact ⟨d, rfl, by rwa [List.append_nil]⟩
  | cons v vs ih =>
    obtain ⟨e, pushed, next⟩ := read.push (small v List.mem_cons_self)
    obtain ⟨f, folded, all⟩ := ih next (fun w member => small w (List.mem_cons_of_mem v member))
    refine ⟨f, ?_, by rwa [List.append_assoc] at all⟩
    rw [List.map_cons, List.foldlM_cons, pushed]
    exact folded

theorem digits_symbols {ds : List Nat} (small : ∀ d ∈ ds, d < 32) :
    ((ds.map symbol).filter (fun b => decide (b ≠ ch '='))).mapM digit = some (ds.map Nat.toUInt8) := by
  induction ds with
  | nil => rfl
  | cons d tail ih =>
    obtain ⟨letter, read⟩ := digit_symbol (small d List.mem_cons_self)
    rw [List.map_cons, List.filter_cons, if_pos (decide_eq_true letter), List.mapM_cons, read,
      ih (fun e member => small e (List.mem_cons_of_mem d member))]
    rfl

theorem decode_encode (bs : Bytes) : decode (encode bs) = .ok (some bs) := by
  obtain ⟨ds, pad, written, small, few, length, number_eq⟩ := encode_digits bs
  have fresh : (⟨0, 0, []⟩ : Decoder).Read [] := ⟨by decide, by decide, rfl, rfl⟩
  obtain ⟨d, folded, read⟩ := foldlM_push_read ds fresh small
  rw [List.nil_append] at read
  have count := read.count
  have bits := read.few
  have pads : d.bits = pad := by omega
  have rest := read.rest
  have value := read.value
  rw [number_eq, pads] at value
  rw [pads] at rest
  have zero : d.acc = 0 := by
    have left := congrArg (· % 2 ^ pad) value
    rwa [Nat.mul_add_mod_self_right, Nat.mul_mod_left, Nat.mod_eq_of_lt rest] at left
  have out : d.out = bs := by
    have lengths : (d.out.map UInt8.toNat).length = (bs.map UInt8.toNat).length := by
      rw [List.length_map, List.length_map]
      omega
    have numbers : number 256 (d.out.map UInt8.toNat) = number 256 (bs.map UInt8.toNat) := by
      rw [zero, Nat.add_zero] at value
      exact Nat.eq_of_mul_eq_mul_right (Nat.two_pow_pos pad) value
    have same := number_injective (by decide) lengths Base58.toNat_lt_of_mem_map Base58.toNat_lt_of_mem_map numbers
    exact List.map_injective_iff.mpr (fun a b => UInt8.toNat_inj.mp) same
  unfold decode
  rw [written, digits_symbols small]
  dsimp only
  split_ifs with none
  · have empty : ds = [] := List.map_eq_nil_iff.mp none
    rw [empty, List.length_nil] at length
    have nothing : bs = [] := List.length_eq_zero_iff.mp (by omega)
    rw [nothing]
  · rw [folded]
    show Except.ok (if d.acc ≠ 0 then Option.none else some d.out) = _
    rw [if_neg (not_not_intro zero), out]

end Base32

/-- Every codec reads what it writes, and base58 writes what it reads. -/
theorem codecs_invert : (∀ bs, Base32.decode (Base32.encode bs) = .ok (some bs)) ∧
    (∀ bs, Base58.decode (Base58.encode bs) = .ok (some bs)) ∧
    (∀ v bs, Base64.decode v (Base64.encode v bs) = some bs) ∧
    ∀ s bs, Base58.decode s = .ok (some bs) → Base58.encode bs = s :=
  ⟨Base32.decode_encode, Base58.decode_encode, Base64.decode_encode, fun _ _ accepted => Base58.encode_decode accepted⟩

/-- Leading zeros are kept. -/
theorem codecs_invert_zeros : Base58.decode (ascii "116") = .ok (some [0, 0, 5]) ∧ Base58.encode [0, 0, 5] = ascii "116" := by
  have read : Base58.decode (ascii "116") = .ok (some [0, 0, 5]) := by decide
  exact ⟨read, codecs_invert.2.2.2 (ascii "116") [0, 0, 5] read⟩

end TypeBit.Link
