import TypeBit.Piece.Packed

/-! The network form of a bitset against its bits: which byte strings are taken, and what is made of them. -/

namespace TypeBit.Bitfield

theorem length_loaded (bytes : Bytes) (count : Nat) :
    (maskLast (loadBytes (List.replicate (divCeil count 64) 0) bytes) count).length = divCeil count 64 := by
  rw [length_maskLast, length_loadBytes, List.length_replicate]

def load (b : Bitfield) (bytes : Bytes) (count : Nat) : Bitfield × Result Unit :=
  if bytes.length ≠ divCeil count 8 then (b, .error .protocol)
  else if count % 8 ≠ 0 ∧ (bytes.getLastD 0) &&& ((1 <<< (8 - count % 8).toUInt8) - 1) ≠ 0 then (b, .error .protocol)
  else
    let words := maskLast (loadBytes (List.replicate (divCeil count 64) 0) bytes) count
    (⟨words, count, recount words, length_loaded bytes count⟩, .ok ())

def wireBit (bytes : Bytes) (i : Nat) : Bool := (bytes.getD (i / 8) 0).toBitVec.getLsbD (7 - i % 8)

/-- No bit of the bytes is set from index `count` on. -/
def SpareZero (bytes : Bytes) (count : Nat) : Prop := ∀ i, count ≤ i → wireBit bytes i = false

theorem wireBit_past {bytes : Bytes} {i : Nat} (past : 8 * bytes.length ≤ i) : wireBit bytes i = false := by
  rw [wireBit, List.getD_eq_default _ _ (by omega)]
  simp

/-! ### Loading -/

theorem octetBit_eq (byte : UInt8) {k : Nat} (below : k < 8) : octetBit byte k = byte.toBitVec.getLsbD (7 - k) := by
  rw [octetBit, BitVec.getLsbD_reverse, BitVec.getMsbD, decide_eq_true below, Bool.true_and]

theorem bitAt_loaded {bytes : Bytes} {count : Nat} (sized : bytes.length = divCeil count 8) (i : Nat) :
    bitAt (maskLast (loadBytes (List.replicate (divCeil count 64) 0) bytes) count) i =
      (wireBit bytes i && decide (i < count)) := by
  have length : (loadBytes (List.replicate (divCeil count 64) 0) bytes).length = divCeil count 64 := by
    rw [length_loadBytes, List.length_replicate]
  have room : bytes.length ≤ 8 * (List.replicate (divCeil count 64) (0 : BitVec 64)).length := by
    rw [List.length_replicate, sized, divCeil, divCeil]
    omega
  rw [bitAt_maskLast length, bitAt_loadBytes _ _ room, bitAt_replicate, Bool.false_or,
    octetBit_eq _ (Nat.mod_lt i (by decide))]
  rfl

theorem getLsbD_spareMask : ∀ pad < 8, 0 < pad → ∀ k < 8,
    (((1 : UInt8) <<< pad.toUInt8) - 1).toBitVec.getLsbD k = decide (k < pad) := by
  decide

theorem spare_iff {bytes : Bytes} {count : Nat} (sized : bytes.length = divCeil count 8) :
    ¬ (count % 8 ≠ 0 ∧ (bytes.getLastD 0) &&& ((1 <<< (8 - count % 8).toUInt8) - 1) ≠ 0) ↔ SpareZero bytes count := by
  rw [divCeil] at sized
  by_cases whole : count % 8 = 0
  · constructor
    · intro _ i past
      exact wireBit_past (by omega)
    · intro _ partial_
      exact partial_.1 whole
  · have last : bytes.getLastD 0 = bytes.getD (count / 8) 0 := by
      rw [List.getLastD_eq_getLast?, List.getLast?_eq_getElem?, List.getD_eq_getElem?_getD]
      congr 2
      omega
    have bits : (bytes.getLastD 0) &&& ((1 <<< (8 - count % 8).toUInt8) - 1) = 0 ↔
        ∀ k < 8 - count % 8, (bytes.getD (count / 8) 0).toBitVec.getLsbD k = false := by
      rw [last, ← UInt8.toBitVec_inj, UInt8.toBitVec_and]
      have mask := getLsbD_spareMask (8 - count % 8) (by omega) (by omega)
      constructor
      · intro zero k few
        have unmarked := congrArg (fun w => w.getLsbD k) zero
        simp only [BitVec.getLsbD_and, mask k (by omega), decide_eq_true few, Bool.and_true] at unmarked
        rw [unmarked]
        simp
      · intro unmarked
        apply BitVec.eq_of_getLsbD_eq
        intro k inside
        rw [BitVec.getLsbD_and, mask k inside]
        by_cases few : k < 8 - count % 8
        · rw [unmarked k few]
          simp
        · rw [decide_eq_false few]
          simp
    rw [not_and, not_not, forall_prop_of_true whole, bits]
    constructor
    · intro unmarked i past
      by_cases inside : i < 8 * bytes.length
      · have byte : i / 8 = count / 8 := by omega
        rw [wireBit, byte]
        exact unmarked _ (by omega)
      · exact wireBit_past (by omega)
    · intro spare k few
      have unmarked := spare (8 * (count / 8) + (7 - k)) (by omega)
      have byte : (8 * (count / 8) + (7 - k)) / 8 = count / 8 := by omega
      have place : 7 - (8 * (count / 8) + (7 - k)) % 8 = k := by omega
      rwa [wireBit, byte, place] at unmarked

theorem fromBytes_ok_iff (bytes : Bytes) (count : Nat) :
    (∃ c, fromBytes bytes count = .ok c) ↔ bytes.length = divCeil count 8 ∧ SpareZero bytes count := by
  constructor
  · rintro ⟨c, loaded⟩
    obtain ⟨sized, rest⟩ := guard_eq_ok.mp loaded
    obtain ⟨spare, -⟩ := guard_eq_ok.mp rest
    have length := not_not.mp sized
    exact ⟨length, (spare_iff length).mp spare⟩
  · rintro ⟨sized, spare⟩
    exact ⟨_, guard_eq_ok.mpr ⟨not_not.mpr sized, guard_eq_ok.mpr ⟨(spare_iff sized).mpr spare, rfl⟩⟩⟩

theorem get_fromBytes {bytes : Bytes} {count : Nat} {c : Bitfield} (loaded : fromBytes bytes count = .ok c) {i : Nat}
    (inside : i < count) : c.get i = wireBit bytes i := by
  obtain ⟨sized, rest⟩ := guard_eq_ok.mp loaded
  obtain ⟨-, value⟩ := guard_eq_ok.mp rest
  cases value
  rw [get_eq_bitAt inside]
  dsimp only
  rw [bitAt_loaded (not_not.mp sized), decide_eq_true inside, Bool.and_true]

theorem load_eq (b : Bitfield) (bytes : Bytes) (count : Nat) :
    (∀ c, fromBytes bytes count = .ok c → b.load bytes count = (c, .ok ())) ∧
      ∀ e, fromBytes bytes count = .error e → b.load bytes count = (b, .error e) := by
  unfold fromBytes load
  split_ifs with sized spare
  · exact ⟨fun c loaded => (by cases loaded), fun e failed => (by cases failed; rfl)⟩
  · exact ⟨fun c loaded => (by cases loaded), fun e failed => (by cases failed; rfl)⟩
  · exact ⟨fun c loaded => (by cases loaded; rfl), fun e failed => (by cases failed)⟩

/-- The wire codec: what is written loads as it was, exactly the byte strings of the right length without spare bits load,
bit `i` comes from bit `7 - i % 8` of byte `i / 8`, and an error leaves the receiver alone. -/
theorem wire_codec {b : Bitfield} (built : Built b) (bytes : Bytes) (n : Nat) :
    fromBytes b.toBytes b.len = .ok b ∧
      ((∃ c, fromBytes bytes n = .ok c) ↔ bytes.length = divCeil n 8 ∧ SpareZero bytes n) ∧
      (∀ c, fromBytes bytes n = .ok c →
        c.len = n ∧ (∀ i < n, c.get i = wireBit bytes i) ∧ b.load bytes n = (c, .ok ())) ∧
      ∀ e, fromBytes bytes n = .error e → b.load bytes n = (b, .error e) := by
  refine ⟨fromBytes_toBytes built.exact.padding built.exact.counted, fromBytes_ok_iff bytes n, ?_, (load_eq b bytes n).2⟩
  intro c loaded
  exact ⟨len_fromBytes loaded, fun i inside => get_fromBytes loaded inside, (load_eq b bytes n).1 c loaded⟩

/-- Nine bits in two bytes, and a spare bit that is set. -/
theorem wire_codec_nine :
    fromBytes ((new 9).set 8).toBytes 9 = .ok ((new 9).set 8) ∧ ((new 9).set 8).toBytes = [0, 0x80] ∧
      fromBytes [0, 0xC0] 9 = .error .protocol :=
  ⟨(wire_codec (.set 8 (.new 9)) [] 0).1, by decide, by decide⟩

end TypeBit.Bitfield
