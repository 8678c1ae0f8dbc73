import TypeBit.Link.Text

/-! IPv6 literals (`parse_ipv6` of `links.rs` and of `tracker.rs`). Both pad a compressed literal to eight groups by
subtracting from eight what is written after the `::`, and skip empty groups wherever they are. -/

namespace TypeBit
set_option maxRecDepth 20000

/-! ### The two parsers -/

namespace Link
open Trackers

def octets (groups : List Nat) : Bytes := groups.flatMap (fun g => [(g / 256).toUInt8, g.toUInt8])

theorem length_octets (groups : List Nat) : (octets groups).length = 2 * groups.length := by
  induction groups with
  | nil => rfl
  | cons g tail ih =>
    rw [octets, List.flatMap_cons, List.length_append, ← octets, ih, List.length_cons]
    exact (Nat.add_comm 2 _).trans (Nat.mul_succ 2 _).symm

theorem length_octets_eight {groups : List Nat} (eight : groups.length = 8) : (octets groups).length = 16 := by
  rw [length_octets, eight]

def fromGroups (groups : List Nat) : Option (ByteArr 16) :=
  if eight : groups.length = 8 then some ⟨octets groups, length_octets_eight eight⟩ else none

def groupsOf (s : Bytes) : List Bytes := (splitOn (ch ':') s).filter (fun g => decide (g ≠ []))

def padZeros (groups : List Nat) (right : Nat) : Except Fault (List Nat) :=
  if right ≤ 8 then .ok (groups ++ List.replicate (8 - right - groups.length) 0) else .error .underflow

def parseIpv6 (s : Bytes) : Except Fault (Option (ByteArr 16)) :=
  match splitDouble (ch ':') s with
  | some (l, r) =>
      match (groupsOf l).mapM fromStrRadix16 with
      | none => .ok none
      | some left => do
          let groups ← padZeros left (groupsOf r).length
          match (groupsOf r).mapM fromStrRadix16 with
          | none => .ok none
          | some right => .ok (fromGroups (groups ++ right))
  | none =>
      match (splitOn (ch ':') s).mapM fromStrRadix16 with
      | none => .ok none
      | some groups => .ok (fromGroups groups)

end Link

namespace Trackers
open Link

def parseIpv6 (s : Bytes) : Except Fault (Option (ByteArr 16)) :=
  match splitDouble (ch ':') s with
  | some (l, r) =>
      let left := groupsOf l
      let right := groupsOf r
      match left.mapM fromStrRadix16 with
      | none => .ok none
      | some groups => do
          let groups ← padZeros groups right.length
          match right.mapM fromStrRadix16 with
          | none => .ok none
          | some more => .ok (fromGroups (groups ++ more))
  | none =>
      match (splitOn (ch ':') s).mapM fromStrRadix16 with
      | none => .ok none
      | some groups => .ok (fromGroups groups)

end Trackers

namespace Link
open Trackers

/-! ### The text of an address -/

def Hextet (g : Bytes) : Prop := 1 ≤ g.length ∧ g.length ≤ 4 ∧ g.all isHex = true

instance (g : Bytes) : Decidable (Hextet g) := inferInstanceAs (Decidable (_ ∧ _ ∧ _))

/-- The text writes the address: eight groups, or fewer around one `::` that stands for the missing zeros. -/
def Writes (s : Bytes) (address : ByteArr 16) : Prop :=
  (∃ groups : List Bytes, (∀ g ∈ groups, Hextet g) ∧ groups.length = 8 ∧ s = joined (ch ':') groups ∧
      address.val = octets (groups.map hexValue)) ∨
    ∃ left right : List Bytes, (∀ g ∈ left ++ right, Hextet g) ∧ (left ++ right).length < 8 ∧
      s = joined (ch ':') left ++ ch ':' :: ch ':' :: joined (ch ':') right ∧
      address.val = octets (left.map hexValue ++ List.replicate (8 - (left ++ right).length) 0 ++ right.map hexValue)

/-- Both parsers come to the same result without a fault, and what they accept writes the address they give. -/
def ReadsExactly (s : Bytes) : Prop :=
  ∃ r, parseIpv6 s = .ok r ∧ Trackers.parseIpv6 s = .ok r ∧ ∀ address, r = some address → Writes s address

def Readable (groups : List Bytes) : Prop := ∀ g ∈ groups, (fromStrRadix16 g).isSome = true

instance (groups : List Bytes) : Decidable (Readable groups) :=
  inferInstanceAs (Decidable (∀ g ∈ groups, (fromStrRadix16 g).isSome = true))

/-- A side of a `::` without empty groups: nothing, or groups with single colons between them. -/
def Tidy (side : Bytes) : Prop := side = [] ∨ [] ∉ splitOn (ch ':') side

instance (side : Bytes) : Decidable (Tidy side) := inferInstanceAs (Decidable (_ ∨ _))

def RegularAround (l r : Bytes) : Prop :=
  Readable (groupsOf l) → (groupsOf r).length ≤ 8 ∧
    (Readable (groupsOf r) → (groupsOf l ++ groupsOf r).length ≤ 8 →
      (groupsOf l ++ groupsOf r).length < 8 ∧ Tidy l ∧ Tidy r ∧ ∀ g ∈ groupsOf l ++ groupsOf r, Hextet g)

/-- No more than eight groups follow a readable left side, and what would be accepted is a proper address. -/
def Regular (s : Bytes) : Prop :=
  match splitDouble (ch ':') s with
  | some (l, r) => RegularAround l r
  | none =>
      Readable (splitOn (ch ':') s) → (splitOn (ch ':') s).length = 8 → ∀ g ∈ splitOn (ch ':') s, Hextet g

/-! ### Groups -/

theorem hexNibble_le {c d : UInt8} (digit : hexNibble c = some d) : d.toNat ≤ 15 := by
  have bound := forall_byte (P := fun c => ((hexNibble c).getD 0).toNat ≤ 15) (by decide) c
  rwa [digit] at bound

theorem hexValue_foldl_lt (digits : Bytes) (n : Nat) :
    digits.foldl (fun n c => n * 16 + ((hexNibble c).getD 0).toNat) n < (n + 1) * 16 ^ digits.length := by
  induction digits generalizing n with
  | nil => simp
  | cons c tail ih =>
    have digit : ((hexNibble c).getD 0).toNat ≤ 15 := by
      cases found : hexNibble c with
      | none => decide
      | some d => exact hexNibble_le found
    calc (c :: tail).foldl (fun n c => n * 16 + ((hexNibble c).getD 0).toNat) n
        < (n * 16 + ((hexNibble c).getD 0).toNat + 1) * 16 ^ tail.length := ih _
      _ ≤ ((n + 1) * 16) * 16 ^ tail.length := Nat.mul_le_mul_right _ (by omega)
      _ = (n + 1) * 16 ^ (c :: tail).length := by rw [List.length_cons, Nat.pow_succ', Nat.mul_assoc]

theorem isHex_sign : isHex (ch '+') = false ∧ isHex (ch ':') = false := by decide

theorem fromStrRadix16_hextet {g : Bytes} (hextet : Hextet g) : fromStrRadix16 g = some (hexValue g) := by
  obtain ⟨filled, short, hex⟩ := hextet
  have nonempty : g ≠ [] := List.ne_nil_of_length_pos filled
  have unsigned : ¬ g.head? = some (ch '+') := by
    intro signed
    have digit := List.all_eq_true.mp hex _ (List.mem_of_head? signed)
    rw [isHex_sign.1] at digit
    cases digit
  have below : hexValue g < 2 ^ 16 := by
    have bound := hexValue_foldl_lt g 0
    have width : 16 ^ g.length ≤ 16 ^ 4 := Nat.pow_le_pow_right (by decide) short
    unfold hexValue
    omega
  unfold fromStrRadix16
  dsimp only
  rw [if_neg unsigned, if_neg (by simp [nonempty, hex]), if_pos below]

theorem Hextet.solid {g : Bytes} (hextet : Hextet g) : Solid (ch ':') g := by
  refine ⟨List.ne_nil_of_length_pos hextet.1, fun member => ?_⟩
  have digit := List.all_eq_true.mp hextet.2.2 _ member
  rw [isHex_sign.2] at digit
  cases digit

def groupValue (g : Bytes) : Nat := (fromStrRadix16 g).getD 0

theorem mapM_fromStrRadix16 (groups : List Bytes) :
    groups.mapM fromStrRadix16 = if Readable groups then some (groups.map groupValue) else none := by
  induction groups with
  | nil => rfl
  | cons g tail ih =>
    have cons : Readable (g :: tail) ↔ (fromStrRadix16 g).isSome = true ∧ Readable tail := List.forall_mem_cons
    cases read : fromStrRadix16 g with
    | none =>
      have unreadable : ¬ Readable (g :: tail) := fun both => absurd (cons.mp both).1 (by rw [read]; decide)
      rw [if_neg unreadable, List.mapM_cons, read]
      rfl
    | some v =>
      rw [List.mapM_cons, ih, read]
      by_cases rest : Readable tail
      · rw [if_pos rest, if_pos (cons.mpr ⟨by rw [read]; rfl, rest⟩), List.map_cons, groupValue, read]
        rfl
      · rw [if_neg rest, if_neg (fun both => rest (cons.mp both).2)]
        rfl

theorem map_groupValue {groups : List Bytes} (hextets : ∀ g ∈ groups, Hextet g) :
    groups.map groupValue = groups.map hexValue := by
  apply List.map_congr_left
  intro g member
  rw [groupValue, fromStrRadix16_hextet (hextets g member)]
  rfl

theorem groupsOf_joined {groups : List Bytes} (solid : ∀ g ∈ groups, Solid (ch ':') g) :
    groupsOf (joined (ch ':') groups) = groups := by
  by_cases filled : groups = []
  · subst filled
    rfl
  · rw [groupsOf, splitOn_joined filled fun g member => (solid g member).2, List.filter_eq_self]
    exact fun g member => decide_eq_true (solid g member).1

theorem joined_groupsOf {side : Bytes} (tidy : Tidy side) : joined (ch ':') (groupsOf side) = side := by
  rcases tidy with rfl | solid
  · rfl
  · have whole : groupsOf side = splitOn (ch ':') side := by
      rw [groupsOf, List.filter_eq_self]
      intro g member
      exact decide_eq_true fun empty => solid (empty ▸ member)
    rw [whole, joined_splitOn]

theorem tidy_joined {groups : List Bytes} (solid : ∀ g ∈ groups, Solid (ch ':') g) : Tidy (joined (ch ':') groups) := by
  by_cases filled : groups = []
  · exact .inl (by rw [filled]; rfl)
  · right
    rw [splitOn_joined filled fun g member => (solid g member).2]
    exact fun empty => (solid [] empty).1 rfl

/-! ### What they accept -/

section Cases
variable {s l r : Bytes}

theorem parseIpv6_double (double : splitDouble (ch ':') s = some (l, r)) (left : Readable (groupsOf l))
    (few : (groupsOf r).length ≤ 8) (right : Readable (groupsOf r)) :
    parseIpv6 s = .ok (fromGroups ((groupsOf l).map groupValue ++
      List.replicate (8 - (groupsOf l ++ groupsOf r).length) 0 ++ (groupsOf r).map groupValue)) := by
  have zeros : 8 - (groupsOf r).length - ((groupsOf l).map groupValue).length =
      8 - (groupsOf l ++ groupsOf r).length := by
    rw [List.length_map, List.length_append]
    omega
  rw [parseIpv6, double]
  dsimp only
  rw [mapM_fromStrRadix16, if_pos left, mapM_fromStrRadix16, if_pos right]
  simp only [padZeros, if_pos few, zeros]
  rfl

theorem parseIpv6_single (single : splitDouble (ch ':') s = none) (readable : Readable (splitOn (ch ':') s)) :
    parseIpv6 s = .ok (fromGroups ((splitOn (ch ':') s).map groupValue)) := by
  rw [parseIpv6, single]
  dsimp only
  rw [mapM_fromStrRadix16, if_pos readable]

theorem fromGroups_eq_some {groups : List Nat} {address : ByteArr 16} :
    fromGroups groups = some address ↔ groups.length = 8 ∧ address.val = octets groups := by
  unfold fromGroups
  split_ifs with eight
  · rw [Option.some.injEq, Subtype.ext_iff]
    exact ⟨fun same => ⟨eight, same.symm⟩, fun both => both.2.symm⟩
  · simp [eight]

theorem writes_double_iff (double : splitDouble (ch ':') s = some (l, r)) {address : ByteArr 16} :
    Writes s address ↔ (groupsOf l ++ groupsOf r).length < 8 ∧ Tidy l ∧ Tidy r ∧
      (∀ g ∈ groupsOf l ++ groupsOf r, Hextet g) ∧
      address.val = octets ((groupsOf l).map hexValue ++
        List.replicate (8 - (groupsOf l ++ groupsOf r).length) 0 ++ (groupsOf r).map hexValue) := by
  constructor
  · intro writes
    rcases writes with ⟨groups, hextets, -, rfl, -⟩ | ⟨left, right, hextets, few, rfl, value⟩
    · have solid : ∀ g ∈ groups, Solid (ch ':') g := fun g member => (hextets g member).solid
      have none := (splitDouble_joined solid).1
      rw [double] at none
      cases none
    · have solidLeft : ∀ g ∈ left, Solid (ch ':') g := fun g member => (hextets g (List.mem_append_left _ member)).solid
      have solidRight : ∀ g ∈ right, Solid (ch ':') g := fun g member => (hextets g (List.mem_append_right _ member)).solid
      have split := (splitDouble_joined solidLeft).2 (joined (ch ':') right)
      rw [double] at split
      cases split
      rw [groupsOf_joined solidLeft, groupsOf_joined solidRight]
      exact ⟨few, tidy_joined solidLeft, tidy_joined solidRight, hextets, value⟩
  · intro around
    obtain ⟨few, tidyL, tidyR, hextets, value⟩ := around
    refine .inr ⟨groupsOf l, groupsOf r, hextets, few, ?_, value⟩
    rw [joined_groupsOf tidyL, joined_groupsOf tidyR]
    exact eq_of_splitDouble double

theorem writes_single_iff (single : splitDouble (ch ':') s = none) {address : ByteArr 16} :
    Writes s address ↔ (∀ g ∈ splitOn (ch ':') s, Hextet g) ∧ (splitOn (ch ':') s).length = 8 ∧
      address.val = octets ((splitOn (ch ':') s).map hexValue) := by
  constructor
  · intro writes
    rcases writes with ⟨groups, hextets, eight, rfl, value⟩ | ⟨left, right, hextets, -, rfl, -⟩
    · have filled : groups ≠ [] := List.ne_nil_of_length_pos (by omega)
      rw [splitOn_joined filled fun g member => (hextets g member).solid.2]
      exact ⟨hextets, eight, value⟩
    · have solid : ∀ g ∈ left, Solid (ch ':') g := fun g member => (hextets g (List.mem_append_left right member)).solid
      have found := (splitDouble_joined solid).2 (joined (ch ':') right)
      rw [single] at found
      cases found
  · intro groups
    obtain ⟨hextets, eight, value⟩ := groups
    exact .inl ⟨_, hextets, eight, (joined_splitOn s).symm, value⟩

end Cases

/-! ### Regular texts -/

section Regular
variable {s l r : Bytes}

theorem readsExactly_refused (refused : parseIpv6 s = .ok none) : ReadsExactly s := by
  refine ⟨none, refused, refused, ?_⟩
  intro address accepted
  cases accepted

theorem readsExactly_fromGroups {groups : List Nat} (parsed : parseIpv6 s = .ok (fromGroups groups)) :
    ReadsExactly s ↔ ∀ address : ByteArr 16, groups.length = 8 → address.val = octets groups → Writes s address := by
  constructor
  · intro reads address eight value
    obtain ⟨result, same, -, writes⟩ := reads
    rw [parsed] at same
    apply writes address
    rw [← Except.ok.inj same, fromGroups_eq_some]
    exact ⟨eight, value⟩
  · intro writes
    refine ⟨fromGroups groups, parsed, parsed, ?_⟩
    intro address accepted
    obtain ⟨eight, value⟩ := fromGroups_eq_some.mp accepted
    exact writes address eight value

theorem readsExactly_single (single : splitDouble (ch ':') s = none) (readable : Readable (splitOn (ch ':') s)) :
    ReadsExactly s ↔ ((splitOn (ch ':') s).length = 8 → ∀ g ∈ splitOn (ch ':') s, Hextet g) := by
  rw [readsExactly_fromGroups (parseIpv6_single single readable), List.length_map]
  constructor
  · intro writes eight
    have whole := writes ⟨_, length_octets_eight (by rwa [List.length_map])⟩ eight rfl
    exact ((writes_single_iff single).mp whole).1
  · intro hextets address eight value
    rw [map_groupValue (hextets eight)] at value
    exact (writes_single_iff single).mpr ⟨hextets eight, eight, value⟩

theorem readsExactly_double (double : splitDouble (ch ':') s = some (l, r)) (left : Readable (groupsOf l))
    (few : (groupsOf r).length ≤ 8) (right : Readable (groupsOf r)) :
    ReadsExactly s ↔ ((groupsOf l ++ groupsOf r).length ≤ 8 →
      (groupsOf l ++ groupsOf r).length < 8 ∧ Tidy l ∧ Tidy r ∧ ∀ g ∈ groupsOf l ++ groupsOf r, Hextet g) := by
  have count : ((groupsOf l).map groupValue ++ List.replicate (8 - (groupsOf l ++ groupsOf r).length) 0 ++
      (groupsOf r).map groupValue).length = 8 ↔ (groupsOf l ++ groupsOf r).length ≤ 8 := by
    simp only [List.length_append, List.length_map, List.length_replicate]
    omega
  rw [readsExactly_fromGroups (parseIpv6_double double left few right), count]
  constructor
  · intro writes fit
    have whole := writes ⟨_, length_octets_eight (count.mpr fit)⟩ fit rfl
    obtain ⟨gap, tidyL, tidyR, hextets, -⟩ := (writes_double_iff double).mp whole
    exact ⟨gap, tidyL, tidyR, hextets⟩
  · intro regular address fit value
    obtain ⟨gap, tidyL, tidyR, hextets⟩ := regular fit
    rw [map_groupValue fun g member => hextets g (List.mem_append_left _ member),
      map_groupValue fun g member => hextets g (List.mem_append_right _ member)] at value
    exact (writes_double_iff double).mpr ⟨gap, tidyL, tidyR, hextets, value⟩

end Regular

/-- Both parsers finish and read what an accepted text writes exactly on regular texts. -/
theorem reads_exactly_iff_regular (s : Bytes) : ReadsExactly s ↔ Regular s := by
  unfold Regular
  cases double : splitDouble (ch ':') s with
  | none =>
    dsimp only
    by_cases readable : Readable (splitOn (ch ':') s)
    · exact (readsExactly_single double readable).trans (imp_iff_right readable).symm
    · have refused : parseIpv6 s = .ok none := by
        rw [parseIpv6, double]
        dsimp only
        rw [mapM_fromStrRadix16, if_neg readable]
      exact iff_of_true (readsExactly_refused refused) fun read => absurd read readable
  | some sides =>
    obtain ⟨l, r⟩ := sides
    show _ ↔ RegularAround l r
    by_cases left : Readable (groupsOf l)
    · by_cases few : (groupsOf r).length ≤ 8
      · by_cases right : Readable (groupsOf r)
        · rw [readsExactly_double double left few right]
          exact ⟨fun regular _ => ⟨few, fun _ => regular⟩, fun regular => (regular left).2 right⟩
        · have refused : parseIpv6 s = .ok none := by
            rw [parseIpv6, double]
            dsimp only
            rw [mapM_fromStrRadix16, if_pos left, mapM_fromStrRadix16, if_neg right]
            simp only [padZeros, if_pos few]
            rfl
          exact iff_of_true (readsExactly_refused refused) fun _ => ⟨few, fun read => absurd read right⟩
      · -- eight minus the groups on the right is below zero
        have faults : parseIpv6 s = .error .underflow := by
          rw [parseIpv6, double]
          dsimp only
          rw [mapM_fromStrRadix16, if_pos left]
          simp only [padZeros, if_neg few]
          rfl
        apply iff_of_false
        · intro reads
          obtain ⟨result, parsed, -⟩ := reads
          rw [faults] at parsed
          cases parsed
        · exact fun regular => few (regular left).1
    · have refused : parseIpv6 s = .ok none := by
        rw [parseIpv6, double]
        dsimp only
        rw [mapM_fromStrRadix16, if_neg left]
      exact iff_of_true (readsExactly_refused refused) fun read => absurd read left

/-- Nine groups after a `::` leave less than none to pad. -/
theorem nine_groups_underflow : ¬ ∀ s : Bytes, ReadsExactly s := by
  intro reads
  obtain ⟨result, parsed, -⟩ := reads (ascii "::1:1:1:1:1:1:1:1:1")
  have faults : parseIpv6 (ascii "::1:1:1:1:1:1:1:1:1") = .error .underflow := by decide
  rw [faults] at parsed
  cases parsed

end Link
end TypeBit
