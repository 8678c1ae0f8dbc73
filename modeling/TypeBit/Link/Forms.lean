import TypeBit.Link.Base32

/-! The text forms of a hash (`InfoHash::from_multihash` and the exact topics of a magnet link). A multihash is told by
its first four digits and by its length, so that raw digits may be taken for one. -/

namespace TypeBit.Link
open Metainfo

def FortyDigits (s : Bytes) : Prop := s.length = 40 ∧ ∀ c ∈ s, isHex c = true

def multihashDigits (s : Bytes) : Bytes := (stripPrefix (ascii "1220") s).getD s

/-- The text gives the hash, alone and as a multihash topic. -/
def ReadsMultihash (s : Bytes) (h : InfoHash) : Prop :=
  InfoHash.fromMultihash s = .ok h ∧ Magnet.parse (ascii "magnet:?xt=urn:btmh:" ++ s) = .ok { infoHash := some h }

/-- The text gives the hash as a v1 topic. -/
def ReadsV1 (s : Bytes) (h : InfoHash) : Prop :=
  Magnet.parse (ascii "magnet:?xt=urn:btih:" ++ s) = .ok { infoHash := some h }

/-! ### Hexadecimal forms -/

theorem fromMultihash_eq (s : Bytes) : InfoHash.fromMultihash s = InfoHash.fromHex (multihashDigits s) := by
  unfold InfoHash.fromMultihash multihashDigits
  cases stripPrefix (ascii "1220") s <;> rfl

theorem isHex_of_hexPairs {s out : Bytes} (decoded : hexPairs s = some out) : ∀ c ∈ s, isHex c = true := by
  fun_induction hexPairs s generalizing out with
  | case1 => exact fun c member => absurd member List.not_mem_nil
  | case2 => cases decoded
  | case3 a b tail hi lo rest third second first ih =>
    have digits : ∀ c ∈ [a, b], isHex c = true := by
      unfold isHex
      simp [first, second]
    intro c member
    rcases List.mem_append.mp (show c ∈ [a, b] ++ tail from member) with here | later
    · exact digits c here
    · exact ih third c later
  | case4 => cases decoded

theorem hexPairs_isSome {n : Nat} {s : Bytes} (length : s.length = n * 2) (digits : ∀ c ∈ s, isHex c = true) :
    ∃ out, hexPairs s = some out := by
  induction n generalizing s with
  | zero => exact ⟨[], by rw [List.length_eq_zero_iff.mp length]; rfl⟩
  | succ n ih =>
    obtain ⟨a, s, rfl⟩ := List.exists_cons_of_length_pos (l := s) (by omega)
    obtain ⟨b, s, rfl⟩ := List.exists_cons_of_length_pos (l := s) (by rw [List.length_cons] at length; omega)
    obtain ⟨rest, more⟩ := ih (s := s) (by simp only [List.length_cons] at length; omega)
      fun c member => digits c (List.mem_cons_of_mem a (List.mem_cons_of_mem b member))
    obtain ⟨hi, first⟩ := Option.isSome_iff_exists.mp (digits a List.mem_cons_self)
    obtain ⟨lo, second⟩ := Option.isSome_iff_exists.mp (digits b (List.mem_cons_of_mem a List.mem_cons_self))
    exact ⟨_, by rw [hexPairs, first, second, more]⟩

theorem fromHex_eq_ok {s : Bytes} {h : InfoHash} : InfoHash.fromHex s = .ok h ↔
    ∃ out, hexPairs s = some out ∧ (s.length = 40 ∧ h = .v1 out ∨ s.length = 64 ∧ h = .v2 out) := by
  unfold InfoHash.fromHex hexDecodeInto
  by_cases forty : s.length = 40
  · rw [if_pos forty, if_neg (not_not_intro forty)]
    cases hexPairs s with
    | none => exact iff_of_false (fun same => by cases same) fun found => by obtain ⟨out, none, -⟩ := found; cases none
    | some out =>
      constructor
      · intro same
        cases same
        exact ⟨out, rfl, .inl ⟨forty, rfl⟩⟩
      · intro found
        obtain ⟨out', same, ⟨-, rfl⟩ | ⟨long, -⟩⟩ := found
        · cases same
          rfl
        · omega
  · rw [if_neg forty]
    by_cases long : s.length = 64
    · rw [if_pos long, if_neg (not_not_intro long)]
      cases hexPairs s with
      | none => exact iff_of_false (fun same => by cases same) fun found => by obtain ⟨out, none, -⟩ := found; cases none
      | some out =>
        constructor
        · intro same
          cases same
          exact ⟨out, rfl, .inr ⟨long, rfl⟩⟩
        · intro found
          obtain ⟨out', same, ⟨short, -⟩ | ⟨-, rfl⟩⟩ := found
          · omega
          · cases same
            rfl
    · rw [if_neg long]
      apply iff_of_false (fun same => by cases same)
      intro found
      obtain ⟨-, -, ⟨short, -⟩ | ⟨other, -⟩⟩ := found
      · exact forty short
      · exact long other

theorem v2_only_iff (s : Bytes) :
    (∀ h, InfoHash.fromMultihash s = .ok h → h.isV2 = true) ↔ ¬ FortyDigits (multihashDigits s) := by
  rw [fromMultihash_eq]
  constructor
  · intro only digits
    obtain ⟨out, decoded⟩ := hexPairs_isSome (n := 20) digits.1 digits.2
    have v2 := only (.v1 out) (fromHex_eq_ok.mpr ⟨out, decoded, .inl ⟨digits.1, rfl⟩⟩)
    cases v2
  · intro other h accepted
    obtain ⟨out, decoded, ⟨forty, -⟩ | ⟨-, rfl⟩⟩ := fromHex_eq_ok.mp accepted
    · exact absurd ⟨forty, isHex_of_hexPairs decoded⟩ other
    · rfl

/-! ### Topics -/

set_option maxRecDepth 2000 in
theorem readsMultihash_iff {s : Bytes} {h : InfoHash} : ReadsMultihash s h ↔ InfoHash.fromMultihash s = .ok h := by
  constructor
  · exact fun reads => reads.1
  · intro accepted
    refine ⟨accepted, ?_⟩
    have digits : ∀ c ∈ s, isHex c = true := by
      have found := accepted
      rw [fromMultihash_eq] at found
      obtain ⟨out, decoded, -⟩ := fromHex_eq_ok.mp found
      have tail := isHex_of_hexPairs decoded
      unfold multihashDigits at tail
      cases start : stripPrefix (ascii "1220") s with
      | none => rwa [start] at tail
      | some rest =>
        rw [start] at tail
        rw [stripPrefix_eq_some.mp start]
        exact List.forall_mem_append.mpr ⟨by decide, tail⟩
    have topic : Magnet.xtHash (ascii "urn:btmh:" ++ s) = some h := by
      rw [Magnet.xtHash_btmh, accepted]
      rfl
    have plain : ∀ c ∈ ascii "urn:btmh:" ++ s, c < 0x80 ∧ c ≠ ch '%' ∧ c ≠ ch '&' :=
      List.forall_mem_append.mpr ⟨by decide, fun c member => isHex_plain (digits c member)⟩
    have parsed := Magnet.parse_topic plain
    rw [topic] at parsed
    exact parsed

set_option maxRecDepth 2000 in
theorem readsV1_hex {h : ByteArr 20} {s : Bytes} (form : HexForm h.val s) : ReadsV1 s (.v1 h.val) := by
  have plain : ∀ c ∈ ascii "urn:btih:" ++ s, c < 0x80 ∧ c ≠ ch '%' ∧ c ≠ ch '&' :=
    List.forall_mem_append.mpr ⟨by decide, fun c member => isHex_plain (form.isHex c member)⟩
  have parsed := Magnet.parse_topic plain
  rw [Magnet.xtHash_btih form] at parsed
  exact parsed

theorem v1_injective {a b : Bytes} (same : InfoHash.v1 a = InfoHash.v1 b) : a = b :=
  List.append_cancel_right (congrArg InfoHash.bytes same)

set_option maxRecDepth 2000 in
theorem readsV1_base32 {s : Bytes} (length : s.length = 32) (plain : ∀ c ∈ s, c < 0x80 ∧ c ≠ ch '%' ∧ c ≠ ch '&')
    (h : ByteArr 20) : ReadsV1 s (.v1 h.val) ↔ base32DecodeSha1 s = some h.val := by
  have topic : Magnet.xtHash (ascii "urn:btih:" ++ s) = (base32DecodeSha1 s).map InfoHash.v1 := by
    rw [Magnet.xtHash, stripPrefix_append]
    exact if_pos length
  have parsed := Magnet.parse_topic (List.forall_mem_append.mpr ⟨by decide, plain⟩ :
    ∀ c ∈ ascii "urn:btih:" ++ s, c < 0x80 ∧ c ≠ ch '%' ∧ c ≠ ch '&')
  rw [topic] at parsed
  unfold ReadsV1
  rw [show Magnet.parse (ascii "magnet:?xt=urn:btih:" ++ s) = _ from parsed]
  cases base32DecodeSha1 s with
  | none => exact iff_of_false (fun same => by cases same) (fun same => by cases same)
  | some out =>
    constructor
    · intro same
      have hashes := congrArg (fun r => r.toOption.bind Magnet.infoHash) same
      rw [v1_injective (Option.some.inj hashes)]
    · intro same
      rw [same]
      rfl

set_option maxRecDepth 2000 in
/-- A hash is read from each of its forms: a multihash always, raw digits of a v2 hash exactly if they do not begin as a
multihash does, a v1 hash in hexadecimal and in base32 of lower case always, in upper case exactly if it is written
without letters; and nothing but v2 hashes come of a multihash exactly if the digits are not forty. -/
theorem forms_unambiguous_iff (h : ByteArr 32) (g : ByteArr 20) (s : Bytes) :
    (HexForm h.val s → ReadsMultihash (ascii "1220" ++ s) (.v2 h.val) ∧
      (ReadsMultihash s (.v2 h.val) ↔ ¬ ascii "1220" <+: s)) ∧
    ((∀ i, InfoHash.fromMultihash s = .ok i → i.isV2 = true) ↔ ¬ FortyDigits (multihashDigits s)) ∧
    (HexForm g.val s → InfoHash.fromHex s = .ok (.v1 g.val) ∧ ReadsV1 s (.v1 g.val)) ∧
    ReadsV1 (Base32.encode g.val) (.v1 g.val) ∧
      (ReadsV1 ((Base32.encode g.val).map Base32.upper) (.v1 g.val) ↔ ∀ c ∈ Base32.encode g.val, c ≤ ch '7') := by
  refine ⟨?_, v2_only_iff s, fun form => ⟨fromHex_v1 form, readsV1_hex form⟩, ?_⟩
  · intro form
    rw [readsMultihash_iff, readsMultihash_iff]
    refine ⟨(fromMultihash_prefixed s).trans (fromHex_v2 form), ?_⟩
    constructor
    · intro accepted start
      obtain ⟨rest, rfl⟩ := start
      rw [fromMultihash_prefixed] at accepted
      -- four of the sixty-four digits are taken for the prefix
      have length : 4 + rest.length = 32 * 2 := by
        have whole := form.length
        rwa [List.length_append, h.property] at whole
      obtain ⟨out, -, ⟨forty, -⟩ | ⟨long, -⟩⟩ := fromHex_eq_ok.mp accepted
      · omega
      · omega
    · intro raw
      have none : stripPrefix (ascii "1220") s = none := if_neg fun begins => raw (List.isPrefixOf_iff_prefix.mp begins)
      rw [fromMultihash_eq, multihashDigits, none]
      exact fromHex_v2 form
  · have plain : ∀ c ∈ Base32.alphabet, (c < 0x80 ∧ c ≠ ch '%' ∧ c ≠ ch '&') ∧
        Base32.upper c < 0x80 ∧ Base32.upper c ≠ ch '%' ∧ Base32.upper c ≠ ch '&' := by decide
    constructor
    · rw [readsV1_base32 (length_encode g) fun c member => (plain c (mem_encode member)).1]
      exact base32DecodeSha1_encode g
    · have length : ((Base32.encode g.val).map Base32.upper).length = 32 := by rw [List.length_map, length_encode]
      rw [readsV1_base32 length]
      · by_cases digits : ∀ c ∈ Base32.encode g.val, c ≤ ch '7'
        · rw [base32DecodeSha1_upper digits]
          exact iff_of_true rfl digits
        · rw [base32DecodeSha1_letter digits]
          exact iff_of_false (fun same => by cases same) digits
      · intro c member
        obtain ⟨d, inside, rfl⟩ := List.mem_map.mp member
        exact (plain d (mem_encode inside)).2

/-- The raw digits of a hash that begins as a multihash does are refused. -/
theorem raw_multihash_refused :
    ¬ ((∀ (h : ByteArr 32) (s : Bytes), HexForm h.val s →
        ReadsMultihash (ascii "1220" ++ s) (.v2 h.val) ∧ ReadsMultihash s (.v2 h.val)) ∧
      (∀ s h, InfoHash.fromMultihash s = .ok h → h.isV2 = true) ∧
      (∀ (h : ByteArr 20) (s : Bytes), HexForm h.val s → InfoHash.fromHex s = .ok (.v1 h.val) ∧ ReadsV1 s (.v1 h.val)) ∧
      ∀ h : ByteArr 20, ReadsV1 (Base32.encode h.val) (.v1 h.val) ∧
        ReadsV1 ((Base32.encode h.val).map Base32.upper) (.v1 h.val)) := by
  intro always
  let h : ByteArr 32 := ⟨0x12 :: 0x20 :: List.replicate 30 0, by decide⟩
  have form : HexForm h.val (ascii "1220" ++ List.replicate 60 (ch '0')) := by decide
  obtain ⟨-, accepted, -⟩ := always.1 h _ form
  have refused : InfoHash.fromMultihash (ascii "1220" ++ List.replicate 60 (ch '0')) = .error .magnet := by decide
  rw [refused] at accepted
  cases accepted

end TypeBit.Link
