import TypeBit.Metainfo.Verifiable

/-! Which files a piece shares bytes with, and which ones `abs / piece_length` arithmetic takes them to
be. The two agree exactly when the files whose pieces the arithmetic misplaces start at piece boundaries. -/

namespace TypeBit.Metainfo
open Tiling

namespace Torrent

def startOf (t : Torrent) (k : Nat) : Nat := ((lengths t.files).take k).sum

def Shares (t : Torrent) (p k : Nat) : Prop :=
  ∃ info abs f x, t.pieceInfo p = .ok info ∧ t.pieceAbsOffset p = .ok abs ∧ t.files[k]? = some f ∧
    abs ≤ x ∧ x < abs + info.len ∧ t.startOf k ≤ x ∧ x < t.startOf k + f.length

def Spans (t : Torrent) (p k : Nat) : Prop :=
  ∃ f, t.files[k]? = some f ∧ t.startOf k / t.pieceLength ≤ p ∧ p * t.pieceLength < t.startOf k + f.length

/-- Every file, for v1 every empty one, starts at a piece boundary or behind the last piece. -/
def Aligned (t : Torrent) : Prop :=
  ∀ k f, t.files[k]? = some f → (t.kind = .v1 → f.length = 0) →
    t.pieceLength ∣ t.startOf k ∨ t.pieceCount * t.pieceLength ≤ t.startOf k

end Torrent

theorem startOf_succ {t : Torrent} {k : Nat} {f : FileEntry} (file : t.files[k]? = some f) :
    t.startOf (k + 1) = t.startOf k + f.length := by
  have segment : (lengths t.files)[k]? = some f.length := by simp [lengths, file]
  rw [Torrent.startOf, List.take_add_one, segment, List.sum_append]
  simp [Torrent.startOf]

theorem startOf_le_sum (t : Torrent) (k : Nat) : t.startOf k ≤ (lengths t.files).sum := by
  have split := congrArg List.sum (List.take_append_drop k (lengths t.files))
  rw [List.sum_append] at split
  rw [Torrent.startOf]
  omega

theorem file_unique {t : Torrent} {j k x : Nat} {f g : FileEntry} (first : t.files[j]? = some f)
    (second : t.files[k]? = some g) (inFirst : t.startOf j ≤ x ∧ x < t.startOf j + f.length)
    (inSecond : t.startOf k ≤ x ∧ x < t.startOf k + g.length) : j = k := by
  have here : locate (lengths t.files) x = some (j, x - t.startOf j) :=
    (locate_eq_some_iff ..).mpr ⟨f.length, by simp [lengths, first], by omega, by rw [← Torrent.startOf]; omega⟩
  have there : locate (lengths t.files) x = some (k, x - t.startOf k) :=
    (locate_eq_some_iff ..).mpr ⟨g.length, by simp [lengths, second], by omega, by rw [← Torrent.startOf]; omega⟩
  have same := here.symm.trans there
  simp only [Option.some.injEq, Prod.mk.injEq] at same
  exact same.1

section Spans
variable {t : Torrent} (sound : Sound t)
include sound

theorem shares_v1_iff (kind : t.kind = .v1) {p k : Nat} (below : p < t.layoutPieces) {f : FileEntry}
    (file : t.files[k]? = some f) :
    t.Shares p k ↔ 0 < f.length ∧ t.startOf k < (p + 1) * t.pieceLength ∧ p * t.pieceLength < t.startOf k + f.length := by
  have positive := sound.positive
  obtain ⟨info, here⟩ := placed sound below
  simp only [Torrent.layoutPieces, kind, divCeil_eq_count] at below
  have inside := (lt_count_iff positive).mp below
  have abs := here.abs_eq
  have tile := here.tile
  simp only [Torrent.tileList, kind] at abs tile
  rw [sum_take_cut positive, Nat.min_eq_left inside.le] at abs
  rw [getElem?_cut below, Option.some.injEq] at tile
  have ends : t.startOf k + f.length ≤ t.totalSize := by
    rw [← startOf_succ file, ← sound.adds]
    exact startOf_le_sum t (k + 1)
  have next : (p + 1) * t.pieceLength = p * t.pieceLength + t.pieceLength := Nat.succ_mul ..
  constructor
  · rintro ⟨other, start, g, x, known, placed, same, low, high, after, before⟩
    cases here.info_eq.symm.trans known
    cases abs.symm.trans placed
    cases file.symm.trans same
    omega
  · rintro ⟨nonempty, low, high⟩
    refine ⟨info, p * t.pieceLength, f, max (p * t.pieceLength) (t.startOf k), here.info_eq, abs, file, ?_⟩
    omega

theorem shares_per_file_iff (kind : t.kind ≠ .v1) {p k : Nat} (below : p < t.layoutPieces) {f : FileEntry}
    (file : t.files[k]? = some f) :
    t.Shares p k ↔ ((((lengths t.files).map (count t.pieceLength)).take k).sum ≤ p ∧
      p < (((lengths t.files).map (count t.pieceLength)).take k).sum + count t.pieceLength f.length) := by
  obtain ⟨info, r, here, offset, found, g, owner, inside⟩ := placed_per_file sound kind below
  obtain ⟨g', owner', first, start⟩ := here.file sound
  cases owner.symm.trans owner'
  rw [← Torrent.startOf] at start
  have positive := here.positive
  constructor
  · rintro ⟨other, abs, f', x, known, placed, same, low, high, after, before⟩
    cases here.info_eq.symm.trans known
    cases here.abs_eq.symm.trans placed
    cases file.symm.trans same
    have mine : info.file = k := file_unique owner file (x := x) ⟨by omega, by omega⟩ ⟨after, before⟩
    subst mine
    cases owner.symm.trans file
    obtain ⟨l, segment, small, place⟩ := (locate_eq_some_iff ..).mp found
    have size : l = count t.pieceLength f.length := by simpa [lengths, file] using segment.symm
    omega
  · rintro ⟨low, high⟩
    have place : locate ((lengths t.files).map (count t.pieceLength)) p =
        some (k, p - (((lengths t.files).map (count t.pieceLength)).take k).sum) :=
      (locate_eq_some_iff ..).mpr ⟨count t.pieceLength f.length, by simp [lengths, file], by omega, by omega⟩
    have same := found.symm.trans place
    simp only [Option.some.injEq, Prod.mk.injEq] at same
    obtain ⟨rfl, _⟩ := same
    cases owner.symm.trans file
    exact ⟨info, _, f, (t.tileList.take p).sum, here.info_eq, here.abs_eq, file, le_refl _, by omega, by omega, by omega⟩

theorem startOf_le_pieces (k : Nat) :
    t.startOf k ≤ (((lengths t.files).map (count t.pieceLength)).take k).sum * t.pieceLength := by
  rw [← List.map_take]
  exact sum_le_count_mul sound.positive ((lengths t.files).take k)

theorem startOf_eq_pieces (kind : t.kind ≠ .v1) (aligned : t.Aligned) {k : Nat} {f : FileEntry}
    (file : t.files[k]? = some f) (before : t.startOf k < t.pieceCount * t.pieceLength) :
    (((lengths t.files).map (count t.pieceLength)).take k).sum * t.pieceLength = t.startOf k := by
  have bounded : ∀ j g, t.files[j]? = some g → t.startOf j < t.pieceCount * t.pieceLength →
      t.pieceLength ∣ t.startOf j := by
    intro j g here early
    exact (aligned j g here (fun v1 => absurd v1 kind)).resolve_right (by omega)
  induction k generalizing f with
  | zero => simp [Torrent.startOf]
  | succ k ih =>
    have below := (List.getElem?_eq_some_iff.mp file).1
    obtain ⟨g, here⟩ : ∃ g, t.files[k]? = some g := ⟨t.files[k], List.getElem?_eq_getElem (by omega)⟩
    have next := startOf_succ here
    have so_far := ih here (by omega)
    have whole : t.pieceLength ∣ g.length := by
      have sum := bounded (k + 1) f file before
      rw [next] at sum
      exact (Nat.dvd_add_right (bounded k g here (by omega))).mp sum
    have cover : count t.pieceLength g.length * t.pieceLength = g.length := by
      obtain ⟨m, size⟩ := whole
      have low := (count_le_iff sound.positive).mp (le_refl (count t.pieceLength g.length))
      have high : count t.pieceLength g.length ≤ m := (count_le_iff sound.positive).mpr (by rw [size, Nat.mul_comm])
      have scaled := Nat.mul_le_mul_right t.pieceLength high
      rw [Nat.mul_comm m, ← size] at scaled
      omega
    have segment : ((lengths t.files).map (count t.pieceLength))[k]? = some (count t.pieceLength g.length) := by
      simp [lengths, here]
    rw [List.take_add_one, segment, List.sum_append]
    simp only [Option.toList_some, List.sum_singleton, Nat.add_mul]
    omega

theorem shares_iff_spans (few : t.pieceCount ≤ t.layoutPieces) (aligned : t.Aligned) {p : Nat}
    (below : p < t.pieceCount) (k : Nat) : t.Shares p k ↔ t.Spans p k := by
  have positive := sound.positive
  have scaled : (p + 1) * t.pieceLength ≤ t.pieceCount * t.pieceLength := Nat.mul_le_mul_right _ below
  have next : (p + 1) * t.pieceLength = p * t.pieceLength + t.pieceLength := Nat.succ_mul ..
  cases file : t.files[k]? with
  | none => simp [Torrent.Shares, Torrent.Spans, file]
  | some f =>
    have reached : t.startOf k / t.pieceLength ≤ p ↔ t.startOf k < (p + 1) * t.pieceLength := by
      rw [← Nat.lt_succ_iff, Nat.div_lt_iff_lt_mul positive]
    have spans : t.Spans p k ↔ t.startOf k < (p + 1) * t.pieceLength ∧ p * t.pieceLength < t.startOf k + f.length := by
      simp [Torrent.Spans, file, reached]
    rw [spans]
    by_cases kind : t.kind = .v1
    · rw [shares_v1_iff sound kind (by omega) file]
      constructor
      · exact And.right
      · rintro ⟨low, high⟩
        refine ⟨Nat.pos_of_ne_zero fun empty => ?_, low, high⟩
        -- an empty file at a boundary spans no piece
        rcases aligned k f file (fun _ => empty) with ⟨m, start⟩ | behind
        · rw [empty, start, Nat.mul_comm t.pieceLength] at high
          rw [start, Nat.mul_comm t.pieceLength] at low
          have first := Nat.lt_of_mul_lt_mul_right low
          have second : p < m := Nat.lt_of_mul_lt_mul_right (by simpa using high)
          omega
        · omega
    · rw [shares_per_file_iff sound kind (by omega) file]
      have cover := startOf_le_pieces sound k
      by_cases early : t.startOf k < t.pieceCount * t.pieceLength
      · have exact_ := startOf_eq_pieces sound kind aligned file early
        generalize (((lengths t.files).map (count t.pieceLength)).take k).sum = c at cover exact_ ⊢
        rw [← exact_]
        constructor
        · rintro ⟨low, high⟩
          have offset := (lt_count_iff positive).mp (show p - c < count t.pieceLength f.length by omega)
          rw [Nat.sub_mul] at offset
          have lower := Nat.mul_le_mul_right t.pieceLength low
          omega
        · rintro ⟨low, high⟩
          have first := Nat.lt_of_mul_lt_mul_right low
          have lower := Nat.mul_le_mul_right t.pieceLength (Nat.lt_succ_iff.mp first)
          refine ⟨by omega, ?_⟩
          have offset : p - c < count t.pieceLength f.length := by
            rw [lt_count_iff positive, Nat.sub_mul]
            omega
          omega
      · constructor
        · rintro ⟨low, high⟩
          have lower := Nat.mul_le_mul_right t.pieceLength low
          omega
        · rintro ⟨low, high⟩
          omega

theorem aligned_of_shares_iff_spans (few : t.pieceCount ≤ t.layoutPieces)
    (agree : ∀ p < t.pieceCount, ∀ k, t.Shares p k ↔ t.Spans p k) : t.Aligned := by
  have positive := sound.positive
  intro k f file candidate
  by_contra unaligned
  obtain ⟨apart, early⟩ := not_or.mp unaligned
  have below : t.startOf k / t.pieceLength < t.pieceCount :=
    (Nat.div_lt_iff_lt_mul positive).mpr (by omega)
  have short : t.startOf k / t.pieceLength * t.pieceLength < t.startOf k := by
    refine lt_of_le_of_ne (Nat.div_mul_le_self ..) fun same => apart ⟨t.startOf k / t.pieceLength, ?_⟩
    rw [Nat.mul_comm, same]
  have shares := (agree _ below k).mpr ⟨f, file, le_refl _, by omega⟩
  by_cases kind : t.kind = .v1
  · have nonempty := ((shares_v1_iff sound kind (by omega) file).mp shares).1
    have empty := candidate kind
    omega
  · have low := ((shares_per_file_iff sound kind (by omega) file).mp shares).1
    have lower := Nat.mul_le_mul_right t.pieceLength low
    have cover := startOf_le_pieces sound k
    omega

end Spans

theorem sound_of_fits {t : Torrent} (shaped : Shaped t) (fits : (lengths t.files).sum < 2 ^ 64) : Sound t := by
  refine ⟨shaped, fits, ?_⟩
  rw [shaped.total, totalLength, foldl_wadd _ (by decide), Nat.zero_add, Nat.mod_eq_of_lt fits]

theorem pieceCount_le_layoutPieces {digests : Digests} {data : Bytes} {t : Torrent}
    (accepted : Torrent.fromBytes digests data = .ok t) : t.pieceCount ≤ t.layoutPieces := by
  have shaped := fromBytes_shaped accepted
  obtain ⟨root, info, infoRaw, declared, payload, kind, -, -, -, -, -, paid, sort, rfl⟩ := fromBytes_ok accepted
  unfold payloadOf at paid
  by_cases version : metaVersionOf info = 1
  · have isV1 : kind = .v1 := by
      rw [torrentKind, if_pos version] at sort
      cases sort
      rfl
    subst isV1
    exact Nat.mod_le ..
  · rw [if_neg version] at paid
    obtain ⟨files, layers, hashes, v1Hashes, listed, built, rfl⟩ := v2Payload_ok paid
    have counted : hashes.length = ([] : List Bytes).length + rootedPieces (asU32 declared) files :=
      length_buildV2PieceHashes shaped.positive built
    have bound : hashes.length ≤ ((lengths files).map (count (asU32 declared))).sum := by
      rw [counted, List.length_nil, Nat.zero_add]
      exact rootedPieces_le (asU32 declared) files
    have notV1 : kind ≠ .v1 := by
      rintro rfl
      rw [torrentKind, if_neg version] at sort
      split_ifs at sort <;> cases sort
    unfold Torrent.pieceCount Torrent.layoutPieces
    cases kind with
    | v1 => exact absurd rfl notV1
    | v2 =>
      rw [sum_divCeil]
      exact (Nat.mod_le ..).trans bound
    | hybrid =>
      rw [sum_divCeil]
      exact (Nat.mod_le ..).trans bound

end TypeBit.Metainfo
