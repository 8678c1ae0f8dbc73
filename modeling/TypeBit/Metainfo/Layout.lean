import TypeBit.Lib.Tiling
import TypeBit.Metainfo.Accepted

/-! The piece layout tiles the payload. Every walk over the file list in `metainfo.rs` is a
`Tiling.locate` on lengths or on per-file piece counts; the four functions then agree because the
tiles of the library do. -/

namespace TypeBit.Metainfo
open Tiling

theorem divCeil_eq_count (len size : Nat) : divCeil len size = count size len := rfl

def lengths (files : List FileEntry) : List Nat := files.map FileEntry.length

theorem lengths_cons (f : FileEntry) (tail : List FileEntry) : lengths (f :: tail) = f.length :: lengths tail := rfl

theorem count_zero {size : Nat} (positive : 0 < size) : count size 0 = 0 :=
  Nat.le_zero.mp ((count_le_iff positive).mpr (by omega))

theorem locateFrom_ok_iff {start fi off k r : Nat} {files : List FileEntry} (reached : off ≤ start)
    (fits : off + (lengths files).sum < 2 ^ 64) (few : fi + files.length ≤ 2 ^ 32) :
    locateFrom start files fi off = .ok (k, r) ↔
      ∃ i, k = fi + i ∧ locate (lengths files) (start - off) = some (i, r) := by
  induction files generalizing fi off with
  | nil => simp [locateFrom, lengths, locate]
  | cons f tail ih =>
    rw [lengths_cons, List.sum_cons] at fits
    rw [List.length_cons] at few
    have sum : wadd off f.length = off + f.length := wadd_of_lt (by omega)
    rw [locateFrom, lengths_cons, locate, sum]
    by_cases inside : start < off + f.length
    · rw [if_pos inside, if_pos (by omega : start - off < f.length), wsub_of_le reached,
        Nat.mod_eq_of_lt (by omega)]
      simp only [Except.ok.injEq, Prod.mk.injEq, Option.some.injEq]
      constructor
      · rintro ⟨rfl, rfl⟩
        exact ⟨0, rfl, rfl, rfl⟩
      · rintro ⟨i, rfl, rfl, rfl⟩
        exact ⟨rfl, rfl⟩
    · have rest : locateFrom start tail (fi + 1) (off + f.length) = .ok (k, r) ↔ _ :=
        ih (by omega) (by omega) (by omega)
      rw [if_neg inside, if_neg (by omega : ¬ start - off < f.length), rest, Nat.sub_add_eq]
      simp only [Option.map_eq_some_iff, Prod.mk.injEq]
      constructor
      · rintro ⟨i, rfl, found⟩
        exact ⟨i + 1, by omega, (i, r), found, rfl, rfl⟩
      · rintro ⟨i, rfl, ⟨j, s⟩, found, rfl, rfl⟩
        exact ⟨j, by dsimp only; omega, found⟩

theorem v2Find_ok_iff {pl index fi idx k r : Nat} {f : FileEntry} {files : List FileEntry} (positive : 0 < pl)
    (reached : idx ≤ index) (fits : idx + ((lengths files).map (count pl)).sum < 2 ^ 64) (small : index < 2 ^ 64) :
    v2Find pl index files fi idx = .ok (k, f, r) ↔
      ∃ i, k = fi + i ∧ files[i]? = some f ∧
        locate ((lengths files).map (count pl)) (index - idx) = some (i, r) := by
  induction files generalizing fi idx with
  | nil => simp [v2Find]
  | cons g tail ih =>
    rw [lengths_cons, List.map_cons, List.sum_cons] at fits
    rw [v2Find, lengths_cons, List.map_cons, locate, divCeil_eq_count]
    by_cases inside : index < idx + count pl g.length
    · have nonempty : g.length ≠ 0 := by
        intro empty
        rw [empty, count_zero positive] at inside
        omega
      rw [if_neg nonempty, wadd_of_lt (by omega), if_pos inside,
        if_pos (by omega : index - idx < count pl g.length), wsub_of_le reached]
      simp only [Except.ok.injEq, Prod.mk.injEq, Option.some.injEq]
      constructor
      · rintro ⟨rfl, rfl, rfl⟩
        exact ⟨0, rfl, rfl, rfl, rfl⟩
      · rintro ⟨i, rfl, same, rfl, rfl⟩
        exact ⟨rfl, by simpa using same, rfl⟩
    · have walk : (if g.length = 0 then v2Find pl index tail (fi + 1) idx
          else if index < wadd idx (count pl g.length) then .ok (fi, g, wsub index idx)
          else v2Find pl index tail (fi + 1) (wadd idx (count pl g.length))) =
          v2Find pl index tail (fi + 1) (idx + count pl g.length) := by
        by_cases empty : g.length = 0
        · simp [empty, count_zero positive]
        · rw [if_neg empty, wadd_of_lt (by omega), if_neg inside]
      rw [walk, ih (by omega) (by omega), if_neg (by omega : ¬ index - idx < count pl g.length), Nat.sub_add_eq]
      simp only [Option.map_eq_some_iff, Prod.mk.injEq]
      constructor
      · rintro ⟨i, rfl, file, found⟩
        exact ⟨i + 1, by omega, file, (i, r), found, rfl, rfl⟩
      · rintro ⟨i, rfl, file, ⟨j, s⟩, found, rfl, rfl⟩
        exact ⟨j, by dsimp only; omega, file, found⟩

theorem foldl_wadd (files : List FileEntry) {start : Nat} (small : start < 2 ^ 64) :
    files.foldl (fun off f => wadd off f.length) start = (start + (lengths files).sum) % 2 ^ 64 := by
  induction files generalizing start with
  | nil => exact (Nat.mod_eq_of_lt small).symm
  | cons f tail ih =>
    have wrapped : wadd start f.length < 2 ^ 64 := Nat.mod_lt _ (by decide)
    rw [List.foldl_cons, ih wrapped, lengths_cons, List.sum_cons, wadd]
    omega

theorem count_le_self {size : Nat} (positive : 0 < size) (len : Nat) : count size len ≤ len :=
  (count_le_iff positive).mpr (Nat.le_mul_of_pos_right len positive)

theorem sum_count_le {size : Nat} (positive : 0 < size) (lens : List Nat) :
    (lens.map (count size)).sum ≤ lens.sum := by
  induction lens with
  | nil => simp
  | cons l tail ih =>
    have head := count_le_self positive l
    simp only [List.map_cons, List.sum_cons]
    omega

end TypeBit.Metainfo
