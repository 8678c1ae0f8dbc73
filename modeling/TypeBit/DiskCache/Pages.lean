import TypeBit.DiskCache.Model
import TypeBit.Lib.Patch

/-! Page predicates that every cache operation keeps. A predicate on `(disk, offset, bytes)` that
is closed under joining adjacent runs is kept by promotion to the clean cache and by flushing;
flushing moves the disk towards any store its runs agree with. -/

namespace TypeBit.DiskCache
open Patch OrdMap

abbrev PagePred := Nat → Nat → Bytes → Prop

structure PageLaw (L : Nat → Nat → UInt8) (P : PagePred) : Prop where
  joins : ∀ d o a b, P d o a → P d (o + a.length) b → P d o (a ++ b)
  fits : ∀ d o b, P d o b → o + b.length < 2 ^ 64
  agrees : ∀ d o b, P d o b → Agrees (L d) o b

@[simp] theorem key_inj {d o d' o' : Nat} : key d o = key d' o' ↔ d = d' ∧ o = o' := by
  simp [key]

@[simp] theorem key_eta (k : Key) : key k.disk k.off = k := rfl
@[simp] theorem key_disk (d o : Nat) : (key d o).disk = d := rfl
@[simp] theorem key_off (d o : Nat) : (key d o).off = o := rfl

def Covered (m : OrdMap Key Bytes) (d p : Nat) : Prop :=
  ∃ o b, m.get? (key d o) = some b ∧ o ≤ p ∧ p < o + b.length

def DirtyPages (P : PagePred) (c : Cache) : Prop := ∀ k b, c.dirty.get? k = some b → P k.disk k.off b
def CleanPages (P : PagePred) (c : Cache) : Prop := ∀ k b n, c.clean.get? k = some (b, n) → P k.disk k.off b

def DirtyApart (m : OrdMap Key Bytes) : Prop :=
  ∀ d o o' b b', m.get? (key d o) = some b → m.get? (key d o') = some b' → o < o' → o + b.length ≤ o'

/-- Every page satisfies `P`, dirty runs are apart, and off the dirty runs the disk is `L`. -/
structure Coherent (P : PagePred) (L disk : Nat → Nat → UInt8) (c : Cache) : Prop where
  dirty : DirtyPages P c
  clean : CleanPages P c
  apart : DirtyApart c.dirty
  disk : ∀ d p, ¬ Covered c.dirty d p → disk d p = L d p

section Promotion
variable {L : Nat → Nat → UInt8} {P : PagePred}

variable {c : Cache}

theorem CleanPages.erase (pages : CleanPages P c) (k : Key) (used : Nat) :
    CleanPages P { c with clean := c.clean.erase k, cleanUsed := used } := by
  intro j b n found
  exact pages j b n (get?_of_erase found)

variable {d o : Nat} {data : Bytes}

theorem joinPred_spec (law : PageLaw L P) (pages : CleanPages P c) (page : P d o data) :
    CleanPages P (c.joinPred d o data).1 ∧ P d (c.joinPred d o data).2.1 (c.joinPred d o data).2.2 ∧
      (c.joinPred d o data).1.dirty = c.dirty := by
  unfold Cache.joinPred
  cases found : (c.clean.below? (key d o)).filter
      (fun e => e.1.disk = d ∧ wadd e.1.off e.2.1.length = o) with
  | none => exact ⟨pages, page, rfl⟩
  | some e =>
    obtain ⟨k, v, n⟩ := e
    obtain ⟨below, adjacent⟩ := Option.filter_eq_some_iff.mp found
    simp only [Bool.decide_and, Bool.and_eq_true, decide_eq_true_eq] at adjacent
    have entry := pages k v n (below?_eq_some below).1
    have fits := law.fits _ _ _ entry
    rw [wadd_of_lt fits] at adjacent
    obtain ⟨rfl, rfl⟩ := adjacent
    exact ⟨pages.erase k _, law.joins _ _ _ _ entry page, rfl⟩

theorem joinSucc_spec (law : PageLaw L P) (pages : CleanPages P c) {d base : Nat} {merged : Bytes} (page : P d base merged) :
    CleanPages P (c.joinSucc d base merged).1 ∧ P d base (c.joinSucc d base merged).2 ∧
      (c.joinSucc d base merged).1.dirty = c.dirty := by
  unfold Cache.joinSucc
  rw [wadd_of_lt (law.fits _ _ _ page)]
  cases found : c.clean.get? (key d (base + merged.length)) with
  | none => exact ⟨pages, page, rfl⟩
  | some e =>
    obtain ⟨v, n⟩ := e
    exact ⟨pages.erase _ _, law.joins _ _ _ _ page (pages _ v n found), rfl⟩

theorem evictClean_spec (pages : CleanPages P c) (len n : Nat) :
    CleanPages P (c.evictClean len n) ∧ (c.evictClean len n).dirty = c.dirty := by
  induction n generalizing c with
  | zero => exact ⟨pages, rfl⟩
  | succ n ih =>
    unfold Cache.evictClean
    split_ifs
    · split
      · split
        · exact ih (pages.erase _ _)
        · exact ih pages
      · exact ⟨pages, rfl⟩
    · exact ⟨pages, rfl⟩

theorem joinAdjacent_spec (law : PageLaw L P) (pages : CleanPages P c) (page : P d o data) :
    CleanPages P (c.joinAdjacent d o data).1 ∧ P d (c.joinAdjacent d o data).2.1 (c.joinAdjacent d o data).2.2 ∧
      (c.joinAdjacent d o data).1.dirty = c.dirty := by
  unfold Cache.joinAdjacent
  split_ifs
  · exact ⟨pages, page, rfl⟩
  · obtain ⟨predPages, predPage, predDirty⟩ := joinPred_spec law pages page
    obtain ⟨succPages, succPage, succDirty⟩ := joinSucc_spec law predPages predPage
    exact ⟨succPages, succPage, succDirty.trans predDirty⟩

theorem keepClean_spec (pages : CleanPages P c) {d base : Nat} {merged : Bytes} (page : P d base merged) :
    CleanPages P (c.keepClean d base merged) ∧ (c.keepClean d base merged).dirty = c.dirty := by
  obtain ⟨kept, same⟩ := evictClean_spec pages merged.length c.clean.size
  unfold Cache.keepClean
  dsimp only
  split_ifs
  · refine ⟨?_, same⟩
    intro k b n found
    rw [get?_insert] at found
    split_ifs at found with here
    · cases found
      rw [← here]
      exact page
    · exact kept k b n found
  · exact ⟨kept, same⟩

theorem promoteClean_spec (law : PageLaw L P) (pages : CleanPages P c) (page : P d o data) :
    CleanPages P (c.promoteClean d o data) ∧ (c.promoteClean d o data).dirty = c.dirty := by
  unfold Cache.promoteClean
  split_ifs
  · exact ⟨pages, rfl⟩
  · obtain ⟨joinedPages, joinedPage, joinedDirty⟩ :=
      joinAdjacent_spec law (show CleanPages P { c with lruClock := wadd c.lruClock 1 } from pages) page
    obtain ⟨kept, same⟩ := keepClean_spec joinedPages joinedPage
    exact ⟨kept, same.trans joinedDirty⟩

end Promotion

section Flushing
variable {L : Nat → Nat → UInt8} {P : PagePred}

/-- Some run of the batch covers the position. -/
def InBatch (batch : List Cache.Run) (d p : Nat) : Prop :=
  ∃ r ∈ batch, r.disk = d ∧ r.off ≤ p ∧ p < r.off + r.data.length

def BatchPages (P : PagePred) (batch : List Cache.Run) : Prop := ∀ r ∈ batch, P r.disk r.off r.data

theorem pushRun_spec (law : PageLaw L P) {batch : List Cache.Run} (pages : BatchPages P batch) {k : Key}
    {data : Bytes} (page : P k.disk k.off data) :
    BatchPages P (Cache.pushRun batch k data) ∧
      ∀ d p, InBatch batch d p ∨ (k.disk = d ∧ k.off ≤ p ∧ p < k.off + data.length) →
        InBatch (Cache.pushRun batch k data) d p := by
  have plain : BatchPages P (batch ++ [⟨k.disk, k.off, data⟩]) ∧
      ∀ d p, InBatch batch d p ∨ (k.disk = d ∧ k.off ≤ p ∧ p < k.off + data.length) →
        InBatch (batch ++ [⟨k.disk, k.off, data⟩]) d p := by
    constructor
    · intro r member
      rcases List.mem_append.mp member with earlier | last
      · exact pages r earlier
      · rw [List.mem_singleton.mp last]
        exact page
    · rintro d p (⟨r, member, covers⟩ | covers)
      · exact ⟨r, List.mem_append_left _ member, covers⟩
      · exact ⟨_, List.mem_append_right _ (List.mem_singleton.mpr rfl), covers⟩
  unfold Cache.pushRun
  cases found : batch.getLast? with
  | none =>
    rw [List.getLast?_eq_none_iff.mp found] at plain ⊢
    exact plain
  | some last =>
    dsimp only
    split_ifs with adjacent
    · have split : batch = batch.dropLast ++ [last] := (List.dropLast_append_getLast? last found).symm
      have lastPage := pages last (List.mem_of_getLast? found)
      rw [wadd_of_lt (law.fits _ _ _ lastPage)] at adjacent
      have joined : P last.disk last.off (last.data ++ data) := by
        apply law.joins _ _ _ _ lastPage
        rw [adjacent.1, adjacent.2]
        exact page
      constructor
      · intro r member
        rcases List.mem_append.mp member with earlier | isLast
        · exact pages r (List.dropLast_subset _ earlier)
        · rw [List.mem_singleton.mp isLast]
          exact joined
      · rintro d p (⟨r, member, same, start, inside⟩ | ⟨same, start, inside⟩)
        · rw [split] at member
          rcases List.mem_append.mp member with earlier | isLast
          · exact ⟨r, List.mem_append_left _ earlier, same, start, inside⟩
          · rw [List.mem_singleton.mp isLast] at same start inside
            refine ⟨_, List.mem_append_right _ (List.mem_singleton.mpr rfl), same, start, ?_⟩
            simp only [List.length_append]
            omega
        · refine ⟨_, List.mem_append_right _ (List.mem_singleton.mpr rfl), ?_, ?_, ?_⟩
          · exact adjacent.1.trans same
          · dsimp only
            omega
          · simp only [List.length_append]
            omega
    · exact plain

theorem Covered.of_sub {m m' : OrdMap Key Bytes} (sub : ∀ k b, m'.get? k = some b → m.get? k = some b) {d p : Nat}
    (covered : Covered m' d p) : Covered m d p := by
  obtain ⟨o, b, found, inside⟩ := covered
  exact ⟨o, b, sub _ b found, inside⟩

theorem covered_erase {m : OrdMap Key Bytes} {k : Key} {data : Bytes} (found : m.get? k = some data) {d p : Nat}
    (covered : Covered m d p) :
    Covered (m.erase k) d p ∨ (k.disk = d ∧ k.off ≤ p ∧ p < k.off + data.length) := by
  obtain ⟨o, b, entry, start, inside⟩ := covered
  by_cases same : k = key d o
  · subst same
    rw [found] at entry
    cases entry
    exact Or.inr ⟨rfl, start, inside⟩
  · refine Or.inl ⟨o, b, ?_, start, inside⟩
    rw [get?_erase_ne _ same]
    exact entry

theorem takeOldest_spec (law : PageLaw L P) (minFreed : Nat) (keys : List Key) (freed : Nat)
    {batch : List Cache.Run} {c : Cache} (dirty : DirtyPages P c) (pages : BatchPages P batch) :
    let taken := Cache.takeOldest minFreed keys freed batch c
    BatchPages P taken.2.1 ∧ taken.2.2.clean = c.clean ∧
      (∀ k b, taken.2.2.dirty.get? k = some b → c.dirty.get? k = some b) ∧ (∀ d p, InBatch batch d p → InBatch taken.2.1 d p) ∧
      (∀ d p, Covered c.dirty d p → Covered taken.2.2.dirty d p ∨ InBatch taken.2.1 d p) := by
  induction keys generalizing freed batch c with
  | nil => exact ⟨pages, rfl, fun _ _ found => found, fun _ _ inside => inside, fun _ _ covered => Or.inl covered⟩
  | cons k tail ih =>
    unfold Cache.takeOldest
    split_ifs
    · exact ⟨pages, rfl, fun _ _ found => found, fun _ _ inside => inside, fun _ _ covered => Or.inl covered⟩
    · cases found : c.dirty.get? k with
      | none => exact ih freed dirty pages
      | some data =>
        obtain ⟨pushed, extends_⟩ := pushRun_spec law pages (dirty k data found)
        have fewer : DirtyPages P (c.removeDirty k data) := by
          intro j b entry
          rw [Cache.removeDirty_dirty] at entry
          exact dirty j b (get?_of_erase entry)
        have rest := ih (wadd freed data.length) fewer pushed
        rw [Cache.removeDirty_dirty, Cache.removeDirty_clean] at rest
        obtain ⟨taken, clean, sub, kept, cover⟩ := rest
        refine ⟨taken, clean, fun j b entry => get?_of_erase (sub j b entry),
          fun d p inside => kept d p (extends_ d p (Or.inl inside)), ?_⟩
        intro d p covered
        rcases covered_erase found covered with remains | own
        · exact cover d p remains
        · exact Or.inr (kept d p (extends_ d p (Or.inr own)))

end Flushing
end TypeBit.DiskCache
