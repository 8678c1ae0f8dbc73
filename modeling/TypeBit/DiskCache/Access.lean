import TypeBit.DiskCache.Flush

/-! Buffered writes and reads. A write whose region meets no other page makes the cache coherent
with the patched store; a read whose uncached bytes come after its dirty ones shows the store. -/

namespace TypeBit.DiskCache
open Patch OrdMap

/-- A non-empty run below the end of the offset space that shows the store. -/
def Holds (L : Nat → Nat → UInt8) : PagePred := fun d o b =>
  b ≠ [] ∧ o + b.length < 2 ^ 64 ∧ Agrees (L d) o b

def Off (d₀ o₀ n : Nat) : PagePred := fun d o b => d = d₀ → o + b.length ≤ o₀ ∨ o₀ + n ≤ o

def writeStore (L : Nat → Nat → UInt8) (d o : Nat) (data : Bytes) : Nat → Nat → UInt8 := fun e p =>
  if e = d then patch (L d) o data p else L e p

theorem holds_law (L : Nat → Nat → UInt8) : PageLaw L (Holds L) where
  joins d o a b first second := by
    refine ⟨by simp [first.1], ?_, agrees_append first.2.2 second.2.2⟩
    have bound := second.2.1
    rw [List.length_append]
    omega
  fits _ _ _ page := page.2.1
  agrees _ _ _ page := page.2.2

theorem holds_off_law (L : Nat → Nat → UInt8) {d₀ o₀ n : Nat} (positive : 0 < n) :
    PageLaw L (fun d o b => Holds L d o b ∧ Off d₀ o₀ n d o b) where
  joins d o a b first second := by
    refine ⟨(holds_law L).joins d o a b first.1 second.1, ?_⟩
    intro same
    have left := first.2 same
    have right := second.2 same
    rw [List.length_append]
    omega
  fits _ _ _ page := page.1.2.1
  agrees _ _ _ page := page.1.2.2

variable {L : Nat → Nat → UInt8}

theorem writeStore_outside {d o e p : Nat} {data : Bytes}
    (outside : e ≠ d ∨ p < o ∨ o + data.length ≤ p) : writeStore L d o data e p = L e p := by
  unfold writeStore
  split_ifs with same
  · subst same
    exact patch_outside (by simpa using outside)
  · rfl

theorem agrees_writeStore (L : Nat → Nat → UInt8) (d o : Nat) (data : Bytes) :
    Agrees (writeStore L d o data d) o data := by
  have same : writeStore L d o data d = patch (L d) o data := by
    funext p
    simp [writeStore]
  rw [same]
  exact agrees_patch (L d) o data

theorem Holds.write {d o e o' : Nat} {data b : Bytes} (page : Holds L e o' b)
    (off : Off d o data.length e o' b) : Holds (writeStore L d o data) e o' b := by
  refine ⟨page.1, page.2.1, page.2.2.congr ?_⟩
  intro p start inside
  apply writeStore_outside
  by_cases same : e = d
  · have apart := off same
    omega
  · exact Or.inl same

section Insert
variable {L disk : Nat → Nat → UInt8} {c : Cache} {d o o₁ : Nat} {data run : Bytes}

theorem Coherent.replace (coherent : Coherent (Holds L) L disk c) {m : OrdMap Key Bytes} (used : Nat)
    (own : m.get? (key d o₁) = some run)
    (others : ∀ k b, k ≠ key d o₁ → m.get? k = some b →
      c.dirty.get? k = some b ∧ Off d o₁ run.length k.disk k.off b)
    (shown : Holds (writeStore L d o data) d o₁ run) (start : o₁ ≤ o)
    (stop : o + data.length ≤ o₁ + run.length)
    (cover : ∀ e p, Covered c.dirty e p → Covered m e p)
    (cleanOff : CleanPages (Off d o data.length) c) :
    Coherent (Holds (writeStore L d o data)) (writeStore L d o data) disk
      { c with used := used, dirty := m } := by
  refine ⟨?_, ?_, ?_, ?_⟩
  · intro k b found
    by_cases here : k = key d o₁
    · rw [here, own] at found
      cases found
      rw [here]
      exact shown
    · obtain ⟨before, off⟩ := others k b here found
      apply (coherent.dirty k b before).write
      intro same
      have apart := off same
      omega
  · intro k b n found
    exact (coherent.clean k b n found).write (cleanOff k b n found)
  · intro e p p' b b' first second order
    by_cases hereFirst : key e p = key d o₁
    · rw [hereFirst, own] at first
      cases first
      obtain ⟨rfl, rfl⟩ := key_inj.mp hereFirst
      have apart := (others (key e p') b' (by simp; omega) second).2 rfl
      simp only [key_off] at apart
      omega
    · obtain ⟨firstBefore, firstOff⟩ := others _ b hereFirst first
      by_cases hereSecond : key e p' = key d o₁
      · rw [hereSecond, own] at second
        cases second
        obtain ⟨rfl, rfl⟩ := key_inj.mp hereSecond
        have apart := firstOff rfl
        simp only [key_off] at apart
        have nonempty := List.length_pos_iff.mpr shown.1
        omega
      · exact coherent.apart e p p' b b' firstBefore (others _ b' hereSecond second).1 order
  · intro e p uncovered
    rw [coherent.disk e p (fun covered => uncovered (cover e p covered)), writeStore_outside]
    by_cases same : e = d
    · subst same
      by_contra inside
      exact uncovered ⟨o₁, run, own, by omega, by omega⟩
    · exact Or.inl same

/-- No page meets the region, except a dirty entry of at most the same length that starts with it. -/
structure InsertClear (c : Cache) (d o : Nat) (data : Bytes) : Prop where
  fits : o + data.length < 2 ^ 64
  dirtyOff : ∀ k b, k ≠ key d o → c.dirty.get? k = some b → Off d o data.length k.disk k.off b
  sameStart : ∀ b, c.dirty.get? (key d o) = some b → b.length ≤ data.length
  cleanOff : CleanPages (Off d o data.length) c

theorem holds_data (L : Nat → Nat → UInt8) (nonempty : data ≠ []) (fits : o + data.length < 2 ^ 64) :
    Holds (writeStore L d o data) d o data :=
  ⟨nonempty, fits, agrees_writeStore L d o data⟩

theorem insert_start_ok (coherent : Coherent (Holds L) L disk c) (nonempty : data ≠ [])
    (clear : InsertClear c d o data) (used : Nat) :
    Coherent (Holds (writeStore L d o data)) (writeStore L d o data) disk
      { c with used := used, dirty := c.dirty.insert (key d o) data } := by
  apply coherent.replace used (get?_insert_self _ _ _) _ (holds_data L nonempty clear.fits) (le_refl o)
    (le_refl _) _ clear.cleanOff
  · intro k b other found
    have before : c.dirty.get? k = some b := by
      rwa [get?_insert_ne _ _ (Ne.symm other)] at found
    exact ⟨before, clear.dirtyOff k b other before⟩
  · rintro e p ⟨p', b, found, start, inside⟩
    by_cases here : key e p' = key d o
    · rw [here] at found
      obtain ⟨rfl, rfl⟩ := key_inj.mp here
      have shorter := clear.sameStart b found
      exact ⟨p', data, get?_insert_self _ _ _, start, by omega⟩
    · exact ⟨p', b, by rwa [get?_insert_ne _ _ (Ne.symm here)], start, inside⟩

theorem insert_pred_ok (coherent : Coherent (Holds L) L disk c) (nonempty : data ≠ [])
    (clear : InsertClear c d o data) {v : Bytes} (pred : c.dirty.get? (key d o₁) = some v)
    (adjacent : o₁ + v.length = o) (absent : c.dirty.get? (key d o) = none) (used : Nat) :
    Coherent (Holds (writeStore L d o data)) (writeStore L d o data) disk
      { c with used := used, dirty := c.dirty.insert (key d o₁) (v ++ data) } := by
  have predPage : Holds L d o₁ v := coherent.dirty _ v pred
  have positive := List.length_pos_iff.mpr predPage.1
  have predOff : Off d o data.length d o₁ v := fun _ => Or.inl (by omega)
  have shown : Holds (writeStore L d o data) d o₁ (v ++ data) := by
    apply (holds_law _).joins _ _ _ _ (predPage.write predOff)
    rw [adjacent]
    exact holds_data L nonempty clear.fits
  apply coherent.replace used (get?_insert_self _ _ _) _ shown (by omega)
    (by rw [List.length_append]; omega) _ clear.cleanOff
  · intro k b other found
    have before : c.dirty.get? k = some b := by
      rwa [get?_insert_ne _ _ (Ne.symm other)] at found
    refine ⟨before, ?_⟩
    intro same
    have different : k.off ≠ o₁ := fun equal => other (by rw [← key_eta k, same, equal])
    have entry : c.dirty.get? (key d k.off) = some b := by rw [← same, key_eta]; exact before
    have page : Holds L k.disk k.off b := coherent.dirty k b before
    have nonemptyPage := List.length_pos_iff.mpr page.1
    have dataPositive := List.length_pos_iff.mpr nonempty
    rw [List.length_append]
    by_cases lower : k.off < o₁
    · exact Or.inl (coherent.apart d k.off o₁ b v entry pred lower)
    · have above := coherent.apart d o₁ k.off v b pred entry (by omega)
      by_cases start : k = key d o
      · rw [start, absent] at before
        cases before
      · have off := clear.dirtyOff k b start before same
        omega
  · rintro e p ⟨p', b, found, start, inside⟩
    by_cases here : key e p' = key d o₁
    · rw [here, pred] at found
      cases found
      obtain ⟨rfl, rfl⟩ := key_inj.mp here
      refine ⟨p', v ++ data, get?_insert_self _ _ _, start, ?_⟩
      rw [List.length_append]
      omega
    · exact ⟨p', b, by rwa [get?_insert_ne _ _ (Ne.symm here)], start, inside⟩

theorem insert_succ_ok (coherent : Coherent (Holds L) L disk c) (nonempty : data ≠ [])
    (clear : InsertClear c d o data) {v : Bytes} (succ : c.dirty.get? (key d (o + data.length)) = some v)
    (absent : c.dirty.get? (key d o) = none) (used : Nat) :
    Coherent (Holds (writeStore L d o data)) (writeStore L d o data) disk
      { c with
        used := used
        dirty := (c.dirty.erase (key d (o + data.length))).insert (key d o) (data ++ v) } := by
  have succPage : Holds L d (o + data.length) v := coherent.dirty _ v succ
  have succOff : Off d o data.length d (o + data.length) v := fun _ => Or.inr (le_refl _)
  have shown : Holds (writeStore L d o data) d o (data ++ v) :=
    (holds_law _).joins _ _ _ _ (holds_data L nonempty clear.fits) (succPage.write succOff)
  apply coherent.replace used (get?_insert_self _ _ _) _ shown (le_refl o)
    (by rw [List.length_append]; omega) _ clear.cleanOff
  · intro k b other found
    rw [get?_insert_ne _ _ (Ne.symm other), get?_erase] at found
    split_ifs at found with erased
    refine ⟨found, ?_⟩
    intro same
    have off := clear.dirtyOff k b other found same
    have entry : c.dirty.get? (key d k.off) = some b := by rw [← same, key_eta]; exact found
    have different : k.off ≠ o + data.length := fun equal => erased (by rw [← equal, ← same, key_eta])
    rw [List.length_append]
    rcases off with before | after
    · exact Or.inl before
    · have above := coherent.apart d (o + data.length) k.off v b succ entry (by omega)
      exact Or.inr (by omega)
  · rintro e p ⟨p', b, found, start, inside⟩
    by_cases erased : key e p' = key d (o + data.length)
    · rw [erased, succ] at found
      cases found
      obtain ⟨rfl, rfl⟩ := key_inj.mp erased
      refine ⟨o, data ++ v, get?_insert_self _ _ _, by omega, ?_⟩
      rw [List.length_append]
      omega
    · have other : key e p' ≠ key d o := by
        intro here
        rw [here, absent] at found
        cases found
      refine ⟨p', b, ?_, start, inside⟩
      rw [get?_insert_ne _ _ (Ne.symm other), get?_erase_ne _ (Ne.symm erased)]
      exact found

theorem insertCoalesced_ok (coherent : Coherent (Holds L) L disk c) (nonempty : data ≠ [])
    (clear : InsertClear c d o data) :
    Coherent (Holds (writeStore L d o data)) (writeStore L d o data) disk (c.insertCoalesced d o data) := by
  unfold Cache.insertCoalesced
  cases here : c.dirty.get? (key d o) with
  | some existing => exact insert_start_ok coherent nonempty clear _
  | none =>
    dsimp only
    cases below : (c.dirty.below? (key d o)).filter
        (fun e => e.1.disk = d ∧ wadd e.1.off e.2.length = o) with
    | some e =>
      obtain ⟨k, v⟩ := e
      obtain ⟨found, adjacent⟩ := Option.filter_eq_some_iff.mp below
      simp only [Bool.decide_and, Bool.and_eq_true, decide_eq_true_eq] at adjacent
      have pred := (below?_eq_some found).1
      have page : Holds L k.disk k.off v := coherent.dirty k v pred
      have entry : c.dirty.get? (key d k.off) = some v := by rw [← adjacent.1, key_eta]; exact pred
      have same : key d k.off = k := by rw [← adjacent.1, key_eta]
      dsimp only
      rw [adjacent.2, here]
      rw [wadd_of_lt page.2.1] at adjacent
      have joined := insert_pred_ok coherent nonempty clear entry adjacent.2 here (wadd c.used data.length)
      rwa [same] at joined
    | none =>
      dsimp only
      rw [wadd_of_lt clear.fits]
      cases succ : c.dirty.get? (key d (o + data.length)) with
      | some v => exact insert_succ_ok coherent nonempty clear succ here _
      | none => exact insert_start_ok coherent nonempty clear _

end Insert

section Lookup
variable {m : OrdMap Key Bytes} {d p o : Nat} {b : Bytes}

theorem hit_some (found : Cache.hit m d p = some (o, b)) :
    m.get? (key d o) = some b ∧ o ≤ p ∧ p < wadd o b.length := by
  unfold Cache.hit at found
  obtain ⟨⟨k, v⟩, kept, same⟩ := Option.map_eq_some_iff.mp found
  obtain ⟨floor, covers⟩ := Option.filter_eq_some_iff.mp kept
  simp only [Bool.decide_and, Bool.and_eq_true, decide_eq_true_eq] at covers
  simp only [Prod.mk.injEq] at same
  obtain ⟨rfl, rfl⟩ := same
  refine ⟨?_, covers.2.1, covers.2.2⟩
  rw [← covers.1, key_eta]
  exact (floor?_eq_some floor).1

theorem hit_none (apart : DirtyApart m) (fits : ∀ k v, m.get? k = some v → k.off + v.length < 2 ^ 64)
    (missed : Cache.hit m d p = none) : ¬ Covered m d p := by
  rintro ⟨o, b, entry, start, inside⟩
  unfold Cache.hit at missed
  cases floor : m.floor? (key d p) with
  | none =>
    have absent := floor?_eq_none floor (key d o)
      (Prod.Lex.toLex_le_toLex.mpr (Or.inr ⟨rfl, start⟩))
    rw [entry] at absent
    cases absent
  | some e =>
    obtain ⟨k, v⟩ := e
    obtain ⟨found, upper, largest⟩ := floor?_eq_some floor
    have lower := largest (key d o) b entry (Prod.Lex.toLex_le_toLex.mpr (Or.inr ⟨rfl, start⟩))
    rw [← key_eta k] at upper lower
    have upperCases := Prod.Lex.toLex_le_toLex.mp upper
    have lowerCases := Prod.Lex.toLex_le_toLex.mp lower
    simp only at upperCases lowerCases
    have sameDisk : k.disk = d := by omega
    have between : o ≤ k.off ∧ k.off ≤ p := by omega
    have pageFits := fits k v found
    rw [← key_eta k, sameDisk] at found
    have covers : p < k.off + v.length := by
      by_cases first : k.off = o
      · rw [first, entry] at found
        cases found
        omega
      · have past := apart d o k.off b v entry found (by omega)
        omega
    simp [floor, sameDisk, between.2, wadd_of_lt pageFits] at missed
    omega

end Lookup

variable {c : Cache}

theorem cleanHit_some {d p o : Nat} {b : Bytes} (found : c.cleanHit d p = some (o, b)) :
    (∃ n, c.clean.get? (key d o) = some (b, n)) ∧ o ≤ p ∧ p < wadd o b.length := by
  obtain ⟨entry, inside⟩ := hit_some found
  rw [get?_mapValues] at entry
  obtain ⟨⟨v, n⟩, page, rfl⟩ := Option.map_eq_some_iff.mp entry
  exact ⟨⟨n, page⟩, inside⟩

theorem touch_cleanHit (c : Cache) (d pageOff e p : Nat) : (c.touch d pageOff).cleanHit e p = c.cleanHit e p := by
  have same : (c.touch d pageOff).clean.mapValues (fun _ page => page.1) =
      c.clean.mapValues (fun _ page => page.1) := by
    apply ext_get?
    intro k
    unfold Cache.touch
    rw [get?_mapValues, get?_mapValues, get?_modify]
    by_cases here : key d pageOff = k
    · rw [if_pos here, Option.map_map]
      rfl
    · rw [if_neg here]
  unfold Cache.cleanHit
  rw [same]

theorem Coherent.touch {P : PagePred} {L disk : Nat → Nat → UInt8} (coherent : Coherent P L disk c)
    (d pageOff : Nat) : Coherent P L disk (c.touch d pageOff) := by
  refine ⟨coherent.dirty, ?_, coherent.apart, coherent.disk⟩
  intro k b n found
  unfold Cache.touch at found
  rw [get?_modify] at found
  split_ifs at found with here
  · obtain ⟨⟨v, stamp⟩, page, same⟩ := Option.map_eq_some_iff.mp found
    cases same
    exact coherent.clean k v stamp page
  · exact coherent.clean k b n found

def ReadClear (c : Cache) (d o n : Nat) : Prop :=
  ∀ p, o ≤ p → p < o + n → c.dirtyHit d p = none → c.cleanHit d p = none →
    ∀ q, p ≤ q → q < o + n → c.dirtyHit d q = none

theorem ReadClear.suffix {d o n k : Nat} (clear : ReadClear c d o n) (short : k ≤ n) : ReadClear c d (o + k) (n - k) := by
  intro p start inside missDirty missClean q later stop
  exact clear p (by omega) (by omega) missDirty missClean q later (by omega)

theorem dirtyHit_none_of_uncovered {P : PagePred} (law : PageLaw L P)
    (dirty : DirtyPages P c) {d q : Nat} (uncovered : ¬ Covered c.dirty d q) : c.dirtyHit d q = none := by
  cases found : c.dirtyHit d q with
  | none => rfl
  | some e =>
    obtain ⟨entry, start, inside⟩ := hit_some found
    rw [wadd_of_lt (law.fits d e.1 e.2 (dirty _ _ entry))] at inside
    exact absurd ⟨e.1, e.2, entry, start, inside⟩ uncovered

theorem agrees_part {d o pos n : Nat} {page : Bytes} (shown : Agrees (L d) o page)
    (start : o ≤ pos) : Agrees (L d) pos ((page.drop (pos - o)).take n) := by
  have tail := shown.drop (n := pos - o)
  rw [Nat.add_sub_cancel' start] at tail
  exact tail.take

def ShownIn (P : PagePred) (L : Nat → Nat → UInt8) (d o n : Nat) : Prop :=
  ∀ p b, o ≤ p → p + b.length ≤ o + n → b ≠ [] → Agrees (L d) p b → P d p b

theorem holds_shownIn (L : Nat → Nat → UInt8) {d o n : Nat} (fits : o + n < 2 ^ 64) : ShownIn (Holds L) L d o n :=
  fun _ _ _ inside filled shown => ⟨filled, by omega, shown⟩

section Read
variable {H : Type} {host : DiskHost H} {contents : H → Nat → Nat → UInt8} (store : ByteStore host contents)
variable {L : Nat → Nat → UInt8} {P : PagePred} (law : PageLaw L P)
include store law

theorem diskRead_ok {s : State H} {h : H} {d pos len : Nat} {part : Bytes}
    (coherent : Coherent P L (contents s.host) s.cache) (shows : ShownIn P L d pos len)
    (uncovered : ∀ q, pos ≤ q → q < pos + len → ¬ Covered s.cache.dirty d q) (some : part ≠ [])
    (ran : host.diskRead s.host d pos len = (.ok part, h)) :
    part.length ≤ len ∧ Agrees (L d) pos part ∧
      Coherent P L (contents h) (s.cache.promoteClean d pos part) ∧
      (s.cache.promoteClean d pos part).dirty = s.cache.dirty := by
  obtain ⟨short, shown, same⟩ := store.read_ok _ _ _ _ _ _ ran
  have agrees : Agrees (L d) pos part := by
    apply shown.congr
    intro q start inside
    exact (coherent.disk d q (uncovered q start (by omega))).symm
  have page : P d pos part := shows pos part (le_refl pos) (by omega) some agrees
  obtain ⟨clean, dirty⟩ := promoteClean_spec law coherent.clean page
  refine ⟨short, agrees, ⟨?_, clean, ?_, ?_⟩, dirty⟩
  · intro k b found
    rw [dirty] at found
    exact coherent.dirty k b found
  · rw [dirty]
    exact coherent.apart
  · rw [dirty, same]
    exact coherent.disk

theorem readLoop_ok {d start n pos len : Nat} {out got : Bytes} {s t : State H}
    (coherent : Coherent P L (contents s.host) s.cache) (fits : pos + len < 2 ^ 64) (shows : ShownIn P L d pos len)
    (clear : ReadClear s.cache d pos len) (shown : Agrees (L d) start out) (at_pos : start + out.length = pos)
    (ran : readLoop host d n pos len out s = (.ok got, t)) :
    Agrees (L d) start got ∧ Coherent P L (contents t.host) t.cache := by
  induction n generalizing pos len out s with
  | zero =>
    cases ran
    exact ⟨shown, coherent⟩
  | succ n ih =>
    have suffix : ∀ {k : Nat}, k ≤ len → ShownIn P L d (pos + k) (len - k) :=
      fun short p b low high => shows p b (by omega) (by omega)
    unfold readLoop at ran
    split_ifs at ran with full
    · cases ran
      exact ⟨shown, coherent⟩
    · cases dirtyFound : s.cache.dirtyHit d pos with
      | some e =>
        obtain ⟨pageOff, page⟩ := e
        obtain ⟨entry, before, -⟩ := hit_some dirtyFound
        have part := agrees_part (n := len) (law.agrees _ _ _ (coherent.dirty _ _ entry)) before
        simp only [dirtyFound] at ran
        have short : ((page.drop (pos - pageOff)).take len).length ≤ len := List.length_take_le ..
        rw [wadd_of_lt (by omega)] at ran
        refine ih coherent (by omega) (suffix short) (clear.suffix short)
          (agrees_append shown (by rw [at_pos]; exact part)) ?_ ran
        rw [List.length_append]
        omega
      | none =>
        simp only [dirtyFound] at ran
        cases cleanFound : s.cache.cleanHit d pos with
        | some e =>
          obtain ⟨pageOff, page⟩ := e
          obtain ⟨⟨stamp, entry⟩, before, -⟩ := cleanHit_some cleanFound
          have part := agrees_part (n := len) (law.agrees _ _ _ (coherent.clean _ _ _ entry)) before
          simp only [cleanFound] at ran
          have short : ((page.drop (pos - pageOff)).take len).length ≤ len := List.length_take_le ..
          rw [wadd_of_lt (by omega)] at ran
          have appended : Agrees (L d) start (out ++ (page.drop (pos - pageOff)).take len) :=
            agrees_append shown (by rw [at_pos]; exact part)
          split_ifs at ran
          · refine ih (coherent.touch d pageOff) (by omega) (suffix short) ?_ appended ?_ ran
            · intro p low high missDirty missClean
              rw [touch_cleanHit] at missClean
              exact clear.suffix short p low high missDirty missClean
            · rw [List.length_append]
              omega
          · refine ih coherent (by omega) (suffix short) (clear.suffix short) appended ?_ ran
            rw [List.length_append]
            omega
        | none =>
          simp only [cleanFound] at ran
          have uncovered : ∀ q, pos ≤ q → q < pos + len → ¬ Covered s.cache.dirty d q := by
            intro q low high
            apply hit_none coherent.apart (fun k v found => law.fits _ _ _ (coherent.dirty k v found))
            exact clear pos (le_refl pos) (by omega) dirtyFound cleanFound q low high
          rcases disk : host.diskRead s.host d pos len with ⟨_ | part, h⟩
          · simp [disk] at ran
          · simp only [disk] at ran
            split_ifs at ran with done
            · cases ran
              obtain ⟨-, -, same⟩ := store.read_ok _ _ _ _ _ _ disk
              exact ⟨shown, coherent.dirty, coherent.clean, coherent.apart, same ▸ coherent.disk⟩
            · obtain ⟨short, agrees, kept, dirty⟩ := diskRead_ok store law coherent shows uncovered done disk
              rw [wadd_of_lt (by omega)] at ran
              refine ih kept (by omega) (suffix short) ?_ (agrees_append shown (by rw [at_pos]; exact agrees)) ?_ ran
              · intro p low high _ _ q later stop
                apply dirtyHit_none_of_uncovered law kept.dirty
                rw [dirty]
                exact uncovered q (by omega) (by omega)
              · rw [List.length_append]
                omega

end Read
end TypeBit.DiskCache
