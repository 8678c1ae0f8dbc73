import Mathlib.Data.List.Induction
import TypeBit.DiskCache.Coherence

/-! Workloads that write every region once and read only what they wrote, over a disk that never
fails. Entries are flushed whole, so a region is either in one dirty entry or not dirty at all;
clean pages hold only written positions, so a later write never meets one. -/

namespace TypeBit.DiskCache
open Patch OrdMap

def Cache.Run.Spans (r : Cache.Run) (d p : Nat) : Prop := r.disk = d ∧ r.off ≤ p ∧ p < r.off + r.data.length

def Call.regions : Call → List Cache.Run
  | .write d o data => [⟨d, o, data⟩]
  | _ => []

def regionsOf (calls : List Call) : List Cache.Run := calls.flatMap Call.regions

/-- Every region ends inside the offset space and shares no position with another, and every read
lies inside one region written before it. -/
structure WriteOnce (calls : List Call) : Prop where
  fits : ∀ r ∈ regionsOf calls, r.off + r.data.length < 2 ^ 64
  disjoint : (regionsOf calls).Pairwise (fun q r => ∀ d p, q.Spans d p → ¬ r.Spans d p)
  served : ∀ before d o n after, calls = before ++ .read d o n :: after →
    ∃ r ∈ regionsOf before, r.disk = d ∧ r.off ≤ o ∧ o + n ≤ r.off + r.data.length

/-- A byte store whose calls never fail. `held` are the positions inside the files: a write extends
them, and a read that starts at one returns at least a byte. -/
structure SureStore {H : Type} (host : DiskHost H) (contents : H → Nat → Nat → UInt8)
    (held : H → Nat → Nat → Prop) : Prop extends ByteStore host contents where
  writes : ∀ h d o b, ∃ h', host.diskWrite h d o b = (.ok (), h') ∧
    ∀ e p, held h e p ∨ (⟨d, o, b⟩ : Cache.Run).Spans e p → held h' e p
  reads : ∀ h d o n, ∃ b h', host.diskRead h d o n = (.ok b, h') ∧ (∀ e p, held h e p → held h' e p) ∧
    (0 < n → held h d o → b ≠ [])

def runAll {H : Type} (host : DiskHost H) (calls : List Call) (s : State H) : State H :=
  calls.foldl (fun t call => (call.run host t).2) s

def Shows (L : Nat → Nat → UInt8) (done : List Cache.Run) : PagePred := fun d o b =>
  Holds L d o b ∧ ∀ p, o ≤ p → p < o + b.length → InBatch done d p

def Whole (m : OrdMap Key Bytes) (r : Cache.Run) : Prop :=
  (∃ o b, m.get? (key r.disk o) = some b ∧ o ≤ r.off ∧ r.off + r.data.length ≤ o + b.length) ∨
    ∀ p, r.off ≤ p → p < r.off + r.data.length → ¬ Covered m r.disk p

theorem shows_law (L : Nat → Nat → UInt8) (done : List Cache.Run) : PageLaw L (Shows L done) where
  joins d o a b first second := by
    refine ⟨(holds_law L).joins d o a b first.1 second.1, ?_⟩
    intro p start inside
    rw [List.length_append] at inside
    by_cases early : p < o + a.length
    · exact first.2 p start early
    · exact second.2 p (by omega) (by omega)
  fits _ _ _ page := page.1.2.1
  agrees _ _ _ page := page.1.2.2

theorem inBatch_append {early late : List Cache.Run} {d p : Nat} :
    InBatch (early ++ late) d p ↔ InBatch early d p ∨ InBatch late d p := by
  simp only [InBatch, List.mem_append, or_and_right, exists_or]

theorem inBatch_singleton {r : Cache.Run} {d p : Nat} : InBatch [r] d p ↔ r.Spans d p := by
  simp [InBatch, Cache.Run.Spans]

/-! ### Flushes -/

section Flushing
variable {H : Type} {host : DiskHost H} {contents : H → Nat → Nat → UInt8} {held : H → Nat → Nat → Prop}
variable (sure : SureStore host contents held) {L : Nat → Nat → UInt8} {done : List Cache.Run}

structure Drained (held : H → Nat → Nat → Prop) (s t : State H) : Prop where
  sub : ∀ k b, t.cache.dirty.get? k = some b → s.cache.dirty.get? k = some b
  kept : ∀ d p, Covered s.cache.dirty d p → Covered t.cache.dirty d p ∨ held t.host d p
  held : ∀ d p, held s.host d p → held t.host d p

theorem Drained.refl (s : State H) : Drained held s s :=
  ⟨fun _ _ found => found, fun _ _ covered => Or.inl covered, fun _ _ stays => stays⟩

theorem Drained.trans {s t u : State H} (first : Drained held s t) (second : Drained held t u) :
    Drained held s u := by
  refine ⟨fun k b found => first.sub k b (second.sub k b found), ?_,
    fun d p stays => second.held d p (first.held d p stays)⟩
  intro d p covered
  rcases first.kept d p covered with remains | stored
  · exact second.kept d p remains
  · exact Or.inr (second.held d p stored)

include sure

theorem writeBatch_sure (batch : List Cache.Run) (s : State H) :
    ∃ t, writeBatch host batch s = (.ok (), t) ∧ ∀ d p, held s.host d p ∨ InBatch batch d p → held t.host d p := by
  induction batch generalizing s with
  | nil =>
    refine ⟨s, rfl, ?_⟩
    rintro d p (stays | ⟨r, member, -⟩)
    · exact stays
    · simp at member
  | cons r tail ih =>
    obtain ⟨h, written, stored⟩ := sure.writes s.host r.disk r.off r.data
    obtain ⟨t, ran, rest⟩ := ih ⟨s.cache.promoteClean r.disk r.off r.data, h⟩
    refine ⟨t, ?_, ?_⟩
    · unfold writeBatch
      rw [written]
      exact ran
    · rintro d p (stays | ⟨q, member, spans⟩)
      · exact rest d p (Or.inl (stored d p (Or.inl stays)))
      · rcases List.mem_cons.mp member with rfl | later
        · exact rest d p (Or.inl (stored d p (Or.inr spans)))
        · exact rest d p (Or.inr ⟨q, later, spans⟩)

theorem flushOldest_sure (minFreed : Nat) {s : State H} (coherent : Coherent (Shows L done) L (contents s.host) s.cache) :
    ∃ freed t, flushOldest host minFreed s = (.ok freed, t) ∧ Drained held s t ∧
      Coherent (Shows L done) L (contents t.host) t.cache := by
  obtain ⟨-, -, sub, -, cover⟩ := takeOldest_spec (shows_law L done) minFreed s.cache.dirty.keys 0 coherent.dirty
    (show BatchPages (Shows L done) [] from fun r member => by simp at member)
  obtain ⟨t, wrote, stored⟩ := writeBatch_sure sure (Cache.takeOldest minFreed s.cache.dirty.keys 0 [] s.cache).2.1
    ⟨(Cache.takeOldest minFreed s.cache.dirty.keys 0 [] s.cache).2.2, s.host⟩
  have ran : flushOldest host minFreed s = (.ok (Cache.takeOldest minFreed s.cache.dirty.keys 0 [] s.cache).1, t) := by
    unfold flushOldest
    simp only [wrote]
  obtain ⟨next, same⟩ := flushOldest_ok sure.toByteStore (shows_law L done) coherent ran
  refine ⟨_, t, ran, ⟨?_, ?_, ?_⟩, next⟩
  · intro k b found
    rw [same] at found
    exact sub k b found
  · intro d p covered
    rw [same]
    rcases cover d p covered with remains | taken
    · exact Or.inl remains
    · exact Or.inr (stored d p (Or.inr taken))
  · intro d p stays
    exact stored d p (Or.inl stays)

theorem flush_sure {s : State H} (coherent : Coherent (Shows L done) L (contents s.host) s.cache) :
    ∃ t, flush host s = (.ok (), t) ∧ Drained held s t ∧ Coherent (Shows L done) L (contents t.host) t.cache := by
  obtain ⟨freed, t, ran, drained, next⟩ := flushOldest_sure sure (2 ^ 64 - 1) coherent
  exact ⟨t, Op.bind_ok_iff.mpr ⟨freed, t, ran, Op.pure_ok_iff.mpr ⟨rfl, rfl⟩⟩, drained, next⟩

theorem makeRoom_sure (len n : Nat) {s : State H} (coherent : Coherent (Shows L done) L (contents s.host) s.cache) :
    ∃ t, makeRoom host len n s = (.ok (), t) ∧ Drained held s t ∧
      Coherent (Shows L done) L (contents t.host) t.cache := by
  induction n generalizing s with
  | zero => exact ⟨s, rfl, Drained.refl s, coherent⟩
  | succ n ih =>
    unfold makeRoom
    split_ifs with tight
    · obtain ⟨freed, u, ran, drained, next⟩ := flushOldest_sure sure len coherent
      simp only [ran]
      split_ifs
      · exact ⟨u, rfl, drained, next⟩
      · obtain ⟨t, rest, later, last⟩ := ih next
        exact ⟨t, rest, drained.trans later, last⟩
    · exact ⟨s, rfl, Drained.refl s, coherent⟩

theorem flushDiskLoop_sure (keys : List Key) (nodup : keys.Nodup) {s : State H}
    (present : ∀ k ∈ keys, ∃ b, s.cache.dirty.get? k = some b)
    (coherent : Coherent (Shows L done) L (contents s.host) s.cache) :
    ∃ t, flushDiskLoop host keys s = (.ok (), t) ∧ Drained held s t := by
  induction keys generalizing s with
  | nil => exact ⟨s, rfl, Drained.refl s⟩
  | cons k tail ih =>
    obtain ⟨data, found⟩ := present k (by simp)
    obtain ⟨h, written, stored⟩ := sure.writes s.host k.disk k.off data
    have one : flushDiskLoop host [k] s = (.ok (), ⟨(s.cache.removeDirty k data).promoteClean k.disk k.off data, h⟩) := by
      simp only [flushDiskLoop, found, written]
    have next := flushDiskLoop_ok sure.toByteStore (shows_law L done) coherent one
    have sameDirty : ((s.cache.removeDirty k data).promoteClean k.disk k.off data).dirty = s.cache.dirty.erase k :=
      (promoteClean_spec (shows_law L done) (show CleanPages _ (s.cache.removeDirty k data) from coherent.clean)
        (coherent.dirty k data found)).2
    have drained : Drained held s ⟨(s.cache.removeDirty k data).promoteClean k.disk k.off data, h⟩ := by
      refine ⟨?_, ?_, fun d p stays => stored d p (Or.inl stays)⟩
      · intro j b entry
        rw [sameDirty] at entry
        exact get?_of_erase entry
      · intro d p covered
        rw [sameDirty]
        rcases covered_erase found covered with remains | own
        · exact Or.inl remains
        · exact Or.inr (stored d p (Or.inr own))
    obtain ⟨fresh, nodupTail⟩ := List.nodup_cons.mp nodup
    have presentTail : ∀ j ∈ tail, ∃ b, ((s.cache.removeDirty k data).promoteClean k.disk k.off data).dirty.get? j = some b := by
      intro j member
      obtain ⟨b, entry⟩ := present j (List.mem_cons_of_mem _ member)
      have other : k ≠ j := fun same => fresh (same ▸ member)
      refine ⟨b, ?_⟩
      rw [sameDirty, get?_erase_ne _ other]
      exact entry
    obtain ⟨t, ran, later⟩ := ih nodupTail presentTail next
    refine ⟨t, ?_, drained.trans later⟩
    unfold flushDiskLoop
    simp only [found, written]
    exact ran

theorem flushDisk_sure (d : Nat) {s : State H} (coherent : Coherent (Shows L done) L (contents s.host) s.cache) :
    ∃ t, flushDisk host d s = (.ok (), t) ∧ Drained held s t ∧
      Coherent (Shows L done) L (contents t.host) t.cache := by
  obtain ⟨t, ran, drained⟩ := flushDiskLoop_sure sure (s.cache.dirty.keys.filter (fun k => k.disk = d))
    (s.cache.dirty.keys_nodup.filter _)
    (fun k member => (mem_keys_iff _ k).mp (List.mem_filter.mp member).1) coherent
  exact ⟨t, ran, drained, flushDiskLoop_ok sure.toByteStore (shows_law L done) coherent ran⟩

end Flushing

/-! ### Inserting a region -/

/-- The map takes the run in: old entries and the run are each inside one entry, and nothing else is covered. -/
structure Absorbs (m m' : OrdMap Key Bytes) (r : Cache.Run) : Prop where
  olds : ∀ d o b, m.get? (key d o) = some b →
    ∃ o' b', m'.get? (key d o') = some b' ∧ o' ≤ o ∧ o + b.length ≤ o' + b'.length
  own : ∃ o' b', m'.get? (key r.disk o') = some b' ∧ o' ≤ r.off ∧ r.off + r.data.length ≤ o' + b'.length
  made : ∀ d p, Covered m' d p → Covered m d p ∨ r.Spans d p

section Insert
variable {m m' : OrdMap Key Bytes} {d o o₁ : Nat} {data run : Bytes}

theorem absorbs_replace (own : m'.get? (key d o₁) = some run)
    (others : ∀ k b, k ≠ key d o₁ → m'.get? k = some b → m.get? k = some b)
    (olds : ∀ k b, m.get? k = some b →
      m'.get? k = some b ∨ (k.disk = d ∧ o₁ ≤ k.off ∧ k.off + b.length ≤ o₁ + run.length))
    (start : o₁ ≤ o) (stop : o + data.length ≤ o₁ + run.length)
    (made : ∀ p, o₁ ≤ p → p < o₁ + run.length → Covered m d p ∨ (o ≤ p ∧ p < o + data.length)) :
    Absorbs m m' ⟨d, o, data⟩ := by
  constructor
  · intro e p b found
    rcases olds (key e p) b found with stays | ⟨same, low, high⟩
    · exact ⟨p, b, stays, le_refl p, le_refl _⟩
    · rw [key_disk] at same
      subst same
      exact ⟨o₁, run, own, low, high⟩
  · exact ⟨o₁, run, own, start, stop⟩
  · rintro e p ⟨o', b, found, low, high⟩
    by_cases here : key e o' = key d o₁
    · rw [here, own] at found
      cases found
      obtain ⟨rfl, rfl⟩ := key_inj.mp here
      rcases made p low high with covered | inside
      · exact Or.inl covered
      · exact Or.inr ⟨rfl, inside⟩
    · exact Or.inl ⟨o', b, others _ b here found, low, high⟩

theorem absorbs_plain (absent : m.get? (key d o) = none) : Absorbs m (m.insert (key d o) data) ⟨d, o, data⟩ := by
  apply absorbs_replace (get?_insert_self _ _ _) _ _ (le_refl o) (le_refl _) (fun p low high => Or.inr ⟨low, high⟩)
  · intro k b other found
    rwa [get?_insert_ne _ _ (Ne.symm other)] at found
  · intro k b found
    left
    rwa [get?_insert_ne]
    rintro rfl
    rw [absent] at found
    cases found

theorem absorbs_pred {v : Bytes} (pred : m.get? (key d o₁) = some v) (adjacent : o₁ + v.length = o) :
    Absorbs m (m.insert (key d o₁) (v ++ data)) ⟨d, o, data⟩ := by
  apply absorbs_replace (get?_insert_self _ _ _) _ _ (by omega) (by rw [List.length_append]; omega)
  · intro p low high
    rw [List.length_append] at high
    by_cases early : p < o
    · exact Or.inl ⟨o₁, v, pred, low, by omega⟩
    · exact Or.inr (by omega)
  · intro k b other found
    rwa [get?_insert_ne _ _ (Ne.symm other)] at found
  · intro k b found
    by_cases here : key d o₁ = k
    · subst here
      rw [pred] at found
      cases found
      right
      rw [List.length_append, key_disk, key_off]
      omega
    · left
      rwa [get?_insert_ne _ _ here]

theorem absorbs_succ {v : Bytes} (succ : m.get? (key d (o + data.length)) = some v)
    (absent : m.get? (key d o) = none) :
    Absorbs m ((m.erase (key d (o + data.length))).insert (key d o) (data ++ v)) ⟨d, o, data⟩ := by
  apply absorbs_replace (get?_insert_self _ _ _) _ _ (le_refl o) (by rw [List.length_append]; omega)
  · intro p low high
    rw [List.length_append] at high
    by_cases early : p < o + data.length
    · exact Or.inr ⟨low, early⟩
    · exact Or.inl ⟨o + data.length, v, succ, by omega, by omega⟩
  · intro k b other found
    rw [get?_insert_ne _ _ (Ne.symm other)] at found
    exact get?_of_erase found
  · intro k b found
    by_cases erased : key d (o + data.length) = k
    · subst erased
      rw [succ] at found
      cases found
      right
      rw [List.length_append, key_disk, key_off]
      omega
    · left
      rw [get?_insert_ne, get?_erase_ne _ erased]
      · exact found
      · rintro rfl
        rw [absent] at found
        cases found

theorem absorbs_insertCoalesced {c : Cache} (entries : ∀ k b, c.dirty.get? k = some b → k.off + b.length < 2 ^ 64)
    (fits : o + data.length < 2 ^ 64) (absent : c.dirty.get? (key d o) = none) :
    Absorbs c.dirty (c.insertCoalesced d o data).dirty ⟨d, o, data⟩ := by
  unfold Cache.insertCoalesced
  rw [absent]
  dsimp only
  cases below : (c.dirty.below? (key d o)).filter (fun e => e.1.disk = d ∧ wadd e.1.off e.2.length = o) with
  | some e =>
    obtain ⟨k, v⟩ := e
    obtain ⟨found, adjacent⟩ := Option.filter_eq_some_iff.mp below
    simp only [Bool.decide_and, Bool.and_eq_true, decide_eq_true_eq] at adjacent
    have pred := (below?_eq_some found).1
    have same : key d k.off = k := by rw [← adjacent.1, key_eta]
    dsimp only
    rw [adjacent.2, absent]
    rw [wadd_of_lt (entries k v pred)] at adjacent
    have pred_at : c.dirty.get? (key d k.off) = some v := by rwa [same]
    have joined : Absorbs c.dirty (c.dirty.insert (key d k.off) (v ++ data)) ⟨d, o, data⟩ := absorbs_pred pred_at adjacent.2
    rwa [same] at joined
  | none =>
    dsimp only
    rw [wadd_of_lt fits]
    cases succ : c.dirty.get? (key d (o + data.length)) with
    | some v => exact absorbs_succ succ absent
    | none => exact absorbs_plain absent

theorem Absorbs.covered {r : Cache.Run} (absorbs : Absorbs m m' r) {e p : Nat} (covered : Covered m e p) :
    Covered m' e p := by
  obtain ⟨o', b, found, low, high⟩ := covered
  obtain ⟨o'', b', entry, start, stop⟩ := absorbs.olds e o' b found
  exact ⟨o'', b', entry, by omega, by omega⟩

theorem Absorbs.covers {r : Cache.Run} (absorbs : Absorbs m m' r) {e p : Nat} (spans : r.Spans e p) :
    Covered m' e p := by
  obtain ⟨o', b, entry, start, stop⟩ := absorbs.own
  obtain ⟨rfl, low, high⟩ := spans
  exact ⟨o', b, entry, by omega, by omega⟩

theorem Absorbs.whole {q r : Cache.Run} (absorbs : Absorbs m m' r) (whole : Whole m q)
    (apart : ∀ d p, q.Spans d p → ¬ r.Spans d p) : Whole m' q := by
  rcases whole with ⟨o', b, found, low, high⟩ | uncovered
  · obtain ⟨o'', b', entry, start, stop⟩ := absorbs.olds q.disk o' b found
    exact Or.inl ⟨o'', b', entry, by omega, by omega⟩
  · right
    intro p low high covered
    rcases absorbs.made q.disk p covered with before | spans
    · exact uncovered p low high before
    · exact apart q.disk p ⟨rfl, low, high⟩ spans

theorem Whole.sub {r : Cache.Run} (whole : Whole m r) (apart : DirtyApart m)
    (sub : ∀ k b, m'.get? k = some b → m.get? k = some b) : Whole m' r := by
  rcases whole with ⟨o', b, found, low, high⟩ | uncovered
  · cases entry : m'.get? (key r.disk o') with
    | some b' =>
      have same := sub _ b' entry
      rw [found] at same
      cases same
      exact Or.inl ⟨o', b, entry, low, high⟩
    | none =>
      right
      -- an entry that still covers a position of the region would overlap the one that left
      rintro p start stop ⟨o'', b'', other, low', high'⟩
      have before := sub _ b'' other
      rcases Nat.lt_trichotomy o' o'' with less | same | more
      · have past := apart r.disk o' o'' b b'' found before less
        omega
      · rw [same, other] at entry
        cases entry
      · have past := apart r.disk o'' o' b'' b before found more
        omega
  · exact Or.inr (fun p low high covered => uncovered p low high (covered.of_sub sub))

end Insert

/-! ### Reads -/

section Reading
variable {H : Type} {host : DiskHost H} {contents : H → Nat → Nat → UInt8} {held : H → Nat → Nat → Prop}
variable {L : Nat → Nat → UInt8} {done : List Cache.Run}

variable {disk : Nat → Nat → UInt8} {c : Cache}

theorem Whole.readClear {r : Cache.Run} {o n : Nat} (whole : Whole c.dirty r)
    (coherent : Coherent (Shows L done) L disk c) (start : r.off ≤ o) (stop : o + n ≤ r.off + r.data.length) :
    ReadClear c r.disk o n := by
  intro p low high missed _ q later last
  rcases whole with ⟨o', b, found, before, past⟩ | uncovered
  · have absent := hit_none coherent.apart
      (fun k v entry => (shows_law L done).fits _ _ _ (coherent.dirty k v entry)) missed
    exact absurd ⟨o', b, found, by omega, by omega⟩ absent
  · exact dirtyHit_none_of_uncovered (shows_law L done) coherent.dirty (uncovered q (by omega) (by omega))

variable {page : Bytes}

theorem part_pos {pageOff pos len : Nat} (wanted : 0 < len) (start : pageOff ≤ pos)
    (inside : pos < pageOff + page.length) : 0 < ((page.drop (pos - pageOff)).take len).length := by
  rw [List.length_take, List.length_drop]
  omega

theorem dirtyHit_covers {d pos pageOff : Nat}
    (coherent : Coherent (Shows L done) L disk c) (found : c.dirtyHit d pos = some (pageOff, page)) :
    pageOff ≤ pos ∧ pos < pageOff + page.length := by
  obtain ⟨entry, before, inside⟩ := hit_some found
  have fits : pageOff + page.length < 2 ^ 64 := (shows_law L done).fits _ _ _ (coherent.dirty _ _ entry)
  rw [wadd_of_lt fits] at inside
  exact ⟨before, inside⟩

theorem cleanHit_covers {d pos pageOff : Nat}
    (coherent : Coherent (Shows L done) L disk c) (found : c.cleanHit d pos = some (pageOff, page)) :
    pageOff ≤ pos ∧ pos < pageOff + page.length := by
  obtain ⟨⟨stamp, entry⟩, before, inside⟩ := cleanHit_some found
  have fits : pageOff + page.length < 2 ^ 64 := (shows_law L done).fits _ _ _ (coherent.clean _ _ _ entry)
  rw [wadd_of_lt fits] at inside
  exact ⟨before, inside⟩

theorem readLoop_sure (sure : SureStore host contents held) {d n pos len : Nat} (out : Bytes) {s : State H}
    (coherent : Coherent (Shows L done) L (contents s.host) s.cache) (fits : pos + len < 2 ^ 64)
    (shows : ShownIn (Shows L done) L d pos len) (clear : ReadClear s.cache d pos len)
    (kept : ∀ p, pos ≤ p → p < pos + len → Covered s.cache.dirty d p ∨ held s.host d p) (fuel : len ≤ n) :
    ∃ got t, readLoop host d n pos len out s = (.ok got, t) ∧ got.length = out.length + len ∧
      t.cache.dirty = s.cache.dirty ∧ ∀ e p, held s.host e p → held t.host e p := by
  induction n generalizing pos len out s with
  | zero => exact ⟨out, s, rfl, by omega, rfl, fun _ _ stays => stays⟩
  | succ n ih =>
    have suffix : ∀ {k : Nat}, k ≤ len → ShownIn (Shows L done) L d (pos + k) (len - k) :=
      fun short p b low high => shows p b (by omega) (by omega)
    unfold readLoop
    split_ifs with full
    · exact ⟨out, s, rfl, by omega, rfl, fun _ _ stays => stays⟩
    · cases dirtyFound : s.cache.dirtyHit d pos with
      | some e =>
        obtain ⟨pageOff, page⟩ := e
        obtain ⟨before, inside⟩ := dirtyHit_covers coherent dirtyFound
        have some := part_pos (Nat.pos_of_ne_zero full) before inside
        have short : ((page.drop (pos - pageOff)).take len).length ≤ len := List.length_take_le ..
        dsimp only
        rw [wadd_of_lt (by omega)]
        obtain ⟨got, t, ran, length, rest⟩ := ih (out ++ (page.drop (pos - pageOff)).take len) coherent (by omega)
          (suffix short) (clear.suffix short) (fun p low high => kept p (by omega) (by omega)) (by omega)
        refine ⟨got, t, ran, ?_, rest⟩
        rw [length, List.length_append]
        omega
      | none =>
        cases cleanFound : s.cache.cleanHit d pos with
        | some e =>
          obtain ⟨pageOff, page⟩ := e
          obtain ⟨before, inside⟩ := cleanHit_covers coherent cleanFound
          have some := part_pos (Nat.pos_of_ne_zero full) before inside
          have short : ((page.drop (pos - pageOff)).take len).length ≤ len := List.length_take_le ..
          have rest : ∀ u : Cache, Coherent (Shows L done) L (contents s.host) u → u.dirty = s.cache.dirty →
              (∀ p, u.cleanHit d p = s.cache.cleanHit d p) →
              ∃ got t, readLoop host d n (pos + ((page.drop (pos - pageOff)).take len).length)
                  (len - ((page.drop (pos - pageOff)).take len).length)
                  (out ++ (page.drop (pos - pageOff)).take len) ⟨u, s.host⟩ = (.ok got, t) ∧
                got.length = out.length + len ∧ t.cache.dirty = s.cache.dirty ∧
                ∀ e p, held s.host e p → held t.host e p := by
            intro u next same hits
            have clearNext : ReadClear u d (pos + ((page.drop (pos - pageOff)).take len).length)
                (len - ((page.drop (pos - pageOff)).take len).length) := by
              intro p low high missDirty missClean q later last
              rw [hits] at missClean
              unfold Cache.dirtyHit at missDirty ⊢
              rw [same] at missDirty ⊢
              exact clear.suffix short p low high missDirty missClean q later last
            obtain ⟨got, t, ran, length, dirty, stays⟩ := ih (s := ⟨u, s.host⟩)
              (out ++ (page.drop (pos - pageOff)).take len) next (by omega) (suffix short) clearNext
              (fun p low high => by rw [same]; exact kept p (by omega) (by omega)) (by omega)
            refine ⟨got, t, ran, ?_, dirty.trans same, stays⟩
            rw [length, List.length_append]
            omega
          dsimp only
          rw [wadd_of_lt (a := pos) (by omega)]
          split_ifs
          · exact rest _ (coherent.touch d pageOff) rfl (fun p => touch_cleanHit ..)
          · exact rest _ coherent rfl (fun p => rfl)
        | none =>
          have uncovered : ∀ q, pos ≤ q → q < pos + len → ¬ Covered s.cache.dirty d q := by
            intro q low high
            apply hit_none coherent.apart
              (fun k v found => (shows_law L done).fits _ _ _ (coherent.dirty k v found))
            exact clear pos (le_refl pos) (by omega) dirtyFound cleanFound q low high
          obtain ⟨part, h, disk, stays, progress⟩ := sure.reads s.host d pos len
          have stored := (kept pos (le_refl pos) (by omega)).resolve_left (uncovered pos (le_refl pos) (by omega))
          have filled := progress (by omega) stored
          have some := List.length_pos_iff.mpr filled
          obtain ⟨short, -, next, dirty⟩ :=
            diskRead_ok sure.toByteStore (shows_law L done) coherent shows uncovered filled disk
          simp only [disk]
          rw [if_neg filled, wadd_of_lt (by omega)]
          obtain ⟨got, t, ran, length, rest, later⟩ := ih (s := ⟨s.cache.promoteClean d pos part, h⟩) (out ++ part)
            next (by omega) (suffix short)
            (by
              intro p low high _ _ q after last
              apply dirtyHit_none_of_uncovered (shows_law L done) next.dirty
              rw [dirty]
              exact uncovered q (by omega) (by omega))
            (fun p low high => Or.inr (stays d p ((kept p (by omega) (by omega)).resolve_left
              (uncovered p (by omega) (by omega))))) (by omega)
          refine ⟨got, t, ran, ?_, rest.trans dirty, fun e p old => later e p (stays e p old)⟩
          rw [length, List.length_append]
          omega

end Reading

/-! ### Whole runs -/

section Serving
variable {H : Type} {host : DiskHost H} {contents : H → Nat → Nat → UInt8} {held : H → Nat → Nat → Prop}
variable {L start : Nat → Nat → UInt8} {done : List Cache.Run} {s t : State H}

/-- After the regions were written: the store shows them over the first contents, the cache is coherent with it
on written positions only, each region is dirty whole or not at all, and no written position is lost. -/
structure Serving (contents : H → Nat → Nat → UInt8) (held : H → Nat → Nat → Prop) (start L : Nat → Nat → UInt8)
    (done : List Cache.Run) (s : State H) : Prop where
  coherent : Coherent (Shows L done) L (contents s.host) s.cache
  whole : ∀ r ∈ done, Whole s.cache.dirty r
  kept : ∀ d p, InBatch done d p → Covered s.cache.dirty d p ∨ held s.host d p
  fits : ∀ r ∈ done, r.off + r.data.length < 2 ^ 64
  shown : ∀ r ∈ done, Agrees (L r.disk) r.off r.data
  elsewhere : ∀ d p, ¬ InBatch done d p → L d p = start d p

theorem Serving.drain (serving : Serving contents held start L done s) (drained : Drained held s t)
    (next : Coherent (Shows L done) L (contents t.host) t.cache) : Serving contents held start L done t := by
  refine ⟨next, ?_, ?_, serving.fits, serving.shown, serving.elsewhere⟩
  · intro r member
    exact (serving.whole r member).sub serving.coherent.apart drained.sub
  · intro d p inside
    rcases serving.kept d p inside with covered | stored
    · exact drained.kept d p covered
    · exact Or.inr (drained.held d p stored)

theorem Serving.append_nil (serving : Serving contents held start L done s) :
    Serving contents held start L (done ++ []) s := by
  rw [List.append_nil]
  exact serving

/-- The region shares no position with the others. -/
def Fresh (done : List Cache.Run) (r : Cache.Run) : Prop := ∀ q ∈ done, ∀ d p, q.Spans d p → ¬ r.Spans d p

theorem Fresh.not_inBatch {r : Cache.Run} (fresh : Fresh done r) {d p : Nat} (inside : InBatch done d p) :
    ¬ r.Spans d p := by
  obtain ⟨q, member, spans⟩ := inside
  exact fresh q member d p spans

variable {d o : Nat} {data : Bytes}

theorem Fresh.off (fresh : Fresh done ⟨d, o, data⟩) (some : data ≠ []) {e p : Nat} {b : Bytes}
    (page : Shows L done e p b) : Off d o data.length e p b := by
  intro same
  have filled := List.length_pos_iff.mpr some
  have pageFilled := List.length_pos_iff.mpr page.1.1
  by_contra overlap
  have inside := page.2 (max p o) (by omega) (by omega)
  exact fresh.not_inBatch inside ⟨same.symm, by dsimp only; omega, by dsimp only; omega⟩

variable {disk : Nat → Nat → UInt8} {c : Cache}

theorem Coherent.avoiding (coherent : Coherent (Shows L done) L disk c) (fresh : Fresh done ⟨d, o, data⟩) (some : data ≠ []) :
    Coherent (fun e p b => Holds L e p b ∧ Off d o data.length e p b) L disk c :=
  ⟨fun k b found => ⟨(coherent.dirty k b found).1, fresh.off some (coherent.dirty k b found)⟩,
    fun k b n found => ⟨(coherent.clean k b n found).1, fresh.off some (coherent.clean k b n found)⟩,
    coherent.apart, coherent.disk⟩

theorem Coherent.within (coherent : Coherent (Holds L) L disk c) (dirty : ∀ d p, Covered c.dirty d p → InBatch done d p)
    (clean : CleanPages (fun d o b => ∀ p, o ≤ p → p < o + b.length → InBatch done d p) c) :
    Coherent (Shows L done) L disk c := by
  refine ⟨?_, fun k b n found => ⟨coherent.clean k b n found, clean k b n found⟩, coherent.apart, coherent.disk⟩
  intro k b found
  refine ⟨coherent.dirty k b found, ?_⟩
  intro p low high
  exact dirty k.disk p ⟨k.off, b, found, low, high⟩

theorem Coherent.inside (coherent : Coherent (Shows L done) L disk c) {d p : Nat}
    (covered : Covered c.dirty d p) : InBatch done d p := by
  obtain ⟨o, b, found, low, high⟩ := covered
  exact (coherent.dirty _ b found).2 p low high

theorem clean_insertCoalesced (c : Cache) (d o : Nat) (data : Bytes) : (c.insertCoalesced d o data).clean = c.clean := by
  unfold Cache.insertCoalesced
  repeat' split
  all_goals rfl

theorem shown_write (serving : Serving contents held start L done s)
    (fresh : Fresh done ⟨d, o, data⟩) {r : Cache.Run} (member : r ∈ done ++ [⟨d, o, data⟩]) :
    Agrees (writeStore L d o data r.disk) r.off r.data := by
  rcases List.mem_append.mp member with old | new
  · apply (serving.shown r old).congr
    intro p low high
    apply writeStore_outside
    have apart := fresh r old r.disk p ⟨rfl, low, high⟩
    unfold Cache.Run.Spans at apart
    dsimp only at apart
    omega
  · rw [List.mem_singleton.mp new]
    exact agrees_writeStore L d o data

theorem elsewhere_write (serving : Serving contents held start L done s) {e p : Nat}
    (outside : ¬ InBatch (done ++ [⟨d, o, data⟩]) e p) : writeStore L d o data e p = start e p := by
  rw [inBatch_append, inBatch_singleton] at outside
  rw [writeStore_outside, serving.elsewhere e p (fun inside => outside (Or.inl inside))]
  have apart : ¬ (⟨d, o, data⟩ : Cache.Run).Spans e p := fun spans => outside (Or.inr spans)
  unfold Cache.Run.Spans at apart
  dsimp only at apart
  omega

theorem Serving.grow (serving : Serving contents held start L done s)
    (fresh : Fresh done ⟨d, o, data⟩) (fits : o + data.length < 2 ^ 64)
    (coherent : Coherent (Shows (writeStore L d o data) (done ++ [⟨d, o, data⟩])) (writeStore L d o data)
      (contents t.host) t.cache) (whole : ∀ r ∈ done ++ [⟨d, o, data⟩], Whole t.cache.dirty r)
    (kept : ∀ e p, InBatch (done ++ [⟨d, o, data⟩]) e p → Covered t.cache.dirty e p ∨ held t.host e p) :
    Serving contents held start (writeStore L d o data) (done ++ [⟨d, o, data⟩]) t := by
  refine ⟨coherent, whole, kept, ?_, fun r member => shown_write serving fresh member,
    fun e p outside => elsewhere_write serving outside⟩
  intro r member
  rcases List.mem_append.mp member with old | new
  · exact serving.fits r old
  · rw [List.mem_singleton.mp new]
    exact fits

end Serving

section Runs
variable {H : Type} {host : DiskHost H} {contents : H → Nat → Nat → UInt8} {held : H → Nat → Nat → Prop}
variable (sure : SureStore host contents held) {L start : Nat → Nat → UInt8} {done : List Cache.Run} {s t : State H}
include sure

theorem serving_bypass {d o : Nat} {data : Bytes} {h : H} (serving : Serving contents held start L done s)
    (fresh : Fresh done ⟨d, o, data⟩) (fits : o + data.length < 2 ^ 64) (some : data ≠ [])
    (flushed : flush host s = (.ok (), t)) (after : Serving contents held start L done t)
    (written : host.diskWrite t.host d o data = (.ok (), h))
    (stored : ∀ e p, held t.host e p ∨ (⟨d, o, data⟩ : Cache.Run).Spans e p → held h e p) :
    Serving contents held start (writeStore L d o data) (done ++ [⟨d, o, data⟩]) ⟨t.cache, h⟩ := by
  have avoid := after.coherent.avoiding fresh some
  have laid := bypass_ok sure.toByteStore (serving.coherent.avoiding fresh some) some flushed written
  apply serving.grow fresh fits
  · apply laid.within
    · intro e p covered
      exact inBatch_append.mpr (Or.inl (after.coherent.inside covered))
    · intro k b n found p low high
      exact inBatch_append.mpr (Or.inl ((after.coherent.clean k b n found).2 p low high))
  · intro r member
    rcases List.mem_append.mp member with old | new
    · exact after.whole r old
    · right
      intro p low high covered
      rw [List.mem_singleton.mp new] at low high covered
      exact fresh.not_inBatch (after.coherent.inside covered) ⟨rfl, low, high⟩
  · intro e p inside
    rcases inBatch_append.mp inside with old | new
    · rcases after.kept e p old with covered | before
      · exact Or.inl covered
      · exact Or.inr (stored e p (Or.inl before))
    · exact Or.inr (stored e p (Or.inr (inBatch_singleton.mp new)))

omit sure in
theorem serving_insert {d o : Nat} {data : Bytes} (serving : Serving contents held start L done s)
    (fresh : Fresh done ⟨d, o, data⟩) (fits : o + data.length < 2 ^ 64) (some : data ≠ []) :
    Serving contents held start (writeStore L d o data) (done ++ [⟨d, o, data⟩])
      ⟨s.cache.insertCoalesced d o data, s.host⟩ := by
  have avoid := serving.coherent.avoiding fresh some
  have clear := InsertClear.of_avoid fits some avoid
  have absent : s.cache.dirty.get? (key d o) = none := by
    cases found : s.cache.dirty.get? (key d o) with
    | none => rfl
    | some b =>
      have filled := List.length_pos_iff.mpr (serving.coherent.dirty _ b found).1.1
      have inside := serving.coherent.inside ⟨o, b, found, le_refl o, by omega⟩
      have positive := List.length_pos_iff.mpr some
      exact absurd ⟨rfl, le_refl o, by dsimp only; omega⟩ (fresh.not_inBatch inside)
  have absorbs : Absorbs s.cache.dirty (s.cache.insertCoalesced d o data).dirty ⟨d, o, data⟩ :=
    absorbs_insertCoalesced (fun k b found => (serving.coherent.dirty k b found).1.2.1) fits absent
  apply serving.grow fresh fits
  · apply (insertCoalesced_ok avoid.weaken some clear).within
    · intro e p covered
      rcases absorbs.made e p covered with before | spans
      · exact inBatch_append.mpr (Or.inl (serving.coherent.inside before))
      · exact inBatch_append.mpr (Or.inr (inBatch_singleton.mpr spans))
    · intro k b n found p low high
      rw [clean_insertCoalesced] at found
      exact inBatch_append.mpr (Or.inl ((serving.coherent.clean k b n found).2 p low high))
  · intro r member
    rcases List.mem_append.mp member with old | new
    · exact absorbs.whole (serving.whole r old) (fresh r old)
    · rw [List.mem_singleton.mp new]
      exact Or.inl absorbs.own
  · intro e p inside
    rcases inBatch_append.mp inside with old | new
    · rcases serving.kept e p old with covered | stored
      · exact Or.inl (absorbs.covered covered)
      · exact Or.inr stored
    · exact Or.inl (absorbs.covers (inBatch_singleton.mp new))

omit sure in
theorem serving_nil (serving : Serving contents held start L done s) {d o : Nat} (fits : o < 2 ^ 64) :
    Serving contents held start L (done ++ [⟨d, o, []⟩]) s := by
  have same : ∀ e p, InBatch (done ++ [⟨d, o, []⟩]) e p ↔ InBatch done e p := by
    intro e p
    rw [inBatch_append, inBatch_singleton]
    have nothing : ¬ (⟨d, o, []⟩ : Cache.Run).Spans e p := by
      rintro ⟨-, low, high⟩
      simp only [List.length_nil] at low high
      omega
    exact or_iff_left nothing
  have pages : ∀ e p b, Shows L done e p b → Shows L (done ++ [⟨d, o, []⟩]) e p b :=
    fun e p b page => ⟨page.1, fun q low high => (same e q).mpr (page.2 q low high)⟩
  refine ⟨⟨fun k b found => pages _ _ _ (serving.coherent.dirty k b found),
    fun k b n found => pages _ _ _ (serving.coherent.clean k b n found), serving.coherent.apart, serving.coherent.disk⟩,
    ?_, fun e p inside => serving.kept e p ((same e p).mp inside), ?_, ?_,
    fun e p outside => serving.elsewhere e p (fun inside => outside ((same e p).mpr inside))⟩
  · intro r member
    rcases List.mem_append.mp member with old | new
    · exact serving.whole r old
    · rw [List.mem_singleton.mp new]
      right
      intro p low high
      simp only [List.length_nil] at low high
      omega
  · intro r member
    rcases List.mem_append.mp member with old | new
    · exact serving.fits r old
    · rw [List.mem_singleton.mp new]
      exact fits
  · intro r member
    rcases List.mem_append.mp member with old | new
    · exact serving.shown r old
    · rw [List.mem_singleton.mp new]
      exact agrees_nil _ _

theorem write_sure {d o : Nat} {data : Bytes} (serving : Serving contents held start L done s)
    (fresh : Fresh done ⟨d, o, data⟩) (fits : o + data.length < 2 ^ 64) :
    ∃ t, write host d o data s = (.ok (), t) ∧
      Serving contents held start (writeStore L d o data) (done ++ [⟨d, o, data⟩]) t := by
  unfold write
  split_ifs with empty large
  · subst empty
    refine ⟨s, rfl, ?_⟩
    rw [writeStore_nil]
    exact serving_nil serving (by simpa using fits)
  · obtain ⟨t, flushed, drained, next⟩ := flush_sure sure serving.coherent
    obtain ⟨h, written, stored⟩ := sure.writes t.host d o data
    simp only [flushed, written]
    exact ⟨_, rfl, serving_bypass sure serving fresh fits empty flushed (serving.drain drained next) written stored⟩
  · obtain ⟨t, made, drained, next⟩ := makeRoom_sure sure data.length s.cache.dirty.size serving.coherent
    simp only [made]
    exact ⟨_, rfl, serving_insert (serving.drain drained next) fresh fits empty⟩

theorem read_sure {r : Cache.Run} {o n : Nat} (serving : Serving contents held start L done s) (member : r ∈ done)
    (low : r.off ≤ o) (high : o + n ≤ r.off + r.data.length) :
    ∃ t, read host r.disk o n s = (.ok ((r.data.drop (o - r.off)).take n), t) ∧
      Serving contents held start L done t := by
  have fits : o + n < 2 ^ 64 := by
    have bound := serving.fits r member
    omega
  have shows : ShownIn (Shows L done) L r.disk o n := by
    intro p b first last filled agrees
    refine ⟨⟨filled, by omega, agrees⟩, ?_⟩
    intro q above below
    exact ⟨r, member, rfl, by omega, by omega⟩
  have clear := (serving.whole r member).readClear serving.coherent low high
  have kept : ∀ p, o ≤ p → p < o + n → Covered s.cache.dirty r.disk p ∨ held s.host r.disk p :=
    fun p first last => serving.kept r.disk p ⟨r, member, rfl, by omega, by omega⟩
  obtain ⟨got, t, ran, length, dirty, stays⟩ :=
    readLoop_sure sure [] serving.coherent fits shows clear kept (le_refl n)
  obtain ⟨agrees, next⟩ := readLoop_ok sure.toByteStore (shows_law L done) serving.coherent fits shows clear
    (agrees_nil (L r.disk) o) rfl ran
  have same : got = (r.data.drop (o - r.off)).take n := by
    have part := agrees_part (L := L) (n := n) (serving.shown r member) low
    have size : ((r.data.drop (o - r.off)).take n).length = n := by
      rw [List.length_take, List.length_drop]
      omega
    rw [List.length_nil, Nat.zero_add] at length
    apply List.ext_getElem?
    intro i
    by_cases inside : i < n
    · rw [agrees i (by omega), part i (by omega)]
    · rw [List.getElem?_eq_none (by omega), List.getElem?_eq_none (by omega)]
  refine ⟨t, ?_, serving.drain ⟨?_, ?_, stays⟩ next⟩
  · rw [← same]
    exact ran
  · intro k b found
    rwa [dirty] at found
  · intro d p covered
    rw [dirty]
    exact Or.inl covered

def Call.Once (done : List Cache.Run) : Call → Prop
  | .write d o data => Fresh done ⟨d, o, data⟩ ∧ o + data.length < 2 ^ 64
  | .read d o n => ∃ r ∈ done, r.disk = d ∧ r.off ≤ o ∧ o + n ≤ r.off + r.data.length
  | _ => True

theorem serving_step {call : Call} (serving : Serving contents held start L done s) (once : call.Once done) :
    ∃ got t, call.run host s = (.ok got, t) ∧ Serving contents held start (call.apply L) (done ++ call.regions) t := by
  cases call with
  | write d o data =>
    obtain ⟨t, ran, next⟩ := write_sure sure serving once.1 once.2
    exact ⟨[], t, Op.bind_ok_iff.mpr ⟨(), t, ran, Op.pure_ok_iff.mpr ⟨rfl, rfl⟩⟩, next⟩
  | read d o n =>
    obtain ⟨r, member, rfl, low, high⟩ := once
    obtain ⟨t, ran, next⟩ := read_sure sure serving member low high
    exact ⟨_, t, ran, next.append_nil⟩
  | flush =>
    obtain ⟨t, ran, drained, next⟩ := flush_sure sure serving.coherent
    exact ⟨[], t, Op.bind_ok_iff.mpr ⟨(), t, ran, Op.pure_ok_iff.mpr ⟨rfl, rfl⟩⟩,
      (serving.drain drained next).append_nil⟩
  | flushDisk d =>
    obtain ⟨t, ran, drained, next⟩ := flushDisk_sure sure d serving.coherent
    exact ⟨[], t, Op.bind_ok_iff.mpr ⟨(), t, ran, Op.pure_ok_iff.mpr ⟨rfl, rfl⟩⟩,
      (serving.drain drained next).append_nil⟩
  | flushBounded m =>
    obtain ⟨freed, t, ran, drained, next⟩ := flushOldest_sure sure m serving.coherent
    exact ⟨[], t, Op.bind_ok_iff.mpr ⟨freed, t, ran, Op.pure_ok_iff.mpr ⟨rfl, rfl⟩⟩,
      (serving.drain drained next).append_nil⟩

end Runs

theorem WriteOnce.next {before after : List Call} {call : Call} (once : WriteOnce (before ++ call :: after)) :
    WriteOnce before ∧ call.Once (regionsOf before) := by
  have split : regionsOf (before ++ call :: after) = regionsOf before ++ (call.regions ++ regionsOf after) := by
    simp only [regionsOf, List.flatMap_append, List.flatMap_cons]
  have fits := once.fits
  have disjoint := once.disjoint
  rw [split] at fits disjoint
  obtain ⟨first, -, across⟩ := List.pairwise_append.mp disjoint
  refine ⟨⟨fun r member => fits r (List.mem_append_left _ member), first, ?_⟩, ?_⟩
  · intro early d o n late same
    apply once.served early d o n (late ++ call :: after)
    rw [same, List.append_assoc, List.cons_append]
  · cases call with
    | write d o data =>
      have own : (⟨d, o, data⟩ : Cache.Run) ∈ (Call.write d o data).regions ++ regionsOf after :=
        List.mem_append_left _ (List.mem_singleton.mpr rfl)
      exact ⟨fun q member => across q member _ own, fits _ (List.mem_append_right _ own)⟩
    | read d o n => exact once.served before d o n after rfl
    | flush => trivial
    | flushDisk d => trivial
    | flushBounded m => trivial

section Theorem
variable {H : Type} {host : DiskHost H} {contents : H → Nat → Nat → UInt8} {held : H → Nat → Nat → Prop}

theorem serving_new (budget : Nat) (h : H) :
    Serving contents held (contents h) (contents h) [] ⟨Cache.new budget, h⟩ := by
  refine ⟨⟨?_, ?_, ?_, fun _ _ _ => rfl⟩, ?_, ?_, ?_, ?_, fun _ _ _ => rfl⟩
  · intro k b found
    cases found
  · intro k b n found
    cases found
  · intro d o o' b b' found
    cases found
  · intro r member
    cases member
  · intro d p inside
    obtain ⟨r, member, -⟩ := inside
    cases member
  · intro r member
    cases member
  · intro r member
    cases member

theorem serving_runAll (sure : SureStore host contents held) (budget : Nat) (h : H) {calls : List Call}
    (once : WriteOnce calls) :
    Serving contents held (contents h) (logical (contents h) calls) (regionsOf calls)
      (runAll host calls ⟨Cache.new budget, h⟩) := by
  induction calls using List.reverseRecOn with
  | nil => exact serving_new budget h
  | append_singleton before call ih =>
    obtain ⟨earlier, here⟩ := once.next
    obtain ⟨got, t, ran, next⟩ := serving_step sure (ih earlier) here
    have state : runAll host (before ++ [call]) ⟨Cache.new budget, h⟩ = t := by
      rw [runAll, List.foldl_append, List.foldl_cons, List.foldl_nil]
      exact congrArg Prod.snd ran
    have store : logical (contents h) (before ++ [call]) = call.apply (logical (contents h) before) := by
      rw [logical, List.foldl_append, List.foldl_cons, List.foldl_nil]
      rfl
    have regions : regionsOf (before ++ [call]) = regionsOf before ++ call.regions := by
      rw [regionsOf, List.flatMap_append, List.flatMap_singleton]
      rfl
    rw [state, store, regions]
    exact next

/-- Every call of a write-once workload succeeds, every read returns what was written to its region, and after a
final flush (the dirty bytes are in memory) the disk shows the regions and is as it was elsewhere. -/
theorem write_once_lossless (sure : SureStore host contents held) (budget : Nat) (h : H) (calls : List Call)
    (once : WriteOnce calls) :
    (∀ before call after, calls = before ++ call :: after →
      ∃ got, (call.run host (runAll host before ⟨Cache.new budget, h⟩)).1 = .ok got) ∧
    (∀ before d o n after, calls = before ++ .read d o n :: after →
      ∀ r ∈ regionsOf before, r.disk = d → r.off ≤ o → o + n ≤ r.off + r.data.length →
        ((Call.read d o n).run host (runAll host before ⟨Cache.new budget, h⟩)).1 =
          .ok ((r.data.drop (o - r.off)).take n)) ∧
    (dirtyBytes (runAll host calls ⟨Cache.new budget, h⟩).cache.dirty < 2 ^ 64 - 1 →
      ∃ t, Call.flush.run host (runAll host calls ⟨Cache.new budget, h⟩) = (.ok [], t) ∧
        (∀ r ∈ regionsOf calls, Agrees (contents t.host r.disk) r.off r.data) ∧
        ∀ d p, ¬ InBatch (regionsOf calls) d p → contents t.host d p = contents h d p) := by
  refine ⟨?_, ?_, ?_⟩
  · intro before call after split
    obtain ⟨earlier, here⟩ := (split ▸ once : WriteOnce (before ++ call :: after)).next
    obtain ⟨got, t, ran, -⟩ := serving_step sure (serving_runAll sure budget h earlier) here
    exact ⟨got, congrArg Prod.fst ran⟩
  · intro before d o n after split r member same low high
    subst same
    obtain ⟨earlier, -⟩ := (split ▸ once : WriteOnce (before ++ .read r.disk o n :: after)).next
    obtain ⟨t, ran, -⟩ := read_sure sure (serving_runAll sure budget h earlier) member low high
    exact congrArg Prod.fst ran
  · intro memory
    have serving := serving_runAll sure budget h once
    obtain ⟨t, ran, -, -⟩ := flush_sure sure serving.coherent
    have disk : contents t.host = logical (contents h) calls :=
      flush_ok sure.toByteStore (shows_law _ _) serving.coherent memory ran
    refine ⟨t, Op.bind_ok_iff.mpr ⟨(), t, ran, Op.pure_ok_iff.mpr ⟨rfl, rfl⟩⟩, ?_, ?_⟩
    · intro r member
      rw [disk]
      exact serving.shown r member
    · intro d p outside
      rw [disk]
      exact serving.elsewhere d p outside

end Theorem

theorem memHost_sure : SureStore memHost id (fun _ _ _ => True) where
  toByteStore := memHost_store
  writes h d o b := ⟨writeStore h d o b, rfl, fun _ _ _ => trivial⟩
  reads h d o n := by
    refine ⟨(List.range n).map (fun i => h d (o + i)), h, rfl, fun _ _ _ => trivial, ?_⟩
    intro wanted _ empty
    have length := congrArg List.length empty
    simp at length
    omega

/-- Two regions written in descending order, a flush of one file and a read. -/
def descending : List Call := [.write 0 3 [4, 5], .write 0 0 [1, 2, 3], .flushDisk 0, .read 0 1 2]

theorem descending_once : WriteOnce descending where
  fits := by decide
  disjoint := by
    apply List.Pairwise.cons
    · intro r member d p first second
      rw [List.mem_singleton.mp member] at second
      obtain ⟨-, low, -⟩ := first
      obtain ⟨-, -, high⟩ := second
      dsimp only [List.length_cons, List.length_nil] at low high
      omega
    · exact List.pairwise_singleton _ _
  served before d o n after split := by
    match before, split with
    | [_, _, _], split =>
      simp [descending] at split
      obtain ⟨rfl, rfl, rfl, ⟨rfl, rfl, rfl⟩, -⟩ := split
      exact ⟨⟨0, 0, [1, 2, 3]⟩, by simp [regionsOf, Call.regions], rfl, by decide, by decide⟩
    | [], split => simp [descending] at split
    | [_], split => simp [descending] at split
    | [_, _], split => simp [descending] at split
    | _ :: _ :: _ :: _ :: _, split => simp [descending] at split

theorem write_once_lossless_descending :
    WriteOnce descending ∧
      ((Call.read 0 1 2).run memHost (runAll memHost [.write 0 3 [4, 5], .write 0 0 [1, 2, 3], .flushDisk 0]
        ⟨Cache.new 0, blankDisk⟩)).1 = .ok [2, 3] :=
  ⟨descending_once, (write_once_lossless memHost_sure 0 blankDisk descending descending_once).2.1
    [.write 0 3 [4, 5], .write 0 0 [1, 2, 3], .flushDisk 0] 0 1 2 [] rfl ⟨0, 0, [1, 2, 3]⟩
    (by simp [regionsOf, Call.regions]) rfl (by decide) (by decide)⟩

end TypeBit.DiskCache
