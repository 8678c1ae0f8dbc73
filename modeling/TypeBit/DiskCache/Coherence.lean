import TypeBit.DiskCache.Access

/-! Whole runs of the cache against a write-through store. In every run whose calls meet the
condition `Call.Clear`, reads show the last write and a flush leaves the disk equal to the store;
without the condition a shorter write at the same start already loses bytes. -/

namespace TypeBit.DiskCache
open Patch

inductive Call where
  | write (disk offset : Nat) (data : Bytes)
  | read (disk offset len : Nat)
  | flush
  | flushDisk (disk : Nat)
  | flushBounded (maxBytes : Nat)

namespace Call

def run {H : Type} (host : DiskHost H) : Call → Io H Bytes
  | .write d o data => do DiskCache.write host d o data; pure []
  | .read d o n => DiskCache.read host d o n
  | .flush => do DiskCache.flush host; pure []
  | .flushDisk d => do DiskCache.flushDisk host d; pure []
  | .flushBounded m => do let _ ← DiskCache.flushBounded host m; pure []

def apply (L : Nat → Nat → UInt8) : Call → Nat → Nat → UInt8
  | .write d o data => writeStore L d o data
  | _ => L

/-- The condition on the cache before a call. A write meets no page, except that a dirty entry
that starts with it and is no longer may be replaced when nothing has to be flushed first; a read
has no uncached byte before a dirty one; the dirty bytes of a full flush fit in memory. -/
def Clear : Call → Cache → Prop
  | .write d o data, c => data = [] ∨ (InsertClear c d o data ∧
      (c.dirty.get? (key d o) = none ∨ (data.length ≤ c.budget ∧ wadd c.used data.length ≤ c.budget)))
  | .read d o n, c => o + n < 2 ^ 64 ∧ ReadClear c d o n
  | .flush, c => dirtyBytes c.dirty < 2 ^ 64 - 1
  | .flushDisk _, _ => True
  | .flushBounded _, _ => True

end Call

/-- States reached by successful calls that each meet `Ok` beforehand. -/
inductive Reach {H : Type} (host : DiskHost H) (Ok : Call → Cache → Prop) (start : State H) :
    List Call → State H → Prop
  | refl : Reach host Ok start [] start
  | step {calls : List Call} {s t : State H} {call : Call} {got : Bytes} (before : Reach host Ok start calls s)
      (ok : Ok call s.cache) (ran : call.run host s = (.ok got, t)) : Reach host Ok start (calls ++ [call]) t

def logical (L : Nat → Nat → UInt8) (calls : List Call) : Nat → Nat → UInt8 := calls.foldl Call.apply L

/-- In every reached state reads show the last write and a flush leaves the disk equal to the store. -/
def LastWriterWins {H : Type} (host : DiskHost H) (contents : H → Nat → Nat → UInt8) (Ok : Call → Cache → Prop)
    (start : State H) : Prop :=
  ∀ calls s, Reach host Ok start calls s →
    (∀ d o n got t, Ok (.read d o n) s.cache → (Call.read d o n).run host s = (.ok got, t) →
      Agrees (logical (contents start.host) calls d) o got) ∧
    (∀ got t, Ok .flush s.cache → Call.flush.run host s = (.ok got, t) →
      contents t.host = logical (contents start.host) calls)

theorem writeStore_nil (L : Nat → Nat → UInt8) (d o : Nat) : writeStore L d o [] = L := by
  funext e p
  apply writeStore_outside
  simp only [List.length_nil]
  omega

variable {L disk : Nat → Nat → UInt8} {c : Cache} {data : Bytes}

theorem Coherent.avoid {d o : Nat} (coherent : Coherent (Holds L) L disk c) (clear : InsertClear c d o data)
    (absent : c.dirty.get? (key d o) = none) : Coherent (fun e p b => Holds L e p b ∧ Off d o data.length e p b) L disk c := by
  refine ⟨?_, ?_, coherent.apart, coherent.disk⟩
  · intro k b found
    refine ⟨coherent.dirty k b found, clear.dirtyOff k b ?_ found⟩
    rintro rfl
    rw [absent] at found
    cases found
  · intro k b n found
    exact ⟨coherent.clean k b n found, clear.cleanOff k b n found⟩

theorem Coherent.weaken {P : PagePred}
    (coherent : Coherent (fun e p b => Holds L e p b ∧ P e p b) L disk c) : Coherent (Holds L) L disk c :=
  ⟨fun k b found => (coherent.dirty k b found).1, fun k b n found => (coherent.clean k b n found).1,
    coherent.apart, coherent.disk⟩

theorem InsertClear.of_avoid {d o : Nat} (fits : o + data.length < 2 ^ 64) (some : data ≠ [])
    (coherent : Coherent (fun e p b => Holds L e p b ∧ Off d o data.length e p b) L disk c) : InsertClear c d o data := by
  refine ⟨fits, fun k b _ found => (coherent.dirty k b found).2, ?_, fun k b n found => (coherent.clean k b n found).2⟩
  intro b found
  have page := coherent.dirty _ b found
  have apart := page.2 rfl
  have nonempty := List.length_pos_iff.mpr page.1.1
  have positive := List.length_pos_iff.mpr some
  simp only [key_off] at apart
  omega

theorem makeRoom_fits {H : Type} (host : DiskHost H) {s : State H} {len n : Nat}
    (fits : wadd s.cache.used len ≤ s.cache.budget) : makeRoom host len n s = (.ok (), s) := by
  cases n with
  | zero => rfl
  | succ n =>
    unfold makeRoom
    split_ifs with tight
    · omega
    · rfl

section Runs
variable {H : Type} {host : DiskHost H} {contents : H → Nat → Nat → UInt8} (store : ByteStore host contents)
variable {L : Nat → Nat → UInt8}
include store

theorem bypass_ok {s t : State H} {h : H} {d o : Nat} {data : Bytes}
    (coherent : Coherent (fun e p b => Holds L e p b ∧ Off d o data.length e p b) L (contents s.host) s.cache)
    (some : data ≠ []) (flushed : flush host s = (.ok (), t))
    (written : host.diskWrite t.host d o data = (.ok (), h)) :
    Coherent (Holds (writeStore L d o data)) (writeStore L d o data) (contents h) t.cache := by
  have kept := flushed_ok store (holds_off_law L (List.length_pos_iff.mpr some)) coherent flushed
  refine ⟨?_, ?_, kept.apart, ?_⟩
  · intro k b found
    have page := kept.dirty k b found
    exact page.1.write page.2
  · intro k b n found
    have page := kept.clean k b n found
    exact page.1.write page.2
  · intro e p uncovered
    rw [store.write_ok _ _ _ _ _ written]
    unfold writeStore
    split_ifs with same
    · subst same
      by_cases inside : o ≤ p ∧ p < o + data.length
      · rw [patch_of_agrees (agrees_patch (L e) o data) inside.1 inside.2]
      · rw [patch_outside (by omega), patch_outside (by omega), kept.disk e p uncovered]
    · exact kept.disk e p uncovered

theorem write_ok {s t : State H} {d o : Nat} {data : Bytes}
    (coherent : Coherent (Holds L) L (contents s.host) s.cache) (clear : (Call.write d o data).Clear s.cache)
    (ran : write host d o data s = (.ok (), t)) :
    Coherent (Holds (writeStore L d o data)) (writeStore L d o data) (contents t.host) t.cache := by
  unfold write at ran
  split_ifs at ran with empty large
  · cases ran
    rw [empty, writeStore_nil]
    exact coherent
  · obtain ⟨region, room⟩ := clear.resolve_left empty
    have absent := room.resolve_right (fun fits => by omega)
    have avoid := coherent.avoid region absent
    rcases flushed : flush host s with ⟨_ | ⟨⟩, u⟩
    · simp [flushed] at ran
    · simp only [flushed] at ran
      rcases written : host.diskWrite u.host d o data with ⟨_ | ⟨⟩, h⟩
      · simp [written] at ran
      · simp only [written, Prod.mk.injEq, true_and] at ran
        subst ran
        have kept := bypass_ok store avoid empty flushed written
        exact kept
  · obtain ⟨region, room⟩ := clear.resolve_left empty
    rcases made : makeRoom host data.length s.cache.dirty.size s with ⟨_ | ⟨⟩, u⟩
    · simp [made] at ran
    · simp only [made, Prod.mk.injEq, true_and] at ran
      subst ran
      rcases room with absent | fits
      · have kept := makeRoom_ok store (holds_off_law L (List.length_pos_iff.mpr empty))
          (coherent.avoid region absent) made
        exact insertCoalesced_ok kept.weaken empty (InsertClear.of_avoid region.fits empty kept)
      · rw [makeRoom_fits host fits.2] at made
        cases made
        exact insertCoalesced_ok coherent empty region

theorem step_ok {s t : State H} {call : Call} {got : Bytes}
    (coherent : Coherent (Holds L) L (contents s.host) s.cache) (clear : call.Clear s.cache)
    (ran : call.run host s = (.ok got, t)) :
    Coherent (Holds (call.apply L)) (call.apply L) (contents t.host) t.cache := by
  cases call with
  | write d o data =>
    obtain ⟨⟨⟩, u, written, done⟩ := Op.bind_ok_iff.mp ran
    obtain ⟨-, rfl⟩ := Op.pure_ok_iff.mp done
    exact write_ok store coherent clear written
  | read d o n =>
    exact (readLoop_ok store (holds_law L) coherent clear.1 (holds_shownIn L clear.1) clear.2 (agrees_nil _ o) rfl ran).2
  | flush =>
    obtain ⟨⟨⟩, u, flushed, done⟩ := Op.bind_ok_iff.mp ran
    obtain ⟨-, rfl⟩ := Op.pure_ok_iff.mp done
    exact flushed_ok store (holds_law L) coherent flushed
  | flushDisk d =>
    obtain ⟨⟨⟩, u, flushed, done⟩ := Op.bind_ok_iff.mp ran
    obtain ⟨-, rfl⟩ := Op.pure_ok_iff.mp done
    exact flushDiskLoop_ok store (holds_law L) coherent flushed
  | flushBounded m =>
    obtain ⟨freed, u, flushed, done⟩ := Op.bind_ok_iff.mp ran
    obtain ⟨-, rfl⟩ := Op.pure_ok_iff.mp done
    exact (flushOldest_ok store (holds_law L) coherent flushed).1

theorem reach_coherent {budget : Nat} {h : H} {calls : List Call} {s : State H}
    (reach : Reach host Call.Clear ⟨Cache.new budget, h⟩ calls s) :
    Coherent (Holds (logical (contents h) calls)) (logical (contents h) calls) (contents s.host) s.cache := by
  induction reach with
  | refl =>
    refine ⟨?_, ?_, ?_, fun _ _ _ => rfl⟩
    · intro k b found
      cases found
    · intro k b n found
      cases found
    · intro d o o' b b' found
      cases found
  | step before clear ran ih =>
    have next := step_ok store ih clear ran
    unfold logical at next ⊢
    rwa [List.foldl_append]

/-- Runs whose calls meet the condition are coherent with a write-through store. -/
theorem cache_coherent (budget : Nat) (h : H) :
    LastWriterWins host contents Call.Clear ⟨Cache.new budget, h⟩ := by
  intro calls s reach
  have coherent := reach_coherent store reach
  constructor
  · intro d o n got t clear ran
    exact (readLoop_ok store (holds_law _) coherent clear.1 (holds_shownIn _ clear.1) clear.2 (agrees_nil _ o) rfl ran).1
  · intro got t clear ran
    obtain ⟨⟨⟩, u, flushed, done⟩ := Op.bind_ok_iff.mp ran
    obtain ⟨-, rfl⟩ := Op.pure_ok_iff.mp done
    exact flush_ok store (holds_law _) coherent clear flushed

end Runs

def memHost : DiskHost (Nat → Nat → UInt8) where
  diskRead h d o n := (.ok ((List.range n).map (fun i => h d (o + i))), h)
  diskWrite h d o b := (.ok (), writeStore h d o b)

theorem memHost_store : ByteStore memHost id where
  read_ok h d o n b h' ran := by
    cases ran
    refine ⟨by simp, ?_, rfl⟩
    intro i below
    simp only [List.length_map, List.length_range] at below
    simp [below]
  write_ok h d o b h' ran e p := by
    cases ran
    rfl

def blankDisk : Nat → Nat → UInt8 := fun _ _ => 0

theorem insertClear_of_entries {d o : Nat} (fits : o + data.length < 2 ^ 64)
    (dirty : ∀ e ∈ c.dirty.entries, (e.1 = key d o → e.2.length ≤ data.length) ∧
      (e.1 ≠ key d o → e.1.disk = d → e.1.off + e.2.length ≤ o ∨ o + data.length ≤ e.1.off))
    (clean : ∀ e ∈ c.clean.entries, e.1.disk = d → e.1.off + e.2.1.length ≤ o ∨ o + data.length ≤ e.1.off) :
    InsertClear c d o data where
  fits := fits
  dirtyOff k b other found := (dirty (k, b) ((OrdMap.mem_entries_iff _ _ _).mpr found)).2 other
  sameStart b found := (dirty (key d o, b) ((OrdMap.mem_entries_iff _ _ _).mpr found)).1 rfl
  cleanOff k b n found := clean (k, b, n) ((OrdMap.mem_entries_iff _ _ _).mpr found)

theorem readClear_of_hits {d o n : Nat} (hits : ∀ i < n, c.dirtyHit d (o + i) ≠ none ∨ c.cleanHit d (o + i) ≠ none) :
    ReadClear c d o n := by
  intro p start inside missDirty missClean
  have hit := hits (p - o) (by omega)
  rw [Nat.add_sub_cancel' start, missDirty, missClean] at hit
  exact absurd rfl (hit.elim id id)

/-- A write over another, that is evicted to the clean pages, and a write behind it. -/
def overwritten : List Call := [.write 0 0 [1, 2], .write 0 0 [3, 4, 5], .flushBounded 1, .write 0 3 [6]]

theorem cache_coherent_memory :
    ∃ s t u, Reach memHost Call.Clear ⟨Cache.new 0, blankDisk⟩ overwritten s ∧ s.cache.clean.size = 1 ∧
      (Call.read 0 1 3).run memHost s = (.ok [4, 5, 6], t) ∧ Agrees (logical blankDisk overwritten 0) 1 [4, 5, 6] ∧
      Call.flush.run memHost s = (.ok [], u) ∧ u.host = logical blankDisk overwritten := by
  have first := (Reach.refl : Reach memHost Call.Clear ⟨Cache.new 0, blankDisk⟩ [] _).step
    (show (Call.write 0 0 [1, 2]).Clear _ from Or.inr ⟨insertClear_of_entries (by decide) (by decide) (by decide), Or.inl rfl⟩) rfl
  have second := first.step (show (Call.write 0 0 [3, 4, 5]).Clear _ from
    Or.inr ⟨insertClear_of_entries (by decide) (by decide) (by decide), Or.inr (by decide)⟩) rfl
  have evicted := second.step (show (Call.flushBounded 1).Clear _ from trivial) rfl
  have reach := evicted.step (show (Call.write 0 3 [6]).Clear _ from
    Or.inr ⟨insertClear_of_entries (by decide) (by decide) (by decide), Or.inl rfl⟩) rfl
  obtain ⟨reads, flushes⟩ := cache_coherent memHost_store 0 blankDisk _ _ reach
  exact ⟨_, _, _, reach, by decide, rfl, reads 0 1 3 [4, 5, 6] _ ⟨by decide, readClear_of_hits (by decide)⟩ rfl, rfl,
    flushes [] _ (show dirtyBytes _ < 2 ^ 64 - 1 by decide) rfl⟩

/-- A shorter write at the start of a dirty entry drops the entry's tail. -/
theorem same_start_shorter_write_loses : ¬ ∀ (H : Type) (host : DiskHost H) (contents : H → Nat → Nat → UInt8),
    ByteStore host contents → ∀ (budget : Nat) (h : H),
      LastWriterWins host contents (fun _ _ => True) ⟨Cache.new budget, h⟩ := by
  intro always
  have wins := always _ memHost id memHost_store 0 blankDisk
  have first : (Call.write 0 0 [1, 2, 3]).run memHost ⟨Cache.new 0, blankDisk⟩ =
      (.ok [], ((Call.write 0 0 [1, 2, 3]).run memHost ⟨Cache.new 0, blankDisk⟩).2) := rfl
  have second : (Call.write 0 0 [9]).run memHost ((Call.write 0 0 [1, 2, 3]).run memHost ⟨Cache.new 0, blankDisk⟩).2 =
      (.ok [], ((Call.write 0 0 [9]).run memHost
        ((Call.write 0 0 [1, 2, 3]).run memHost ⟨Cache.new 0, blankDisk⟩).2).2) := rfl
  have flushed := (wins _ _ (.step (.step .refl trivial first) trivial second)).2 [] _ trivial rfl
  have lost := congrFun (congrFun flushed 0) 1
  exact absurd lost (by decide)

end TypeBit.DiskCache
