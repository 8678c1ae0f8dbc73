import TypeBit.DiskCache.Pages

/-! Flushing over a host that behaves as a byte store: every flush that succeeds keeps the cache
coherent, and a flush of everything leaves the disk equal to the logical store. -/

namespace TypeBit.DiskCache
open Patch OrdMap

/-- The host's disk is a byte store per handle: a read shows what is there, a write lays its data over. -/
structure ByteStore {H : Type} (host : DiskHost H) (contents : H → Nat → Nat → UInt8) : Prop where
  read_ok : ∀ h d o n b h', host.diskRead h d o n = (.ok b, h') →
    b.length ≤ n ∧ Agrees (contents h d) o b ∧ contents h' = contents h
  write_ok : ∀ h d o b h', host.diskWrite h d o b = (.ok (), h') →
    ∀ e p, contents h' e p = if e = d then patch (contents h d) o b p else contents h e p

section
variable {H : Type} {host : DiskHost H} {contents : H → Nat → Nat → UInt8} (store : ByteStore host contents)
variable {L : Nat → Nat → UInt8} {P : PagePred} (law : PageLaw L P)
include store law

theorem write_agreeing {h h' : H} {d o : Nat} {b : Bytes} (page : P d o b)
    (written : host.diskWrite h d o b = (.ok (), h')) (e p : Nat) :
    contents h' e p = L e p ∨
      (contents h' e p = contents h e p ∧ ¬ (d = e ∧ o ≤ p ∧ p < o + b.length)) := by
  rw [store.write_ok h d o b h' written]
  by_cases same : e = d
  · subst same
    rw [if_pos rfl]
    by_cases inside : o ≤ p ∧ p < o + b.length
    · exact Or.inl (patch_of_agrees (law.agrees e o b page) inside.1 inside.2)
    · refine Or.inr ⟨patch_outside (by omega), fun covers => inside covers.2⟩
  · rw [if_neg same]
    exact Or.inr ⟨rfl, fun covers => same covers.1.symm⟩

theorem writeBatch_spec {batch : List Cache.Run} (pages : BatchPages P batch) {s t : State H}
    (clean : CleanPages P s.cache) (ran : writeBatch host batch s = (.ok (), t)) :
    CleanPages P t.cache ∧ t.cache.dirty = s.cache.dirty ∧
      ∀ d p, contents t.host d p = L d p ∨
        (contents t.host d p = contents s.host d p ∧ ¬ InBatch batch d p) := by
  induction batch generalizing s with
  | nil =>
    cases ran
    refine ⟨clean, rfl, fun d p => Or.inr ⟨rfl, ?_⟩⟩
    rintro ⟨r, member, -⟩
    simp at member
  | cons r tail ih =>
    unfold writeBatch at ran
    rcases write : host.diskWrite s.host r.disk r.off r.data with ⟨_ | ⟨⟩, h⟩
    · simp [write] at ran
    · simp only [write] at ran
      have page := pages r (by simp)
      obtain ⟨promoted, sameDirty⟩ := promoteClean_spec law clean page
      obtain ⟨keptClean, keptDirty, disk⟩ :=
        ih (fun q member => pages q (List.mem_cons_of_mem _ member)) promoted ran
      refine ⟨keptClean, keptDirty.trans sameDirty, ?_⟩
      intro d p
      rcases disk d p with done | ⟨same, later⟩
      · exact Or.inl done
      · rcases write_agreeing store law page write d p with here | ⟨before, outside⟩
        · exact Or.inl (same.trans here)
        · refine Or.inr ⟨same.trans before, ?_⟩
          rintro ⟨q, member, covers⟩
          rcases List.mem_cons.mp member with rfl | more
          · exact outside covers
          · exact later ⟨q, more, covers⟩

theorem flushOldest_ok {minFreed freed : Nat} {s t : State H}
    (coherent : Coherent P L (contents s.host) s.cache) (ran : flushOldest host minFreed s = (.ok freed, t)) :
    Coherent P L (contents t.host) t.cache ∧
      t.cache.dirty = (Cache.takeOldest minFreed s.cache.dirty.keys 0 [] s.cache).2.2.dirty := by
  obtain ⟨pages, clean, sub, -, cover⟩ := takeOldest_spec law minFreed s.cache.dirty.keys 0 coherent.dirty
    (show BatchPages P [] from fun r member => by simp at member)
  unfold flushOldest at ran
  rcases batch : writeBatch host (Cache.takeOldest minFreed s.cache.dirty.keys 0 [] s.cache).2.1
    ⟨(Cache.takeOldest minFreed s.cache.dirty.keys 0 [] s.cache).2.2, s.host⟩ with ⟨_ | ⟨⟩, u⟩
  · simp [batch] at ran
  · simp only [batch, Prod.mk.injEq] at ran
    obtain ⟨-, rfl⟩ := ran
    have cleanTaken : CleanPages P (Cache.takeOldest minFreed s.cache.dirty.keys 0 [] s.cache).2.2 := by
      intro k b n found
      rw [clean] at found
      exact coherent.clean k b n found
    obtain ⟨keptClean, keptDirty, disk⟩ := writeBatch_spec store law pages cleanTaken batch
    refine ⟨⟨?_, keptClean, ?_, ?_⟩, keptDirty⟩
    · intro k b found
      rw [keptDirty] at found
      exact coherent.dirty k b (sub k b found)
    · intro d o o' b b' first second order
      rw [keptDirty] at first second
      exact coherent.apart d o o' b b' (sub _ b first) (sub _ b' second) order
    · intro d p uncovered
      rw [keptDirty] at uncovered
      rcases disk d p with done | ⟨same, outside⟩
      · exact done
      · rw [same]
        apply coherent.disk
        intro covered
        rcases cover d p covered with remains | inBatch
        · exact uncovered remains
        · exact outside inBatch

theorem flushDiskLoop_ok {keys : List Key} {s t : State H} (coherent : Coherent P L (contents s.host) s.cache)
    (ran : flushDiskLoop host keys s = (.ok (), t)) : Coherent P L (contents t.host) t.cache := by
  induction keys generalizing s with
  | nil =>
    cases ran
    exact coherent
  | cons k tail ih =>
    unfold flushDiskLoop at ran
    cases found : s.cache.dirty.get? k with
    | none => simp [found] at ran
    | some data =>
      simp only [found] at ran
      rcases write : host.diskWrite s.host k.disk k.off data with ⟨_ | ⟨⟩, h⟩
      · simp [write] at ran
      · simp only [write] at ran
        have page := coherent.dirty k data found
        have cleanKept : CleanPages P (s.cache.removeDirty k data) := coherent.clean
        obtain ⟨promoted, sameDirty⟩ := promoteClean_spec law cleanKept page
        apply ih _ ran
        refine ⟨?_, promoted, ?_, ?_⟩
        · intro j b entry
          rw [sameDirty] at entry
          exact coherent.dirty j b (get?_of_erase entry)
        · intro d o o' b b' first second order
          rw [sameDirty] at first second
          exact coherent.apart d o o' b b' (get?_of_erase first) (get?_of_erase second) order
        · intro d p uncovered
          rw [sameDirty] at uncovered
          rcases write_agreeing store law page write d p with done | ⟨same, outside⟩
          · exact done
          · rw [same]
            apply coherent.disk
            intro covered
            rcases covered_erase found covered with remains | own
            · exact uncovered remains
            · exact outside own

theorem makeRoom_ok {len n : Nat} {s t : State H} (coherent : Coherent P L (contents s.host) s.cache)
    (ran : makeRoom host len n s = (.ok (), t)) : Coherent P L (contents t.host) t.cache := by
  induction n generalizing s with
  | zero =>
    cases ran
    exact coherent
  | succ n ih =>
    unfold makeRoom at ran
    split_ifs at ran with tight
    · rcases flushed : flushOldest host len s with ⟨_ | freed, u⟩
      · simp [flushed] at ran
      · simp only [flushed] at ran
        obtain ⟨kept, -⟩ := flushOldest_ok store law coherent flushed
        split_ifs at ran
        · cases ran
          exact kept
        · exact ih kept ran
    · cases ran
      exact coherent

theorem flushed_ok {s t : State H} (coherent : Coherent P L (contents s.host) s.cache)
    (ran : flush host s = (.ok (), t)) : Coherent P L (contents t.host) t.cache := by
  obtain ⟨freed, u, flushed, done⟩ := Op.bind_ok_iff.mp ran
  obtain ⟨-, rfl⟩ := Op.pure_ok_iff.mp done
  exact (flushOldest_ok store law coherent flushed).1

end

def dirtyBytes (m : OrdMap Key Bytes) : Nat := (m.entries.map (fun e => e.2.length)).sum

theorem takeOldest_all {minFreed freed : Nat} {batch : List Cache.Run} {c : Cache}
    (target : minFreed < 2 ^ 64) (below : freed + dirtyBytes c.dirty < minFreed) :
    (Cache.takeOldest minFreed c.dirty.keys freed batch c).2.2.dirty.entries = [] := by
  induction listed : c.dirty.entries generalizing freed batch c with
  | nil => simp [keys, listed, Cache.takeOldest]
  | cons e rest ih =>
    obtain ⟨k, data⟩ := e
    have found : c.dirty.get? k = some data :=
      (mem_entries_iff c.dirty k data).mp (by rw [listed]; exact List.mem_cons_self)
    have fewer : (c.removeDirty k data).dirty.entries = rest := erase_head listed
    have keys : c.dirty.keys = k :: (c.removeDirty k data).dirty.keys := by
      rw [keys, keys, listed, fewer]
      rfl
    have sum : dirtyBytes c.dirty = data.length + dirtyBytes (c.removeDirty k data).dirty := by
      rw [dirtyBytes, dirtyBytes, listed, fewer, List.map_cons, List.sum_cons]
    rw [keys]
    unfold Cache.takeOldest
    rw [if_neg (by omega), found]
    apply ih _ fewer
    rw [wadd_of_lt (by omega)]
    omega

theorem flush_ok {H : Type} {host : DiskHost H} {contents : H → Nat → Nat → UInt8}
    (store : ByteStore host contents) {L : Nat → Nat → UInt8} {P : PagePred} (law : PageLaw L P) {s t : State H}
    (coherent : Coherent P L (contents s.host) s.cache) (inMemory : dirtyBytes s.cache.dirty < 2 ^ 64 - 1)
    (ran : flush host s = (.ok (), t)) : contents t.host = L := by
  obtain ⟨freed, u, flushed, done⟩ := Op.bind_ok_iff.mp ran
  obtain ⟨-, rfl⟩ := Op.pure_ok_iff.mp done
  obtain ⟨kept, rest⟩ := flushOldest_ok store law coherent flushed
  have empty : (Cache.takeOldest (2 ^ 64 - 1) s.cache.dirty.keys 0 [] s.cache).2.2.dirty.entries = [] :=
    takeOldest_all (by decide) (by omega)
  funext d p
  apply kept.disk
  rintro ⟨o, b, found, -⟩
  rw [rest] at found
  have member := (mem_entries_iff _ _ _).mpr found
  rw [empty] at member
  simp at member

end TypeBit.DiskCache
