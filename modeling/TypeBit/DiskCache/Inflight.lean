import TypeBit.DiskCache.Model

/-! The in-flight window shares the cache record, but reading, writing and flushing never move it. -/

namespace TypeBit.DiskCache

namespace Cache

def window (c : Cache) : Nat × Nat := (c.inflightBlocks, c.maxInflightBlocks)

theorem window_insertCoalesced (c : Cache) (disk offset : Nat) (data : Bytes) :
    (c.insertCoalesced disk offset data).window = c.window := by
  unfold insertCoalesced
  split
  · rfl
  · split
    · split <;> rfl
    · split <;> rfl

theorem window_evictClean (c : Cache) (len n : Nat) : (c.evictClean len n).window = c.window := by
  induction n generalizing c with
  | zero => rfl
  | succ n ih =>
    rw [evictClean]
    split
    · split
      · split
        · exact ih _
        · exact ih c
      · rfl
    · rfl

theorem window_joinPred (c : Cache) (disk offset : Nat) (data : Bytes) :
    (c.joinPred disk offset data).1.window = c.window := by
  unfold joinPred
  split <;> rfl

theorem window_joinSucc (c : Cache) (disk base : Nat) (merged : Bytes) :
    (c.joinSucc disk base merged).1.window = c.window := by
  unfold joinSucc
  split <;> rfl

theorem window_joinAdjacent (c : Cache) (disk offset : Nat) (data : Bytes) :
    (c.joinAdjacent disk offset data).1.window = c.window := by
  unfold joinAdjacent
  split
  · rfl
  · exact (window_joinSucc _ _ _ _).trans (window_joinPred c disk offset data)

theorem window_keepClean (c : Cache) (disk base : Nat) (merged : Bytes) :
    (c.keepClean disk base merged).window = c.window := by
  unfold keepClean
  have evicted := c.window_evictClean merged.length c.clean.size
  dsimp only
  split
  · exact evicted
  · exact evicted

theorem window_promoteClean (c : Cache) (disk offset : Nat) (data : Bytes) :
    (c.promoteClean disk offset data).window = c.window := by
  unfold promoteClean
  split
  · rfl
  · exact (window_keepClean _ _ _ _).trans (window_joinAdjacent _ disk offset data)

theorem window_takeOldest (minFreed : Nat) (keys : List Key) (freed : Nat) (batch : List Run) (c : Cache) :
    (takeOldest minFreed keys freed batch c).2.2.window = c.window := by
  induction keys generalizing freed batch c with
  | nil => rfl
  | cons k tail ih =>
    rw [takeOldest]
    split
    · rfl
    · split
      · exact ih _ _ _
      · exact ih _ _ c

end Cache

section Operations
variable {H : Type} (host : DiskHost H)

theorem window_writeBatch (batch : List Cache.Run) (s : State H) :
    (writeBatch host batch s).2.cache.window = s.cache.window := by
  induction batch generalizing s with
  | nil => rfl
  | cons r tail ih =>
    rw [writeBatch]
    dsimp only
    split
    · rfl
    · exact (ih _).trans (Cache.window_promoteClean _ _ _ _)

theorem window_flushOldest (minFreed : Nat) (s : State H) :
    (flushOldest host minFreed s).2.cache.window = s.cache.window := by
  unfold flushOldest
  dsimp only
  have taken := Cache.window_takeOldest minFreed s.cache.dirty.keys 0 [] s.cache
  have written := window_writeBatch host (Cache.takeOldest minFreed s.cache.dirty.keys 0 [] s.cache).2.1
    ⟨(Cache.takeOldest minFreed s.cache.dirty.keys 0 [] s.cache).2.2, s.host⟩
  split
  · rename_i u t done
    rw [done] at written
    exact written.trans taken
  · rename_i e t failed
    rw [failed] at written
    exact written.trans taken

theorem window_flush (s : State H) : (flush host s).2.cache.window = s.cache.window := by
  have flushed := window_flushOldest host (2 ^ 64 - 1) s
  unfold flush
  simp only [bind, pure]
  split
  · rename_i a t done
    rw [done] at flushed
    exact flushed
  · rename_i e t failed
    rw [failed] at flushed
    exact flushed

theorem window_flushDiskLoop (keys : List Key) (s : State H) :
    (flushDiskLoop host keys s).2.cache.window = s.cache.window := by
  induction keys generalizing s with
  | nil => rfl
  | cons k tail ih =>
    rw [flushDiskLoop]
    dsimp only
    split
    · rfl
    · split
      · rfl
      · exact (ih _).trans (Cache.window_promoteClean _ _ _ _)

theorem window_makeRoom (len n : Nat) (s : State H) : (makeRoom host len n s).2.cache.window = s.cache.window := by
  induction n generalizing s with
  | zero => rfl
  | succ n ih =>
    have flushed := window_flushOldest host len s
    rw [makeRoom]
    dsimp only
    split
    · split
      · rename_i e t failed
        rw [failed] at flushed
        exact flushed
      · rename_i freed t done
        rw [done] at flushed
        split
        · exact flushed
        · exact (ih t).trans flushed
    · rfl

theorem window_write (disk offset : Nat) (data : Bytes) (s : State H) :
    (write host disk offset data s).2.cache.window = s.cache.window := by
  unfold write
  split
  · rfl
  · split
    · have flushed := window_flush host s
      split
      · rename_i e t failed
        rw [failed] at flushed
        exact flushed
      · rename_i u t done
        rw [done] at flushed
        split
        · exact flushed
        · exact flushed
    · have room := window_makeRoom host data.length s.cache.dirty.size s
      split
      · rename_i e t failed
        rw [failed] at room
        exact room
      · rename_i u t done
        rw [done] at room
        exact (Cache.window_insertCoalesced _ _ _ _).trans room

theorem window_readLoop (disk n pos len : Nat) (out : Bytes) (s : State H) :
    (readLoop host disk n pos len out s).2.cache.window = s.cache.window := by
  induction n generalizing pos len out s with
  | zero => rfl
  | succ n ih =>
    rw [readLoop]
    dsimp only
    split
    · rfl
    · split
      · exact ih _ _ _ s
      · split
        · refine (ih _ _ _ _).trans ?_
          dsimp only
          split <;> rfl
        · split
          · rfl
          · split
            · rfl
            · exact (ih _ _ _ _).trans (Cache.window_promoteClean _ _ _ _)

end Operations
end TypeBit.DiskCache
