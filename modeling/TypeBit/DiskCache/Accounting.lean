import TypeBit.DiskCache.Coherence

/-! The counter `used` against the dirty map. Every operation keeps the two equal and the counter within the
budget, except a write that is merged into the entry right behind it: that merge takes the entry off the counter
and does not put it back. -/

namespace TypeBit.DiskCache
open OrdMap

/-! ### What the counter is about -/

structure Book where
  budget : Nat
  used : Nat
  dirty : OrdMap Key Bytes

def Cache.book (c : Cache) : Book := ⟨c.budget, c.used, c.dirty⟩

/-- The counter shows the dirty bytes and is within the budget; no entry is empty. -/
structure Exact (c : Cache) : Prop where
  used : c.used = dirtyBytes c.dirty
  within : c.used ≤ c.budget
  entries : ∀ k b, c.dirty.get? k = some b → b ≠ []

def JoinsSuccessor (c : Cache) (d o : Nat) (data : Bytes) : Prop :=
  c.dirty.get? (key d o) = none ∧
    (c.dirty.below? (key d o)).filter (fun e => e.1.disk = d ∧ wadd e.1.off e.2.length = o) = none ∧
    (c.dirty.get? (key d (wadd o data.length))).isSome = true

/-! ### Subtractions -/

def InsertSafe (c : Cache) (d o : Nat) (data : Bytes) : Prop :=
  match c.dirty.get? (key d o) with
  | some existing => existing.length ≤ c.used
  | none =>
      match (c.dirty.below? (key d o)).filter (fun e => e.1.disk = d ∧ wadd e.1.off e.2.length = o) with
      | some (k, v) =>
          match c.dirty.get? (key d (wadd k.off v.length)) with
          | some succ => succ.length ≤ c.used
          | none => True
      | none =>
          match c.dirty.get? (key d (wadd o data.length)) with
          | some succ => succ.length ≤ c.used
          | none => True

def TakeSafe (minFreed : Nat) : List Key → Nat → Cache → Prop
  | [], _, _ => True
  | k :: tail, freed, c =>
      freed ≥ minFreed ∨
        match c.dirty.get? k with
        | some data => data.length ≤ c.used ∧ TakeSafe minFreed tail (wadd freed data.length) (c.removeDirty k data)
        | none => TakeSafe minFreed tail freed c

section Safe
variable {H : Type} (host : DiskHost H)

def FlushDiskSafe : List Key → State H → Prop
  | [], _ => True
  | k :: tail, s =>
      match s.cache.dirty.get? k with
      | none => True
      | some data =>
          data.length ≤ s.cache.used ∧
            match host.diskWrite s.host k.disk k.off data with
            | (.error _, _) => True
            | (.ok _, h) => FlushDiskSafe tail ⟨(s.cache.removeDirty k data).promoteClean k.disk k.off data, h⟩

def RoomSafe (len : Nat) : Nat → State H → Prop
  | 0, _ => True
  | n + 1, s =>
      wadd s.cache.used len > s.cache.budget ∧ s.cache.dirty.isEmpty = false →
        TakeSafe len s.cache.dirty.keys 0 s.cache ∧
          match flushOldest host len s with
          | (.error _, _) => True
          | (.ok freed, t) => freed = 0 ∨ RoomSafe len n t

def Call.Safe (call : Call) (s : State H) : Prop :=
  match call with
  | .write d o data =>
      data = [] ∨
        if data.length > s.cache.budget then TakeSafe (2 ^ 64 - 1) s.cache.dirty.keys 0 s.cache
        else RoomSafe host data.length s.cache.dirty.size s ∧
          ∀ t, makeRoom host data.length s.cache.dirty.size s = (.ok (), t) → InsertSafe t.cache d o data
  | .read _ _ _ => True
  | .flush => TakeSafe (2 ^ 64 - 1) s.cache.dirty.keys 0 s.cache
  | .flushDisk d => FlushDiskSafe host (s.cache.dirty.keys.filter (fun k => k.disk = d)) s
  | .flushBounded m => TakeSafe m s.cache.dirty.keys 0 s.cache

end Safe

/-! ### The clean side -/

namespace Cache

theorem book_evictClean (c : Cache) (len n : Nat) : (c.evictClean len n).book = c.book := by
  induction n generalizing c with
  | zero => rfl
  | succ n ih =>
    rw [evictClean]
    split
    · split
      · split
        · exact ih _
        · exact ih c
      · rfl
    · rfl

theorem book_joinAdjacent (c : Cache) (d o : Nat) (data : Bytes) : (c.joinAdjacent d o data).1.book = c.book := by
  have pred : (c.joinPred d o data).1.book = c.book := by
    unfold joinPred
    split <;> rfl
  have succ : ∀ (u : Cache) (base : Nat) (merged : Bytes), (u.joinSucc d base merged).1.book = u.book := by
    intro u base merged
    unfold joinSucc
    split <;> rfl
  unfold joinAdjacent
  split
  · rfl
  · exact (succ _ _ _).trans pred

theorem book_promoteClean (c : Cache) (d o : Nat) (data : Bytes) : (c.promoteClean d o data).book = c.book := by
  unfold promoteClean
  split
  · rfl
  · have joined := book_joinAdjacent { c with lruClock := wadd c.lruClock 1 } d o data
    generalize { c with lruClock := wadd c.lruClock 1 }.joinAdjacent d o data = run at joined ⊢
    have evicted := book_evictClean run.1 run.2.2.length run.1.clean.size
    unfold keepClean
    dsimp only
    split
    · exact evicted.trans joined
    · exact evicted.trans joined

end Cache

theorem Exact.of_book {c u : Cache} (exact : Exact c) (same : u.book = c.book) : Exact u := by
  obtain ⟨budget, used, dirty⟩ : u.budget = c.budget ∧ u.used = c.used ∧ u.dirty = c.dirty := by
    simpa [Cache.book] using same
  refine ⟨?_, ?_, ?_⟩
  · rw [used, dirty]
    exact exact.used
  · rw [used, budget]
    exact exact.within
  · rw [dirty]
    exact exact.entries

/-! ### Taking entries out -/

section Take
variable {c : Cache} {k : Key} {data : Bytes}

theorem dirtyBytes_erase {m : OrdMap Key Bytes} (found : m.get? k = some data) :
    dirtyBytes m = data.length + dirtyBytes (m.erase k) :=
  total_erase (f := fun (_ : Key) (b : Bytes) => b.length) found

theorem dirtyBytes_insert (m : OrdMap Key Bytes) (k : Key) (data : Bytes) :
    dirtyBytes (m.insert k data) = data.length + dirtyBytes (m.erase k) :=
  total_insert (fun (_ : Key) (b : Bytes) => b.length) m k data

theorem Exact.removeDirty (exact : Exact c) (found : c.dirty.get? k = some data) : Exact (c.removeDirty k data) := by
  have split := dirtyBytes_erase found
  have used := exact.used
  have within := exact.within
  have less : wsub c.used data.length = c.used - data.length := wsub_of_le (by omega)
  refine ⟨?_, ?_, ?_⟩
  · change wsub c.used data.length = dirtyBytes (c.dirty.erase k)
    omega
  · change wsub c.used data.length ≤ c.budget
    omega
  · intro j b entry
    exact exact.entries j b (get?_of_erase entry)

theorem takeOldest_exact (minFreed : Nat) (keys : List Key) (freed : Nat) (batch : List Cache.Run) (exact : Exact c)
    (fits : freed + dirtyBytes c.dirty < 2 ^ 64) :
    let taken := Cache.takeOldest minFreed keys freed batch c
    TakeSafe minFreed keys freed c ∧ Exact taken.2.2 ∧ taken.2.2.budget = c.budget ∧ freed ≤ taken.1 ∧
      taken.1 + dirtyBytes taken.2.2.dirty = freed + dirtyBytes c.dirty := by
  induction keys generalizing freed batch c with
  | nil => exact ⟨trivial, exact, rfl, le_refl _, rfl⟩
  | cons k tail ih =>
    unfold Cache.takeOldest TakeSafe
    split_ifs with enough
    · exact ⟨Or.inl enough, exact, rfl, le_refl _, rfl⟩
    · cases found : c.dirty.get? k with
      | none =>
        obtain ⟨safe, rest⟩ := ih freed batch exact fits
        exact ⟨Or.inr safe, rest⟩
      | some data =>
        have split : dirtyBytes c.dirty = data.length + dirtyBytes (c.removeDirty k data).dirty := dirtyBytes_erase found
        have grown : wadd freed data.length = freed + data.length := wadd_of_lt (by omega)
        obtain ⟨safe, kept, budget, more, sum⟩ := ih (wadd freed data.length) (Cache.pushRun batch k data)
          (exact.removeDirty found) (by omega)
        have used := exact.used
        exact ⟨Or.inr ⟨by omega, safe⟩, kept, budget, le_trans (by omega) more, sum.trans (by omega)⟩

theorem size_takeOldest_le (minFreed : Nat) (keys : List Key) (freed : Nat) (batch : List Cache.Run) (c : Cache) :
    (Cache.takeOldest minFreed keys freed batch c).2.2.dirty.size ≤ c.dirty.size := by
  induction keys generalizing freed batch c with
  | nil => exact le_refl _
  | cons k tail ih =>
    unfold Cache.takeOldest
    split_ifs
    · exact le_refl _
    · cases found : c.dirty.get? k with
      | none => exact ih freed batch c
      | some data =>
        refine (ih (wadd freed data.length) (Cache.pushRun batch k data) (c.removeDirty k data)).trans ?_
        exact List.length_filter_le _ _

theorem takeOldest_first {minFreed : Nat} (wanted : 0 < minFreed) (batch : List Cache.Run)
    (dirty : c.dirty.isEmpty = false) :
    ∃ k data tail, c.dirty.get? k = some data ∧ (c.removeDirty k data).dirty.size < c.dirty.size ∧
      Cache.takeOldest minFreed c.dirty.keys 0 batch c =
        Cache.takeOldest minFreed tail (wadd 0 data.length) (Cache.pushRun batch k data) (c.removeDirty k data) := by
  cases listed : c.dirty.entries with
  | nil =>
    rw [isEmpty, listed] at dirty
    cases dirty
  | cons e rest =>
    obtain ⟨k, data⟩ := e
    have found : c.dirty.get? k = some data :=
      (mem_entries_iff c.dirty k data).mp (by rw [listed]; exact List.mem_cons_self)
    have fewer : (c.removeDirty k data).dirty.entries = rest := erase_head listed
    refine ⟨k, data, rest.map Prod.fst, found, ?_, ?_⟩
    · rw [size, size, fewer, listed, List.length_cons]
      omega
    · rw [keys, listed, List.map_cons]
      conv_lhs => unfold Cache.takeOldest
      rw [if_neg (by omega), found]

end Take

/-! ### Flushing -/

section Flush
variable {H : Type} (host : DiskHost H)

theorem book_writeBatch (batch : List Cache.Run) (s : State H) :
    (writeBatch host batch s).2.cache.book = s.cache.book := by
  induction batch generalizing s with
  | nil => rfl
  | cons r tail ih =>
    rw [writeBatch]
    dsimp only
    split
    · rfl
    · exact (ih _).trans (Cache.book_promoteClean _ _ _ _)

theorem book_flushOldest (minFreed : Nat) (s : State H) :
    (flushOldest host minFreed s).2.cache.book =
      (Cache.takeOldest minFreed s.cache.dirty.keys 0 [] s.cache).2.2.book := by
  have written := book_writeBatch host (Cache.takeOldest minFreed s.cache.dirty.keys 0 [] s.cache).2.1
    ⟨(Cache.takeOldest minFreed s.cache.dirty.keys 0 [] s.cache).2.2, s.host⟩
  unfold flushOldest
  dsimp only
  split
  next u t done =>
    rw [done] at written
    exact written
  next e t failed =>
    rw [failed] at written
    exact written

theorem freed_flushOldest {minFreed freed : Nat} {s t : State H} (ran : flushOldest host minFreed s = (.ok freed, t)) :
    freed = (Cache.takeOldest minFreed s.cache.dirty.keys 0 [] s.cache).1 := by
  unfold flushOldest at ran
  dsimp only at ran
  split at ran
  · cases ran
    rfl
  · cases ran

variable {s : State H}

theorem flushOldest_exact (minFreed : Nat) (exact : Exact s.cache) (fits : dirtyBytes s.cache.dirty < 2 ^ 64) :
    TakeSafe minFreed s.cache.dirty.keys 0 s.cache ∧ Exact (flushOldest host minFreed s).2.cache ∧
      (flushOldest host minFreed s).2.cache.budget = s.cache.budget ∧
      dirtyBytes (flushOldest host minFreed s).2.cache.dirty ≤ dirtyBytes s.cache.dirty := by
  obtain ⟨safe, kept, budget, -, sum⟩ := takeOldest_exact minFreed s.cache.dirty.keys 0 [] exact (by omega)
  have book := book_flushOldest host minFreed s
  refine ⟨safe, kept.of_book book, ?_, ?_⟩
  · exact (congrArg Book.budget book).trans budget
  · rw [show (flushOldest host minFreed s).2.cache.dirty = _ from congrArg Book.dirty book]
    change dirtyBytes (Cache.takeOldest minFreed s.cache.dirty.keys 0 [] s.cache).2.2.dirty ≤ _
    omega

theorem flushOldest_progress {minFreed : Nat} (wanted : 0 < minFreed) (exact : Exact s.cache)
    (fits : dirtyBytes s.cache.dirty < 2 ^ 64) (dirty : s.cache.dirty.isEmpty = false) :
    (flushOldest host minFreed s).2.cache.dirty.size < s.cache.dirty.size ∧
      ∀ freed t, flushOldest host minFreed s = (.ok freed, t) → freed ≠ 0 := by
  obtain ⟨k, data, tail, found, fewer, first⟩ := takeOldest_first wanted [] dirty
  have book := congrArg Book.dirty (book_flushOldest host minFreed s)
  constructor
  · rw [show (flushOldest host minFreed s).2.cache.dirty = _ from book]
    change (Cache.takeOldest minFreed s.cache.dirty.keys 0 [] s.cache).2.2.dirty.size < _
    rw [first]
    exact lt_of_le_of_lt (size_takeOldest_le _ _ _ _ _) fewer
  · intro freed t ran
    rw [freed_flushOldest host ran, first]
    have split : dirtyBytes s.cache.dirty = data.length + dirtyBytes (s.cache.removeDirty k data).dirty :=
      dirtyBytes_erase found
    have positive := List.length_pos_iff.mpr (exact.entries k data found)
    have start : wadd 0 data.length = 0 + data.length := wadd_of_lt (by omega)
    obtain ⟨-, -, -, more, -⟩ := takeOldest_exact minFreed tail (wadd 0 data.length) (Cache.pushRun [] k data)
      (exact.removeDirty found) (by omega)
    omega

theorem makeRoom_exact {len n : Nat} (wanted : 0 < len) (small : len ≤ s.cache.budget) (exact : Exact s.cache)
    (fits : dirtyBytes s.cache.dirty + len < 2 ^ 64) (fuel : s.cache.dirty.size ≤ n) :
    RoomSafe host len n s ∧ Exact (makeRoom host len n s).2.cache ∧
      (makeRoom host len n s).2.cache.budget = s.cache.budget ∧
      ∀ t, makeRoom host len n s = (.ok (), t) → t.cache.used + len ≤ t.cache.budget := by
  have clear : ∀ {u : State H}, Exact u.cache → u.cache.dirty.isEmpty = true → u.cache.used = 0 := by
    intro u counted none
    have empty : u.cache.dirty.entries = [] := List.isEmpty_iff.mp none
    rw [counted.used, dirtyBytes, empty]
    rfl
  induction n generalizing s with
  | zero =>
    have none : s.cache.dirty.isEmpty = true := by
      rw [isEmpty, List.isEmpty_iff, List.eq_nil_iff_length_eq_zero]
      exact Nat.le_zero.mp fuel
    refine ⟨trivial, exact, rfl, ?_⟩
    intro t done
    cases done
    rw [clear exact none]
    omega
  | succ n ih =>
    have total : wadd s.cache.used len = s.cache.used + len := wadd_of_lt (by rw [exact.used]; exact fits)
    unfold RoomSafe makeRoom
    by_cases tight : wadd s.cache.used len > s.cache.budget ∧ s.cache.dirty.isEmpty = false
    · rw [if_pos tight]
      obtain ⟨safe, kept, budget, less⟩ := flushOldest_exact host len exact (by omega)
      obtain ⟨fewer, freeing⟩ := flushOldest_progress host wanted exact (by omega) tight.2
      rcases flushed : flushOldest host len s with ⟨e | freed, t⟩
      · rw [flushed] at kept budget
        refine ⟨fun _ => ⟨safe, trivial⟩, kept, budget, ?_⟩
        intro t done
        cases done
      · rw [flushed] at kept budget less fewer
        dsimp only at kept budget less fewer
        obtain ⟨later, exactly, same, room⟩ := ih (s := t) (by rw [budget]; exact small) kept (by omega) (by omega)
        dsimp only
        rw [if_neg (freeing freed t flushed)]
        exact ⟨fun _ => ⟨safe, Or.inr later⟩, exactly, same.trans budget, room⟩
    · rw [if_neg tight]
      refine ⟨fun held => absurd held tight, exact, rfl, ?_⟩
      intro t done
      cases done
      by_cases none : s.cache.dirty.isEmpty = true
      · rw [clear exact none]
        omega
      · have slack : ¬ wadd s.cache.used len > s.cache.budget := fun above => tight ⟨above, by simpa using none⟩
        omega

theorem flushDiskLoop_exact (keys : List Key) (exact : Exact s.cache) :
    FlushDiskSafe host keys s ∧ Exact (flushDiskLoop host keys s).2.cache ∧
      (flushDiskLoop host keys s).2.cache.budget = s.cache.budget := by
  induction keys generalizing s with
  | nil => exact ⟨trivial, exact, rfl⟩
  | cons k tail ih =>
    unfold FlushDiskSafe flushDiskLoop
    cases found : s.cache.dirty.get? k with
    | none => exact ⟨trivial, exact, rfl⟩
    | some data =>
      have enough : data.length ≤ s.cache.used := by
        have split := dirtyBytes_erase found
        have used := exact.used
        omega
      have removed := exact.removeDirty found
      dsimp only
      rcases host.diskWrite s.host k.disk k.off data with ⟨e | u, h⟩
      · exact ⟨⟨enough, trivial⟩, removed, rfl⟩
      · have promoted := Cache.book_promoteClean (s.cache.removeDirty k data) k.disk k.off data
        obtain ⟨safe, kept, budget⟩ := ih (s := ⟨(s.cache.removeDirty k data).promoteClean k.disk k.off data, h⟩)
          (removed.of_book promoted)
        exact ⟨⟨enough, safe⟩, kept, budget.trans (congrArg Book.budget promoted)⟩

end Flush

/-! ### Buffering -/

section Insert
variable {c : Cache} {d o : Nat} {data : Bytes}

theorem insertCoalesced_cases (c : Cache) (d o : Nat) (data : Bytes) :
    (∃ existing, c.dirty.get? (key d o) = some existing ∧ c.insertCoalesced d o data =
      { c with used := wadd (wsub c.used existing.length) data.length, dirty := c.dirty.insert (key d o) data }) ∨
    (¬ JoinsSuccessor c d o data ∧ ∃ k v, c.dirty.get? k = some v ∧ c.insertCoalesced d o data =
      { c with used := wadd c.used data.length, dirty := c.dirty.insert k (v ++ data) }) ∨
    (JoinsSuccessor c d o data ∧ ∃ succ, c.dirty.get? (key d (wadd o data.length)) = some succ ∧
      c.insertCoalesced d o data =
        { c with
          used := wadd (wsub c.used succ.length) data.length
          dirty := (c.dirty.erase (key d (wadd o data.length))).insert (key d o) (data ++ succ) }) ∨
    (c.dirty.get? (key d o) = none ∧ ¬ JoinsSuccessor c d o data ∧ c.insertCoalesced d o data =
      { c with used := wadd c.used data.length, dirty := c.dirty.insert (key d o) data }) := by
  unfold Cache.insertCoalesced
  cases here : c.dirty.get? (key d o) with
  | some existing => exact Or.inl ⟨existing, rfl, rfl⟩
  | none =>
    dsimp only
    cases below : (c.dirty.below? (key d o)).filter (fun e => e.1.disk = d ∧ wadd e.1.off e.2.length = o) with
    | some e =>
      obtain ⟨k, v⟩ := e
      obtain ⟨found, adjacent⟩ := Option.filter_eq_some_iff.mp below
      simp only [Bool.decide_and, Bool.and_eq_true, decide_eq_true_eq] at adjacent
      dsimp only
      rw [adjacent.2, here]
      refine Or.inr (Or.inl ⟨?_, k, v, (below?_eq_some found).1, rfl⟩)
      intro joins
      have missing := joins.2.1
      rw [below] at missing
      cases missing
    | none =>
      dsimp only
      cases after : c.dirty.get? (key d (wadd o data.length)) with
      | some succ => exact Or.inr (Or.inr (Or.inl ⟨⟨here, below, by rw [after]; rfl⟩, succ, rfl, rfl⟩))
      | none =>
        refine Or.inr (Or.inr (Or.inr ⟨rfl, ?_, rfl⟩))
        intro joins
        have present := joins.2.2
        rw [after] at present
        cases present

theorem insertSafe (exact : Exact c) : InsertSafe c d o data := by
  have small : ∀ {k : Key} {b : Bytes}, c.dirty.get? k = some b → b.length ≤ c.used := by
    intro k b found
    have split := dirtyBytes_erase found
    have used := exact.used
    omega
  unfold InsertSafe
  split
  next existing found => exact small found
  · split
    · split
      next found => exact small found
      · trivial
    · split
      next found => exact small found
      · trivial

theorem Exact.insert {used : Nat} {k : Key} {b : Bytes} {m : OrdMap Key Bytes} (exact : Exact c)
    (sub : ∀ j v, m.get? j = some v → c.dirty.get? j = some v) (filled : b ≠ [])
    (counted : used = b.length + dirtyBytes (m.erase k)) (room : used ≤ c.budget) :
    Exact { c with used := used, dirty := m.insert k b } := by
  refine ⟨counted.trans (dirtyBytes_insert _ _ _).symm, room, ?_⟩
  intro j v found
  rw [get?_insert] at found
  split_ifs at found
  · cases found
    exact filled
  · exact exact.entries j v (sub j v found)

theorem insert_exact (exact : Exact c) (filled : data ≠ []) (room : c.used + data.length ≤ c.budget)
    (fits : c.used + data.length < 2 ^ 64) (clear : ¬ JoinsSuccessor c d o data) :
    Exact (c.insertCoalesced d o data) := by
  have grown : wadd c.used data.length = c.used + data.length := wadd_of_lt fits
  have used := exact.used
  rcases insertCoalesced_cases c d o data with ⟨existing, found, same⟩ | ⟨absent, k, v, found, same⟩ |
      ⟨joins, -⟩ | ⟨absent, -, same⟩
  · have split := dirtyBytes_erase found
    have less : wsub c.used existing.length = c.used - existing.length := wsub_of_le (by omega)
    have counted : wadd (wsub c.used existing.length) data.length = c.used - existing.length + data.length := by
      rw [less]
      exact wadd_of_lt (by omega)
    rw [same]
    exact exact.insert (fun _ _ held => held) filled (by omega) (by omega)
  · have split := dirtyBytes_erase found
    rw [same]
    refine exact.insert (fun _ _ held => held) (by simp [filled]) ?_ (by omega)
    rw [List.length_append]
    omega
  · exact absurd joins clear
  · rw [same]
    refine exact.insert (fun _ _ held => held) filled ?_ (by omega)
    rw [erase_of_absent absent]
    omega

theorem joinsSuccessor_short (exact : Exact c) (fits : c.used + data.length < 2 ^ 64)
    (joins : JoinsSuccessor c d o data) :
    (c.insertCoalesced d o data).used < dirtyBytes (c.insertCoalesced d o data).dirty := by
  have used := exact.used
  rcases insertCoalesced_cases c d o data with ⟨existing, found, -⟩ | ⟨clear, -⟩ | ⟨-, succ, found, same⟩ | ⟨-, clear, -⟩
  · rw [joins.1] at found
    cases found
  · exact absurd joins clear
  · have split := dirtyBytes_erase found
    have positive := List.length_pos_iff.mpr (exact.entries _ succ found)
    have less : wsub c.used succ.length = c.used - succ.length := wsub_of_le (by omega)
    have counted : wadd (wsub c.used succ.length) data.length = c.used - succ.length + data.length := by
      rw [less]
      exact wadd_of_lt (by omega)
    have absent : (c.dirty.erase (key d (wadd o data.length))).get? (key d o) = none := by
      rw [get?_erase]
      split_ifs
      · rfl
      · exact joins.1
    rw [same]
    dsimp only
    rw [dirtyBytes_insert, erase_of_absent absent, List.length_append, counted]
    omega
  · exact absurd joins clear

end Insert

/-! ### Calls and runs -/

section Calls
variable {H : Type} (host : DiskHost H)

theorem book_readLoop (d n pos len : Nat) (out : Bytes) (s : State H) :
    (readLoop host d n pos len out s).2.cache.book = s.cache.book := by
  induction n generalizing pos len out s with
  | zero => rfl
  | succ n ih =>
    unfold readLoop
    dsimp only
    split
    · rfl
    · split
      · exact ih _ _ _ s
      · split
        · refine (ih _ _ _ _).trans ?_
          dsimp only
          split <;> rfl
        · split
          · rfl
          · split
            · rfl
            · exact (ih _ _ _ _).trans (Cache.book_promoteClean _ _ _ _)

/-- What the accounting promises of one call: afterwards the counter shows the dirty bytes, no subtraction on it
underflowed, and after a write it is within the budget. -/
structure Call.Accounted (call : Call) (s : State H) : Prop where
  exact : (call.run host s).2.cache.used = dirtyBytes (call.run host s).2.cache.dirty
  safe : call.Safe host s
  within : ∀ d o data, call = .write d o data → (call.run host s).2.cache.used ≤ (call.run host s).2.cache.budget

/-- A write is not merged into its successor in the map it is inserted into. -/
def Call.Countable (call : Call) (s : State H) : Prop :=
  match call with
  | .write d o data => data = [] ∨ data.length > s.cache.budget ∨
      ∀ t, makeRoom host data.length s.cache.dirty.size s = (.ok (), t) → ¬ JoinsSuccessor t.cache d o data
  | _ => True

/-- The dirty bytes and the data of a write are in memory at the same time. -/
def Call.InMemory (call : Call) (s : State H) : Prop :=
  ∀ d o data, call = .write d o data → dirtyBytes s.cache.dirty + data.length < 2 ^ 64

/-- The calls of a run, each with the state it meets; a call that fails does not end the run. -/
def moments : List Call → State H → List (Call × State H)
  | [], _ => []
  | call :: tail, s => (call, s) :: moments tail (call.run host s).2

variable {s : State H}

theorem state_discard {α β : Type} (x : Io H α) (b : β) (s : State H) : ((x >>= fun _ => pure b) s).2 = (x s).2 := by
  rcases ran : x s with ⟨e | a, t⟩
  · simp [bind, ran]
  · simp [bind, pure, ran]

theorem state_flush (s : State H) : (flush host s).2 = (flushOldest host (2 ^ 64 - 1) s).2 :=
  state_discard (flushOldest host (2 ^ 64 - 1)) () s

theorem state_write_large {d o : Nat} {data : Bytes} (filled : data ≠ []) (large : data.length > s.cache.budget) :
    (write host d o data s).2.cache = (flush host s).2.cache := by
  unfold write
  rw [if_neg filled, if_pos large]
  split
  next e t failed => rw [failed]
  next u t done =>
    rw [done]
    split <;> rfl

theorem write_exact {d o : Nat} {data : Bytes} (exact : Exact s.cache) (bound : s.cache.budget < 2 ^ 64)
    (memory : (Call.write d o data).InMemory s) :
    (Call.write d o data).Safe host s ∧ (write host d o data s).2.cache.budget = s.cache.budget ∧
      ((Call.write d o data).Countable host s → Exact (write host d o data s).2.cache) ∧
      (¬ (Call.write d o data).Countable host s →
        (write host d o data s).2.cache.used < dirtyBytes (write host d o data s).2.cache.dirty) := by
  have fits : dirtyBytes s.cache.dirty + data.length < 2 ^ 64 := memory d o data rfl
  by_cases filled : data = []
  · have same : write host d o data s = (.ok (), s) := if_pos filled
    rw [same]
    exact ⟨Or.inl filled, rfl, fun _ => exact, fun joins => absurd (Or.inl filled) joins⟩
  by_cases large : data.length > s.cache.budget
  · obtain ⟨safe, kept, budget, -⟩ := flushOldest_exact host (2 ^ 64 - 1) exact (by omega)
    rw [state_write_large host filled large, state_flush]
    refine ⟨Or.inr ?_, budget, fun _ => kept, fun joins => absurd (Or.inr (Or.inl large)) joins⟩
    rw [if_pos large]
    exact safe
  · have positive := List.length_pos_iff.mpr filled
    obtain ⟨safe, kept, budget, room⟩ := makeRoom_exact host (n := s.cache.dirty.size) positive (by omega) exact fits
      (le_refl _)
    have ran := write_small host d o filled large
    have budgets : ∀ c : Cache, (c.insertCoalesced d o data).budget = c.budget := by
      intro c
      rcases insertCoalesced_cases c d o data with ⟨_, _, same⟩ | ⟨_, _, _, _, same⟩ | ⟨_, _, _, same⟩ | ⟨_, _, same⟩ <;>
        rw [same]
    rcases made : makeRoom host data.length s.cache.dirty.size s with ⟨e | ⟨⟩, t⟩
    · rw [made] at ran kept budget
      rw [ran]
      refine ⟨Or.inr ?_, budget, fun _ => kept, fun joins => absurd (Or.inr (Or.inr ?_)) joins⟩
      · rw [if_neg large, made]
        refine ⟨safe, ?_⟩
        intro u same
        cases same
      · rw [made]
        intro u same
        cases same
    · rw [made] at ran kept budget
      have fit := room t made
      dsimp only at ran kept budget
      rw [ran]
      refine ⟨Or.inr ?_, (budgets t.cache).trans budget, ?_, ?_⟩
      · rw [if_neg large, made]
        refine ⟨safe, ?_⟩
        intro u same
        cases same
        exact insertSafe kept
      · intro clear
        have apart : ¬ JoinsSuccessor t.cache d o data := by
          rcases clear with empty | bigger | clear
          · exact absurd empty filled
          · exact absurd bigger large
          · exact clear t made
        exact insert_exact kept filled fit (by omega) apart
      · intro joins
        apply joinsSuccessor_short kept (by omega)
        by_contra apart
        apply joins
        refine Or.inr (Or.inr ?_)
        intro u same
        rw [made] at same
        cases same
        exact apart

theorem step_exact {call : Call} (exact : Exact s.cache) (bound : s.cache.budget < 2 ^ 64) (memory : call.InMemory s) :
    (call.Accounted host s ↔ call.Countable host s) ∧
      (call.Countable host s → Exact (call.run host s).2.cache ∧ (call.run host s).2.cache.budget = s.cache.budget) := by
  have used := exact.used
  have within := exact.within
  -- every call but a write is counted
  have counted : call.Countable host s → call.Safe host s → Exact (call.run host s).2.cache →
      (call.run host s).2.cache.budget = s.cache.budget →
      (call.Accounted host s ↔ call.Countable host s) ∧
        (call.Countable host s → Exact (call.run host s).2.cache ∧ (call.run host s).2.cache.budget = s.cache.budget) := by
    intro clear safe kept budget
    exact ⟨⟨fun _ => clear, fun _ => ⟨kept.used, safe, fun _ _ _ _ => kept.within⟩⟩, fun _ => ⟨kept, budget⟩⟩
  cases call with
  | write d o data =>
    obtain ⟨safe, budget, exactly, short⟩ := write_exact host exact bound memory
    have state : ((Call.write d o data).run host s).2 = (write host d o data s).2 := state_discard _ _ s
    by_cases clear : (Call.write d o data).Countable host s
    · apply counted clear safe
      · rw [state]
        exact exactly clear
      · rw [state]
        exact budget
    · refine ⟨⟨fun accounted => ?_, fun met => absurd met clear⟩, fun met => absurd met clear⟩
      have equal := accounted.exact
      have less := short clear
      rw [state] at equal
      omega
  | read d o n =>
    have same : ((Call.read d o n).run host s).2.cache.book = s.cache.book := book_readLoop host d n o n [] s
    exact counted trivial trivial (exact.of_book same) (congrArg Book.budget same)
  | flush =>
    obtain ⟨safe, kept, budget, -⟩ := flushOldest_exact host (2 ^ 64 - 1) exact (by omega)
    have state : (Call.flush.run host s).2 = (flushOldest host (2 ^ 64 - 1) s).2 :=
      (state_discard _ _ s).trans (state_flush host s)
    rw [← state] at kept budget
    exact counted trivial safe kept budget
  | flushDisk d =>
    obtain ⟨safe, kept, budget⟩ := flushDiskLoop_exact host (s.cache.dirty.keys.filter (fun k => k.disk = d)) exact
    have state : ((Call.flushDisk d).run host s).2 = (flushDisk host d s).2 := state_discard _ _ s
    apply counted trivial safe
    · rw [state]
      exact kept
    · rw [state]
      exact budget
  | flushBounded m =>
    obtain ⟨safe, kept, budget, -⟩ := flushOldest_exact host m exact (by omega)
    have state : ((Call.flushBounded m).run host s).2 = (flushOldest host m s).2 := state_discard _ _ s
    rw [← state] at kept budget
    exact counted trivial safe kept budget

theorem moments_exact {calls : List Call} (exact : Exact s.cache) (bound : s.cache.budget < 2 ^ 64)
    (memory : ∀ m ∈ moments host calls s, m.1.InMemory m.2) :
    (∀ m ∈ moments host calls s, m.1.Accounted host m.2) ↔ ∀ m ∈ moments host calls s, m.1.Countable host m.2 := by
  induction calls generalizing s with
  | nil => exact ⟨fun _ _ member => by simp [moments] at member, fun _ _ member => by simp [moments] at member⟩
  | cons call tail ih =>
    rw [moments] at memory ⊢
    simp only [List.forall_mem_cons] at memory ⊢
    obtain ⟨same, next⟩ := step_exact host exact bound memory.1
    constructor
    · intro accounted
      have clear := same.mp accounted.1
      obtain ⟨kept, budget⟩ := next clear
      exact ⟨clear, (ih kept (by omega) memory.2).mp accounted.2⟩
    · intro clear
      obtain ⟨kept, budget⟩ := next clear.1
      exact ⟨same.mpr clear.1, (ih kept (by omega) memory.2).mpr clear.2⟩

theorem exact_new (budget : Nat) : Exact (Cache.new budget) := by
  refine ⟨rfl, Nat.zero_le _, ?_⟩
  intro k b found
  cases found

/-- In every run the accounting holds at every call exactly when no write is merged into its successor. -/
theorem dirty_accounting_iff (budget : UInt64) (h : H) (calls : List Call)
    (memory : ∀ m ∈ moments host calls ⟨Cache.new budget.toNat, h⟩, m.1.InMemory m.2) :
    (∀ m ∈ moments host calls ⟨Cache.new budget.toNat, h⟩, m.1.Accounted host m.2) ↔
      ∀ m ∈ moments host calls ⟨Cache.new budget.toNat, h⟩, m.1.Countable host m.2 := by
  apply moments_exact host (exact_new _) _ memory
  have size := budget.toNat_lt
  change max budget.toNat (2 ^ 20) < 2 ^ 64
  omega

end Calls

theorem dirty_accounting_iff_forward :
    (∀ m ∈ moments memHost [.write 0 0 [1, 2], .write 0 2 [3], .flush] ⟨Cache.new (0 : UInt64).toNat, blankDisk⟩,
      m.1.Accounted memHost m.2) ↔
    ∀ m ∈ moments memHost [.write 0 0 [1, 2], .write 0 2 [3], .flush] ⟨Cache.new (0 : UInt64).toNat, blankDisk⟩,
      m.1.Countable memHost m.2 := by
  apply dirty_accounting_iff memHost 0 blankDisk
  intro m member d o data write
  simp only [moments, List.mem_cons, List.not_mem_nil, or_false] at member
  rcases member with rfl | rfl | rfl
  · cases write
    decide
  · cases write
    decide
  · cases write

/-- Blocks that arrive in descending order are merged with a counter that is one block short. -/
theorem descending_blocks_miscounted : ¬ ∀ (budget : UInt64) (h : Nat → Nat → UInt8) (calls : List Call),
    (∀ m ∈ moments memHost calls ⟨Cache.new budget.toNat, h⟩, m.1.InMemory m.2) →
      ∀ m ∈ moments memHost calls ⟨Cache.new budget.toNat, h⟩, m.1.Accounted memHost m.2 := by
  intro always
  have accounted := always 0 blankDisk [.write 0 1 [5], .write 0 0 [4]] (by
    intro m member d o data write
    simp only [moments, List.mem_cons, List.not_mem_nil, or_false] at member
    rcases member with rfl | rfl
    · cases write
      decide
    · cases write
      decide) _ (List.mem_cons_of_mem _ List.mem_cons_self)
  have equal := accounted.exact
  exact absurd equal (by decide)

end TypeBit.DiskCache
