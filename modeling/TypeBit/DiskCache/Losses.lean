import TypeBit.DiskCache.Accounting

/-! What a failed disk write costs. Flushing takes entries out of the dirty map before it writes them: when a write
fails, the bytes of its run and of every run behind it in the batch are neither dirty nor on the disk. -/

namespace TypeBit.DiskCache
open OrdMap

/-! ### Bytes and where they are -/

/-- The run has the byte `x` for a position; positions wrap at the end of the offset space. -/
def Cache.Run.Has (r : Cache.Run) (d p : Nat) (x : UInt8) : Prop :=
  r.disk = d ∧ ∃ i, r.data[i]? = some x ∧ wadd r.off i = p

def entryRun (k : Key) (b : Bytes) : Cache.Run := ⟨k.disk, k.off, b⟩

def InMap (m : OrdMap Key Bytes) (d p : Nat) (x : UInt8) : Prop :=
  ∃ k b, m.get? k = some b ∧ (entryRun k b).Has d p x

def InRuns (runs : List Cache.Run) (d p : Nat) (x : UInt8) : Prop := ∃ r ∈ runs, r.Has d p x

/-- A host with the writes it took. -/
structure Noted (H : Type) where
  inner : H
  written : List Cache.Run

def noting {H : Type} (host : DiskHost H) : DiskHost (Noted H) where
  diskRead n d o len := ((host.diskRead n.inner d o len).1, { n with inner := (host.diskRead n.inner d o len).2 })
  diskWrite n d o b :=
    match host.diskWrite n.inner d o b with
    | (.ok u, h) => (.ok u, ⟨h, n.written ++ [⟨d, o, b⟩]⟩)
    | (.error e, h) => (.error e, ⟨h, n.written⟩)

/-- The flushing a call does: a write flushes to make room, or everything when it is larger than the budget. -/
def Call.evicts {H : Type} (host : DiskHost H) : Call → Io H Unit
  | .write _ _ data => fun s =>
      if data = [] then (.ok (), s)
      else if data.length > s.cache.budget then DiskCache.flush host s
      else makeRoom host data.length s.cache.dirty.size s
  | .read _ _ _ => fun s => (.ok (), s)
  | .flush => DiskCache.flush host
  | .flushDisk d => DiskCache.flushDisk host d
  | .flushBounded m => do let _ ← DiskCache.flushBounded host m; pure ()

section Kept
variable {H : Type}

/-- Every byte that was dirty is still dirty, or a write that returned Ok had it. -/
def Kept (m : OrdMap Key Bytes) (t : State (Noted H)) : Prop :=
  ∀ d p x, InMap m d p x → InMap t.cache.dirty d p x ∨ InRuns t.host.written d p x

variable (host : DiskHost H)

/-- When a write of the batch fails, the bytes of its run and of the later ones are elsewhere as well: in an entry
that stays, or in a run that was written before. -/
def BatchSpares (rest : OrdMap Key Bytes) : List Cache.Run → Noted H → Prop
  | [], _ => True
  | r :: tail, n =>
      match (noting host).diskWrite n r.disk r.off r.data with
      | (.ok _, n) => BatchSpares rest tail n
      | (.error _, n) => ∀ d p x, InRuns (r :: tail) d p x → InMap rest d p x ∨ InRuns n.written d p x

def FlushSpares (minFreed : Nat) (s : State (Noted H)) : Prop :=
  let taken := Cache.takeOldest minFreed s.cache.dirty.keys 0 [] s.cache
  BatchSpares host taken.2.2.dirty taken.2.1 s.host

def DiskSpares : List Key → State (Noted H) → Prop
  | [], _ => True
  | k :: tail, s =>
      match s.cache.dirty.get? k with
      | none => True
      | some data =>
          match (noting host).diskWrite s.host k.disk k.off data with
          | (.ok _, n) => DiskSpares tail ⟨(s.cache.removeDirty k data).promoteClean k.disk k.off data, n⟩
          | (.error _, n) => ∀ d p x, (entryRun k data).Has d p x →
              InMap (s.cache.dirty.erase k) d p x ∨ InRuns n.written d p x

def RoomSpares (len : Nat) : Nat → State (Noted H) → Prop
  | 0, _ => True
  | n + 1, s =>
      wadd s.cache.used len > s.cache.budget ∧ s.cache.dirty.isEmpty = false →
        FlushSpares host len s ∧
          ∀ freed t, flushOldest (noting host) len s = (.ok freed, t) → freed ≠ 0 → RoomSpares len n t

/-- A failed write of the call's flushing loses nothing, because of entries that overlap. -/
def Call.Spares (call : Call) (s : State (Noted H)) : Prop :=
  match call with
  | .write _ _ data => data = [] ∨
      if data.length > s.cache.budget then FlushSpares host (2 ^ 64 - 1) s
      else RoomSpares host data.length s.cache.dirty.size s
  | .read _ _ _ => True
  | .flush => FlushSpares host (2 ^ 64 - 1) s
  | .flushDisk d => DiskSpares host (s.cache.dirty.keys.filter (fun k => k.disk = d)) s
  | .flushBounded m => FlushSpares host m s

end Kept

/-! ### Batches -/

section Batch

theorem wadd_wadd (a b i : Nat) : wadd (wadd a b) i = wadd a (b + i) := by
  unfold wadd
  omega

theorem has_append (r : Cache.Run) (k : Key) (data : Bytes) (same : r.disk = k.disk)
    (adjacent : wadd r.off r.data.length = k.off) (d p : Nat) (x : UInt8) :
    ({ r with data := r.data ++ data } : Cache.Run).Has d p x ↔ r.Has d p x ∨ (entryRun k data).Has d p x := by
  constructor
  · rintro ⟨rfl, i, found, rfl⟩
    rw [List.getElem?_append] at found
    split_ifs at found with early
    · exact Or.inl ⟨rfl, i, found, rfl⟩
    · refine Or.inr ⟨same.symm, i - r.data.length, found, ?_⟩
      change wadd k.off (i - r.data.length) = wadd r.off i
      rw [← adjacent, wadd_wadd]
      congr 1
      omega
  · rintro (⟨rfl, i, found, rfl⟩ | ⟨disk, i, found, rfl⟩)
    · refine ⟨rfl, i, ?_, rfl⟩
      rw [List.getElem?_append_left (List.getElem?_eq_some_iff.mp found).1]
      exact found
    · refine ⟨same.trans disk, r.data.length + i, ?_, ?_⟩
      · rw [List.getElem?_append_right (Nat.le_add_right _ _), Nat.add_sub_cancel_left]
        exact found
      · change wadd r.off (r.data.length + i) = wadd k.off i
        rw [← adjacent, wadd_wadd]

theorem inRuns_append {early late : List Cache.Run} {d p : Nat} {x : UInt8} :
    InRuns (early ++ late) d p x ↔ InRuns early d p x ∨ InRuns late d p x := by
  simp only [InRuns, List.mem_append, or_and_right, exists_or]

theorem inRuns_cons {r : Cache.Run} {tail : List Cache.Run} {d p : Nat} {x : UInt8} :
    InRuns (r :: tail) d p x ↔ r.Has d p x ∨ InRuns tail d p x := by
  simp only [InRuns, List.mem_cons, or_and_right, exists_or, exists_eq_left]

theorem inRuns_nil {d p : Nat} {x : UInt8} : ¬ InRuns [] d p x := by
  rintro ⟨r, member, -⟩
  cases member

theorem inRuns_pushRun (batch : List Cache.Run) (k : Key) (data : Bytes) (d p : Nat) (x : UInt8) :
    InRuns (Cache.pushRun batch k data) d p x ↔ InRuns batch d p x ∨ (entryRun k data).Has d p x := by
  have plain : InRuns (batch ++ [entryRun k data]) d p x ↔ InRuns batch d p x ∨ (entryRun k data).Has d p x := by
    rw [inRuns_append, inRuns_cons]
    simp only [inRuns_nil, or_false]
  unfold Cache.pushRun
  cases found : batch.getLast? with
  | none =>
    rw [List.getLast?_eq_none_iff.mp found] at plain ⊢
    exact plain
  | some last =>
    dsimp only
    split_ifs with adjacent
    · have split : batch = batch.dropLast ++ [last] := (List.dropLast_append_getLast? last found).symm
      conv_rhs => rw [split]
      rw [inRuns_append, inRuns_append, inRuns_cons, inRuns_cons, has_append last k data adjacent.1 adjacent.2]
      simp only [inRuns_nil, or_false, or_assoc]
    · exact plain

theorem inMap_erase {m : OrdMap Key Bytes} {k : Key} {data : Bytes} (found : m.get? k = some data) (d p : Nat)
    (x : UInt8) : InMap m d p x ↔ InMap (m.erase k) d p x ∨ (entryRun k data).Has d p x := by
  constructor
  · rintro ⟨j, b, entry, has⟩
    by_cases same : k = j
    · subst same
      rw [found] at entry
      cases entry
      exact Or.inr has
    · exact Or.inl ⟨j, b, by rwa [get?_erase_ne _ same], has⟩
  · rintro (⟨j, b, entry, has⟩ | has)
    · exact ⟨j, b, get?_of_erase entry, has⟩
    · exact ⟨k, data, found, has⟩

theorem takeOldest_bytes (minFreed : Nat) (keys : List Key) (freed : Nat) (batch : List Cache.Run) (c : Cache)
    (d p : Nat) (x : UInt8) :
    let taken := Cache.takeOldest minFreed keys freed batch c
    InMap taken.2.2.dirty d p x ∨ InRuns taken.2.1 d p x ↔ InMap c.dirty d p x ∨ InRuns batch d p x := by
  induction keys generalizing freed batch c with
  | nil => exact Iff.rfl
  | cons k tail ih =>
    unfold Cache.takeOldest
    split_ifs
    · exact Iff.rfl
    · cases found : c.dirty.get? k with
      | none => exact ih freed batch c
      | some data =>
        refine (ih _ _ _).trans ?_
        rw [inRuns_pushRun, inMap_erase found, Cache.removeDirty_dirty]
        tauto

theorem takeOldest_sub (minFreed : Nat) (keys : List Key) (freed : Nat) (batch : List Cache.Run) (c : Cache) (j : Key)
    (b : Bytes) (found : (Cache.takeOldest minFreed keys freed batch c).2.2.dirty.get? j = some b) :
    c.dirty.get? j = some b := by
  induction keys generalizing freed batch c with
  | nil => exact found
  | cons k tail ih =>
    unfold Cache.takeOldest at found
    split_ifs at found
    · exact found
    · cases entry : c.dirty.get? k with
      | none =>
        rw [entry] at found
        exact ih freed batch c found
      | some data =>
        rw [entry] at found
        exact get?_of_erase (ih _ _ _ found)

end Batch

/-! ### Flushing with a record -/

section Flush
variable {H : Type} (host : DiskHost H)

theorem noting_ok {n n' : Noted H} {d o : Nat} {b : Bytes} {u : Unit}
    (took : (noting host).diskWrite n d o b = (.ok u, n')) : n'.written = n.written ++ [⟨d, o, b⟩] := by
  unfold noting at took
  dsimp only at took
  split at took
  · cases took
    rfl
  · cases took

theorem noting_error {n n' : Noted H} {d o : Nat} {b : Bytes} {e : Error}
    (failed : (noting host).diskWrite n d o b = (.error e, n')) : n'.written = n.written := by
  unfold noting at failed
  dsimp only at failed
  split at failed
  · cases failed
  · cases failed
    rfl

/-- Flushing only takes entries out, and only adds to the record. -/
structure Flushed (s t : State (Noted H)) : Prop where
  sub : ∀ k b, t.cache.dirty.get? k = some b → s.cache.dirty.get? k = some b
  grown : ∀ d p x, InRuns s.host.written d p x → InRuns t.host.written d p x

variable {host}

theorem Flushed.refl (s : State (Noted H)) : Flushed s s := ⟨fun _ _ found => found, fun _ _ _ noted => noted⟩

theorem Flushed.trans {s t u : State (Noted H)} (first : Flushed s t) (second : Flushed t u) : Flushed s u :=
  ⟨fun k b found => first.sub k b (second.sub k b found), fun d p x noted => second.grown d p x (first.grown d p x noted)⟩

theorem InMap.mono {m m' : OrdMap Key Bytes} (sub : ∀ k b, m.get? k = some b → m'.get? k = some b) {d p : Nat}
    {x : UInt8} (held : InMap m d p x) : InMap m' d p x := by
  obtain ⟨k, b, found, has⟩ := held
  exact ⟨k, b, sub k b found, has⟩

theorem kept_iff_of_kept {s u t : State (Noted H)} (first : Flushed s u) (kept : Kept s.cache.dirty u)
    (second : Flushed u t) : Kept s.cache.dirty t ↔ Kept u.cache.dirty t := by
  constructor
  · intro all d p x dirty
    exact all d p x (dirty.mono first.sub)
  · intro rest d p x dirty
    rcases kept d p x dirty with still | noted
    · exact rest d p x still
    · exact Or.inr (second.grown d p x noted)

variable (host)

theorem writeBatch_noted (rest : OrdMap Key Bytes) (batch : List Cache.Run) (s : State (Noted H)) :
    let ran := writeBatch (noting host) batch s
    (∀ d p x, InRuns s.host.written d p x → InRuns ran.2.host.written d p x) ∧
      ((∀ u, ran.1 ≠ .ok u) ∨ ∀ d p x, InRuns batch d p x → InRuns ran.2.host.written d p x) ∧
      ((∀ d p x, InRuns batch d p x → InMap rest d p x ∨ InRuns ran.2.host.written d p x) ↔
        BatchSpares host rest batch s.host) := by
  induction batch generalizing s with
  | nil =>
    refine ⟨fun _ _ _ noted => noted, Or.inr fun d p x inside => absurd inside inRuns_nil, ?_⟩
    exact ⟨fun _ => trivial, fun _ d p x inside => absurd inside inRuns_nil⟩
  | cons r tail ih =>
    unfold writeBatch BatchSpares
    dsimp only
    rcases wrote : (noting host).diskWrite s.host r.disk r.off r.data with ⟨e | u, n⟩
    · dsimp only
      rw [noting_error host wrote]
      refine ⟨fun _ _ _ noted => noted, Or.inl ?_, Iff.rfl⟩
      intro u same
      cases same
    · obtain ⟨grown, done, spares⟩ := ih ⟨s.cache.promoteClean r.disk r.off r.data, n⟩
      dsimp only at grown done spares ⊢
      have record := noting_ok host wrote
      have own : ∀ d p x, r.Has d p x → InRuns (writeBatch (noting host) tail
          ⟨s.cache.promoteClean r.disk r.off r.data, n⟩).2.host.written d p x := by
        intro d p x has
        apply grown
        rw [record, inRuns_append, inRuns_cons]
        exact Or.inr (Or.inl has)
      refine ⟨?_, ?_, ?_⟩
      · intro d p x noted
        apply grown
        rw [record, inRuns_append]
        exact Or.inl noted
      · refine done.imp_right fun all d p x inside => ?_
        rcases inRuns_cons.mp inside with has | later
        · exact own d p x has
        · exact all d p x later
      · rw [← spares]
        constructor
        · intro all d p x later
          exact all d p x (inRuns_cons.mpr (Or.inr later))
        · intro later d p x inside
          rcases inRuns_cons.mp inside with has | more
          · exact Or.inr (own d p x has)
          · exact later d p x more

theorem flushOldest_noted (minFreed : Nat) (s : State (Noted H)) :
    let ran := flushOldest (noting host) minFreed s
    Flushed s ran.2 ∧ (Kept s.cache.dirty ran.2 ↔ FlushSpares host minFreed s) ∧
      ∀ freed, ran.1 = .ok freed → Kept s.cache.dirty ran.2 := by
  have bytes := takeOldest_bytes minFreed s.cache.dirty.keys 0 [] s.cache
  have sub : ∀ k b, (Cache.takeOldest minFreed s.cache.dirty.keys 0 [] s.cache).2.2.dirty.get? k = some b →
      s.cache.dirty.get? k = some b := takeOldest_sub minFreed s.cache.dirty.keys 0 [] s.cache
  unfold FlushSpares flushOldest
  dsimp only
  generalize Cache.takeOldest minFreed s.cache.dirty.keys 0 [] s.cache = taken at bytes sub
  have dirty : (writeBatch (noting host) taken.2.1 ⟨taken.2.2, s.host⟩).2.cache.dirty = taken.2.2.dirty :=
    congrArg Book.dirty (book_writeBatch (noting host) taken.2.1 ⟨taken.2.2, s.host⟩)
  obtain ⟨grown, done, spares⟩ := writeBatch_noted host taken.2.2.dirty taken.2.1 ⟨taken.2.2, s.host⟩
  dsimp only at grown done spares
  -- what is kept of the dirty bytes is what is kept of the batch
  have whole : ∀ t : State (Noted H), t.cache.dirty = taken.2.2.dirty →
      (Kept s.cache.dirty t ↔ ∀ d p x, InRuns taken.2.1 d p x → InMap taken.2.2.dirty d p x ∨ InRuns t.host.written d p x) := by
    intro t same
    constructor
    · intro kept d p x inside
      have before := (bytes d p x).mp (Or.inr inside)
      rw [← same]
      exact kept d p x (before.resolve_right inRuns_nil)
    · intro batch d p x before
      rw [same]
      rcases (bytes d p x).mpr (Or.inl before) with stays | inside
      · exact Or.inl stays
      · exact batch d p x inside
  rcases result : writeBatch (noting host) taken.2.1 ⟨taken.2.2, s.host⟩ with ⟨e | u, t⟩
  · rw [result] at dirty grown done spares
    dsimp only at dirty grown spares ⊢
    refine ⟨⟨?_, grown⟩, (whole t dirty).trans spares, nofun⟩
    rw [dirty]
    exact sub
  · rw [result] at dirty grown done spares
    dsimp only at dirty grown done spares ⊢
    refine ⟨⟨?_, grown⟩, (whole t dirty).trans spares, fun _ _ => (whole t dirty).mpr ?_⟩
    · rw [dirty]
      exact sub
    · intro d p x inside
      exact Or.inr (done.resolve_left (fun none => none u rfl) d p x inside)

theorem flush_noted (s : State (Noted H)) :
    Flushed s (flush (noting host) s).2 ∧
      (Kept s.cache.dirty (flush (noting host) s).2 ↔ FlushSpares host (2 ^ 64 - 1) s) := by
  obtain ⟨flushed, spares, -⟩ := flushOldest_noted host (2 ^ 64 - 1) s
  rw [state_flush]
  exact ⟨flushed, spares⟩

theorem makeRoom_noted (len n : Nat) (s : State (Noted H)) :
    Flushed s (makeRoom (noting host) len n s).2 ∧
      (Kept s.cache.dirty (makeRoom (noting host) len n s).2 ↔ RoomSpares host len n s) := by
  have still : ∀ {u : State (Noted H)}, Kept u.cache.dirty u := fun d p x dirty => Or.inl dirty
  induction n generalizing s with
  | zero => exact ⟨Flushed.refl s, fun _ => trivial, fun _ => still⟩
  | succ n ih =>
    obtain ⟨flushed, spares, done⟩ := flushOldest_noted host len s
    unfold makeRoom RoomSpares
    by_cases tight : wadd s.cache.used len > s.cache.budget ∧ s.cache.dirty.isEmpty = false
    · rw [if_pos tight]
      rcases result : flushOldest (noting host) len s with ⟨e | freed, u⟩
      · rw [result] at flushed spares
        refine ⟨flushed, ?_⟩
        dsimp only at spares ⊢
        rw [spares]
        refine ⟨fun kept _ => ⟨kept, ?_⟩, fun room => (room tight).1⟩
        intro freed t same
        cases same
      · rw [result] at flushed spares done
        dsimp only at flushed spares ⊢
        have kept : Kept s.cache.dirty u := done freed rfl
        split_ifs with none
        · refine ⟨flushed, ?_⟩
          rw [spares]
          refine ⟨fun kept _ => ⟨kept, ?_⟩, fun room => (room tight).1⟩
          intro freed' t same
          cases same
          exact fun some => absurd none some
        · obtain ⟨later, rest⟩ := ih u
          refine ⟨flushed.trans later, ?_⟩
          rw [kept_iff_of_kept flushed kept later, rest]
          constructor
          · intro room _
            refine ⟨spares.mp kept, ?_⟩
            intro freed' t same _
            cases same
            exact room
          · intro room
            exact (room tight).2 freed u rfl none
    · rw [if_neg tight]
      exact ⟨Flushed.refl s, fun _ held => absurd held tight, fun _ => still⟩

theorem flushDiskLoop_noted (keys : List Key) (s : State (Noted H)) :
    Flushed s (flushDiskLoop (noting host) keys s).2 ∧
      (Kept s.cache.dirty (flushDiskLoop (noting host) keys s).2 ↔ DiskSpares host keys s) := by
  have still : ∀ {u : State (Noted H)}, Kept u.cache.dirty u := fun d p x dirty => Or.inl dirty
  induction keys generalizing s with
  | nil => exact ⟨Flushed.refl s, fun _ => trivial, fun _ => still⟩
  | cons k tail ih =>
    unfold flushDiskLoop DiskSpares
    cases found : s.cache.dirty.get? k with
    | none => exact ⟨Flushed.refl s, fun _ => trivial, fun _ => still⟩
    | some data =>
      have sub : ∀ j b, (s.cache.dirty.erase k).get? j = some b → s.cache.dirty.get? j = some b :=
        fun j b entry => get?_of_erase entry
      dsimp only
      rcases wrote : (noting host).diskWrite s.host k.disk k.off data with ⟨e | u, n⟩
      · have record := noting_error host wrote
        refine ⟨⟨sub, fun d p x noted => by rw [record]; exact noted⟩, ?_⟩
        constructor
        · intro kept d p x has
          exact kept d p x ((inMap_erase found d p x).mpr (Or.inr has))
        · intro spares d p x dirty
          rcases (inMap_erase found d p x).mp dirty with stays | has
          · exact Or.inl stays
          · exact spares d p x has
      · have record := noting_ok host wrote
        have promoted : ((s.cache.removeDirty k data).promoteClean k.disk k.off data).dirty = s.cache.dirty.erase k :=
          congrArg Book.dirty (Cache.book_promoteClean (s.cache.removeDirty k data) k.disk k.off data)
        have first : Flushed s ⟨(s.cache.removeDirty k data).promoteClean k.disk k.off data, n⟩ := by
          refine ⟨?_, ?_⟩
          · rw [promoted]
            exact sub
          · intro d p x noted
            rw [record, inRuns_append]
            exact Or.inl noted
        have kept : Kept s.cache.dirty ⟨(s.cache.removeDirty k data).promoteClean k.disk k.off data, n⟩ := by
          intro d p x dirty
          rcases (inMap_erase found d p x).mp dirty with stays | has
          · rw [promoted]
            exact Or.inl stays
          · refine Or.inr ?_
            rw [record, inRuns_append, inRuns_cons]
            exact Or.inr (Or.inl has)
        obtain ⟨later, rest⟩ := ih ⟨(s.cache.removeDirty k data).promoteClean k.disk k.off data, n⟩
        refine ⟨first.trans later, ?_⟩
        rw [kept_iff_of_kept first kept later]
        exact rest

theorem evicts_noted (call : Call) (s : State (Noted H)) :
    Kept s.cache.dirty (call.evicts (noting host) s).2 ↔ call.Spares host s := by
  have still : Kept s.cache.dirty s := fun d p x dirty => Or.inl dirty
  cases call with
  | write d o data =>
    change Kept s.cache.dirty (if data = [] then (.ok (), s) else if data.length > s.cache.budget
      then flush (noting host) s else makeRoom (noting host) data.length s.cache.dirty.size s).2 ↔ (data = [] ∨ _)
    by_cases empty : data = []
    · rw [if_pos empty]
      exact ⟨fun _ => Or.inl empty, fun _ => still⟩
    · rw [if_neg empty, or_iff_right empty]
      split_ifs
      · exact (flush_noted host s).2
      · exact (makeRoom_noted host _ _ s).2
  | read d o n => exact ⟨fun _ => trivial, fun _ => still⟩
  | flush => exact (flush_noted host s).2
  | flushDisk d => exact (flushDiskLoop_noted host _ s).2
  | flushBounded m =>
    have state : ((Call.flushBounded m).evicts (noting host) s).2 = (flushOldest (noting host) m s).2 :=
      state_discard _ _ s
    rw [state]
    exact (flushOldest_noted host m s).2.1

end Flush

/-! ### Entries that do not overlap -/

/-- The two have no position in common. -/
def Clear (A B : Nat → Nat → UInt8 → Prop) : Prop := ∀ d p x y, A d p x → ¬ B d p y

/-- No entry is empty and no two of them have a position in common. -/
structure Separate (m : OrdMap Key Bytes) : Prop where
  filled : ∀ k b, m.get? k = some b → b ≠ []
  apart : ∀ k b k' b', m.get? k = some b → m.get? k' = some b' → k ≠ k' → Clear (entryRun k b).Has (entryRun k' b').Has

/-- A batch whose runs are apart from each other and from the entries that are left. -/
structure Neat (batch : List Cache.Run) (m : OrdMap Key Bytes) : Prop where
  entries : Separate m
  filled : ∀ r ∈ batch, r.data ≠ []
  runs : batch.Pairwise (fun r q => Clear r.Has q.Has)
  rest : Clear (InRuns batch) (InMap m)

section Separate
variable {m : OrdMap Key Bytes} {k : Key} {data : Bytes}

theorem Separate.sub {m' : OrdMap Key Bytes} (separate : Separate m) (sub : ∀ k b, m'.get? k = some b → m.get? k = some b) :
    Separate m' :=
  ⟨fun k b found => separate.filled k b (sub k b found),
    fun k b k' b' found found' => separate.apart k b k' b' (sub k b found) (sub k' b' found')⟩

theorem Separate.erase (separate : Separate m) (found : m.get? k = some data) :
    Clear (entryRun k data).Has (InMap (m.erase k)) := by
  rintro d p x y has ⟨j, b, entry, other⟩
  rw [get?_erase] at entry
  split_ifs at entry with same
  exact separate.apart k data j b found entry same d p x y has other

theorem Neat.push {batch : List Cache.Run} (neat : Neat batch m) (found : m.get? k = some data) :
    Neat (Cache.pushRun batch k data) (m.erase k) := by
  have sub : ∀ j b, (m.erase k).get? j = some b → m.get? j = some b := fun j b entry => get?_of_erase entry
  have filled := neat.entries.filled k data found
  have fresh : ∀ r ∈ batch, Clear r.Has (entryRun k data).Has := fun r member d p x y has own =>
    neat.rest d p x y ⟨r, member, has⟩ ⟨k, data, found, own⟩
  have plain : (∀ r ∈ batch ++ [entryRun k data], r.data ≠ []) ∧
      (batch ++ [entryRun k data]).Pairwise (fun r q => Clear r.Has q.Has) := by
    constructor
    · intro r member
      rcases List.mem_append.mp member with earlier | last
      · exact neat.filled r earlier
      · rw [List.mem_singleton.mp last]
        exact filled
    · rw [List.pairwise_append]
      refine ⟨neat.runs, List.pairwise_singleton _ _, ?_⟩
      intro r member q last
      rw [List.mem_singleton.mp last]
      exact fresh r member
  have both : (∀ r ∈ Cache.pushRun batch k data, r.data ≠ []) ∧
      (Cache.pushRun batch k data).Pairwise (fun r q => Clear r.Has q.Has) := by
    unfold Cache.pushRun
    cases ended : batch.getLast? with
    | none =>
      rw [List.getLast?_eq_none_iff.mp ended] at plain
      exact plain
    | some last =>
      dsimp only
      split_ifs with adjacent
      · have split : batch = batch.dropLast ++ [last] := (List.dropLast_append_getLast? last ended).symm
        have runs := neat.runs
        rw [split, List.pairwise_append] at runs
        constructor
        · intro r member
          rcases List.mem_append.mp member with earlier | isLast
          · exact neat.filled r (List.dropLast_subset _ earlier)
          · rw [List.mem_singleton.mp isLast]
            simp [filled]
        · rw [List.pairwise_append]
          refine ⟨runs.1, List.pairwise_singleton _ _, ?_⟩
          intro r member q isLast d p x y has joined
          rw [List.mem_singleton.mp isLast] at joined
          rcases (has_append last k data adjacent.1 adjacent.2 d p y).mp joined with old | own
          · exact runs.2.2 r member last (List.mem_singleton.mpr rfl) d p x y has old
          · exact fresh r (List.dropLast_subset _ member) d p x y has own
      · exact plain
  refine ⟨neat.entries.sub sub, both.1, both.2, ?_⟩
  intro d p x y inside left
  rcases (inRuns_pushRun batch k data d p x).mp inside with earlier | own
  · exact neat.rest d p x y earlier (left.mono sub)
  · exact neat.entries.erase found d p x y own left

theorem Neat.takeOldest (minFreed : Nat) (keys : List Key) (freed : Nat) {batch : List Cache.Run} {c : Cache}
    (neat : Neat batch c.dirty) :
    let taken := Cache.takeOldest minFreed keys freed batch c
    Neat taken.2.1 taken.2.2.dirty := by
  induction keys generalizing freed batch c with
  | nil => exact neat
  | cons k tail ih =>
    unfold Cache.takeOldest
    split_ifs
    · exact neat
    · cases found : c.dirty.get? k with
      | none => exact ih freed neat
      | some data => exact ih _ (c := c.removeDirty k data) (neat.push found)

end Separate

section Loses
variable {H : Type} {host : DiskHost H}

def Unwritten (s : State (Noted H)) : Prop := Clear (InRuns s.host.written) (InMap s.cache.dirty)

theorem has_first {r : Cache.Run} (filled : r.data ≠ []) : ∃ p x, r.Has r.disk p x := by
  obtain ⟨x, tail, same⟩ := List.exists_cons_of_ne_nil filled
  exact ⟨wadd r.off 0, x, rfl, 0, by rw [same]; rfl, rfl⟩

theorem not_batchSpares {rest : OrdMap Key Bytes} {batch : List Cache.Run} {s t : State (Noted H)} {e : Error}
    (neat : Neat batch rest) (fresh : Clear (InRuns s.host.written) (InRuns batch))
    (failed : writeBatch (noting host) batch s = (.error e, t)) : ¬ BatchSpares host rest batch s.host := by
  induction batch generalizing s with
  | nil => cases failed
  | cons r tail ih =>
    obtain ⟨apart, runs⟩ := List.pairwise_cons.mp neat.runs
    unfold BatchSpares
    unfold writeBatch at failed
    rcases wrote : (noting host).diskWrite s.host r.disk r.off r.data with ⟨e' | u, n⟩
    · intro spares
      obtain ⟨p, x, has⟩ := has_first (neat.filled r List.mem_cons_self)
      have own : InRuns (r :: tail) r.disk p x := inRuns_cons.mpr (Or.inl has)
      rcases spares r.disk p x own with stays | noted
      · exact neat.rest r.disk p x x own stays
      · rw [noting_error host wrote] at noted
        exact fresh r.disk p x x noted own
    · rw [wrote] at failed
      have later : Neat tail rest := ⟨neat.entries, fun q member => neat.filled q (List.mem_cons_of_mem _ member), runs,
        fun d p x y inside => neat.rest d p x y (inRuns_cons.mpr (Or.inr inside))⟩
      refine ih (s := ⟨s.cache.promoteClean r.disk r.off r.data, n⟩) later ?_ failed
      intro d p x y noted inside
      rw [noting_ok host wrote, inRuns_append, inRuns_cons] at noted
      rcases noted with before | own | none
      · exact fresh d p x y before (inRuns_cons.mpr (Or.inr inside))
      · obtain ⟨q, member, has⟩ := inside
        exact apart q member d p x y own has
      · exact absurd none inRuns_nil

theorem writeBatch_record (batch : List Cache.Run) (s : State (Noted H)) {d p : Nat} {x : UInt8}
    (noted : InRuns (writeBatch (noting host) batch s).2.host.written d p x) :
    InRuns s.host.written d p x ∨ InRuns batch d p x := by
  induction batch generalizing s with
  | nil => exact Or.inl noted
  | cons r tail ih =>
    unfold writeBatch at noted
    rcases wrote : (noting host).diskWrite s.host r.disk r.off r.data with ⟨e | u, n⟩
    · rw [wrote] at noted
      dsimp only at noted
      rw [noting_error host wrote] at noted
      exact Or.inl noted
    · rw [wrote] at noted
      rcases ih _ noted with before | later
      · rw [noting_ok host wrote, inRuns_append, inRuns_cons] at before
        rcases before with before | own | none
        · exact Or.inl before
        · exact Or.inr (inRuns_cons.mpr (Or.inl own))
        · exact absurd none inRuns_nil
      · exact Or.inr (inRuns_cons.mpr (Or.inr later))

theorem flushOldest_loses {minFreed : Nat} {s t : State (Noted H)} (separate : Separate s.cache.dirty)
    (unwritten : Unwritten s) {result : Result Nat} (ran : flushOldest (noting host) minFreed s = (result, t)) :
    Separate t.cache.dirty ∧ Unwritten t ∧ ((∃ e, result = .error e) → ¬ FlushSpares host minFreed s) := by
  have start : Neat [] s.cache.dirty := ⟨separate, by simp, List.Pairwise.nil, fun d p x y none => absurd none inRuns_nil⟩
  have neat := start.takeOldest minFreed s.cache.dirty.keys 0
  have bytes := takeOldest_bytes minFreed s.cache.dirty.keys 0 [] s.cache
  have sub := takeOldest_sub minFreed s.cache.dirty.keys 0 [] s.cache
  unfold FlushSpares
  unfold flushOldest at ran
  dsimp only at ran neat ⊢
  generalize Cache.takeOldest minFreed s.cache.dirty.keys 0 [] s.cache = taken at bytes sub neat ran
  have fresh : Clear (InRuns s.host.written) (InRuns taken.2.1) := by
    intro d p x y noted inside
    exact unwritten d p x y noted (((bytes d p y).mp (Or.inr inside)).resolve_right inRuns_nil)
  have dirty : (writeBatch (noting host) taken.2.1 ⟨taken.2.2, s.host⟩).2.cache.dirty = taken.2.2.dirty :=
    congrArg Book.dirty (book_writeBatch (noting host) taken.2.1 ⟨taken.2.2, s.host⟩)
  have after : Separate (writeBatch (noting host) taken.2.1 ⟨taken.2.2, s.host⟩).2.cache.dirty ∧
      Unwritten (writeBatch (noting host) taken.2.1 ⟨taken.2.2, s.host⟩).2 := by
    constructor
    · rw [dirty]
      exact neat.entries
    · intro d p x y noted left
      rw [dirty] at left
      rcases writeBatch_record taken.2.1 ⟨taken.2.2, s.host⟩ noted with before | inside
      · exact unwritten d p x y before (left.mono sub)
      · exact neat.rest d p x y inside left
  rcases wrote : writeBatch (noting host) taken.2.1 ⟨taken.2.2, s.host⟩ with ⟨e | u, v⟩
  · rw [wrote] at ran after
    cases ran
    exact ⟨after.1, after.2, fun _ => not_batchSpares (s := ⟨taken.2.2, s.host⟩) neat fresh wrote⟩
  · rw [wrote] at ran after
    cases ran
    refine ⟨after.1, after.2, ?_⟩
    rintro ⟨e, wrong⟩
    cases wrong

theorem makeRoom_loses {len n : Nat} {s t : State (Noted H)} {e : Error} (separate : Separate s.cache.dirty)
    (unwritten : Unwritten s) (failed : makeRoom (noting host) len n s = (.error e, t)) : ¬ RoomSpares host len n s := by
  induction n generalizing s with
  | zero => cases failed
  | succ n ih =>
    unfold makeRoom at failed
    split_ifs at failed with tight
    · intro spares
      obtain ⟨first, rounds⟩ := spares tight
      rcases flushed : flushOldest (noting host) len s with ⟨e' | freed, u⟩
      · exact (flushOldest_loses separate unwritten flushed).2.2 ⟨e', rfl⟩ first
      · obtain ⟨apart, clear, -⟩ := flushOldest_loses separate unwritten flushed
        rw [flushed] at failed
        dsimp only at failed
        split_ifs at failed with none
        · cases failed
        · exact ih apart clear failed (rounds freed u flushed none)
    · cases failed

theorem flushDiskLoop_loses {keys : List Key} {s t : State (Noted H)} {e : Error} (separate : Separate s.cache.dirty)
    (unwritten : Unwritten s) (present : ∀ k ∈ keys, s.cache.dirty.contains k = true) (distinct : keys.Nodup)
    (failed : flushDiskLoop (noting host) keys s = (.error e, t)) : ¬ DiskSpares host keys s := by
  induction keys generalizing s with
  | nil => cases failed
  | cons k tail ih =>
    obtain ⟨notLater, distinctTail⟩ := List.nodup_cons.mp distinct
    obtain ⟨data, found⟩ := (contains_iff _ _).mp (present k List.mem_cons_self)
    have own := separate.erase found
    unfold DiskSpares
    unfold flushDiskLoop at failed
    rw [found] at failed ⊢
    dsimp only at failed ⊢
    rcases wrote : (noting host).diskWrite s.host k.disk k.off data with ⟨e' | u, n⟩
    · intro spares
      obtain ⟨p, x, has⟩ := has_first (r := entryRun k data) (separate.filled k data found)
      rcases spares k.disk p x has with stays | noted
      · exact own _ p x x has stays
      · rw [noting_error host wrote] at noted
        exact unwritten _ p x x noted ((inMap_erase found _ p x).mpr (Or.inr has))
    · rw [wrote] at failed
      have promoted : ((s.cache.removeDirty k data).promoteClean k.disk k.off data).dirty = s.cache.dirty.erase k :=
        congrArg Book.dirty (Cache.book_promoteClean (s.cache.removeDirty k data) k.disk k.off data)
      apply ih (s := ⟨(s.cache.removeDirty k data).promoteClean k.disk k.off data, n⟩) _ _ _ distinctTail failed
      · rw [promoted]
        exact separate.sub (fun j b entry => get?_of_erase entry)
      · intro d p x y noted left
        rw [promoted] at left
        rw [noting_ok host wrote, inRuns_append, inRuns_cons] at noted
        rcases noted with before | has | none
        · exact unwritten d p x y before ((inMap_erase found d p y).mpr (Or.inl left))
        · exact own d p x y has left
        · exact absurd none inRuns_nil
      · intro j member
        have other : k ≠ j := by
          rintro rfl
          exact notLater member
        rw [promoted, contains, get?_erase_ne _ other]
        exact present j (List.mem_cons_of_mem _ member)

end Loses

/-! ### Every call -/

section Calls
variable {H : Type}

theorem run_of_evicts {host : DiskHost H} {call : Call} {s t : State H} {e : Error}
    (failed : call.evicts host s = (.error e, t)) : call.run host s = (.error e, t) := by
  have discard : ∀ {α : Type} {x : Io H α}, x s = (.error e, t) → ((x >>= fun _ => pure []) : Io H Bytes) s = (.error e, t) := by
    intro α x stopped
    simp [bind, stopped]
  cases call with
  | write d o data =>
    apply discard
    unfold Call.evicts at failed
    unfold write
    dsimp only at failed
    split_ifs at failed ⊢
    · cases failed
    · rw [failed]
    · rw [failed]
  | read d o n => cases failed
  | flush => exact discard failed
  | flushDisk d => exact discard failed
  | flushBounded m =>
    apply discard
    unfold Call.evicts at failed
    rcases ran : flushBounded host m s with ⟨e' | freed, u⟩
    · simpa [bind, ran] using failed
    · simp [bind, pure, ran] at failed

/-- When a write of the call's flushing fails, what was dirty is kept only where overlapping entries spare it: without
overlaps something is lost every time. -/
theorem failed_flush_keeps_iff (host : DiskHost H) (call : Call) (c : Cache) (h : H) {e : Error} {t : State (Noted H)}
    (failed : call.evicts (noting host) ⟨c, ⟨h, []⟩⟩ = (.error e, t)) :
    call.run (noting host) ⟨c, ⟨h, []⟩⟩ = (.error e, t) ∧ (Kept c.dirty t ↔ call.Spares host ⟨c, ⟨h, []⟩⟩) ∧
      (Separate c.dirty → ¬ Kept c.dirty t) := by
  have spares := evicts_noted host call ⟨c, ⟨h, []⟩⟩
  rw [failed] at spares
  refine ⟨run_of_evicts failed, spares, ?_⟩
  intro separate kept
  have unwritten : Unwritten (⟨c, ⟨h, []⟩⟩ : State (Noted H)) := fun d p x y none => absurd none inRuns_nil
  have flushLoses : ∀ {minFreed : Nat} {α : Type} {f : Nat → Io (Noted H) α},
      (flushOldest (noting host) minFreed >>= f) ⟨c, ⟨h, []⟩⟩ = ((.error e, t) : Result α × State (Noted H)) →
      (∀ n s, ∃ a u, f n s = (.ok a, u)) → ¬ FlushSpares host minFreed ⟨c, ⟨h, []⟩⟩ := by
    intro minFreed α f stopped total
    rcases ran : flushOldest (noting host) minFreed ⟨c, ⟨h, []⟩⟩ with ⟨e' | freed, u⟩
    · exact (flushOldest_loses separate unwritten ran).2.2 ⟨e', rfl⟩
    · obtain ⟨a, v, done⟩ := total freed u
      simp [bind, ran, done] at stopped
  have sure : ∀ (n : Nat) (s : State (Noted H)), ∃ a u, (pure () : Io (Noted H) Unit) s = (.ok a, u) :=
    fun n s => ⟨(), s, rfl⟩
  have held := spares.mp kept
  cases call with
  | write d o data =>
    unfold Call.evicts at failed
    dsimp only at failed
    split_ifs at failed with empty large
    · cases failed
    · have flushed := held.resolve_left empty
      rw [if_pos large] at flushed
      exact flushLoses failed sure flushed
    · have rounds := held.resolve_left empty
      rw [if_neg large] at rounds
      exact makeRoom_loses separate unwritten failed rounds
  | read d o n => cases failed
  | flush => exact flushLoses failed sure held
  | flushDisk d =>
    refine flushDiskLoop_loses separate unwritten ?_ ?_ failed held
    · intro k member
      obtain ⟨b, found⟩ := (mem_keys_iff _ _).mp (List.mem_filter.mp member).1
      exact (contains_iff _ _).mpr ⟨b, found⟩
    · exact (keys_nodup _).filter _
  | flushBounded m => exact flushLoses failed sure held

end Calls

def brokenHost : DiskHost Unit where
  diskRead _ _ _ _ := (.error .io, ())
  diskWrite _ _ _ _ := (.error .io, ())

def oneDirty : Cache := (Cache.new 0).insertCoalesced 0 0 [1]

theorem oneDirty_entry {k : Key} {b : Bytes} (found : oneDirty.dirty.get? k = some b) : k = key 0 0 ∧ b = [1] := by
  have member := (mem_entries_iff _ _ _).mpr found
  have entries : oneDirty.dirty.entries = [(key 0 0, [1])] := rfl
  rw [entries, List.mem_singleton] at member
  exact Prod.mk.inj member

theorem failed_flush_keeps_iff_broken :
    ∃ t, Call.flush.run (noting brokenHost) ⟨oneDirty, ⟨(), []⟩⟩ = (.error .io, t) ∧ ¬ Kept oneDirty.dirty t := by
  obtain ⟨ran, -, loses⟩ := failed_flush_keeps_iff brokenHost .flush oneDirty () (e := .io) rfl
  refine ⟨_, ran, loses ⟨?_, ?_⟩⟩
  · intro k b found
    rw [(oneDirty_entry found).2]
    exact List.cons_ne_nil _ _
  · intro k b k' b' found found' other
    exact absurd ((oneDirty_entry found).1.trans (oneDirty_entry found').1.symm) other

/-- The byte of a failed flush is neither dirty nor written. -/
theorem failed_flush_loses_byte : ¬ ∀ (H : Type) (host : DiskHost H) (call : Call) (c : Cache) (h : H) (e : Error)
    (t : State (Noted H)), call.run (noting host) ⟨c, ⟨h, []⟩⟩ = (.error e, t) → Kept c.dirty t := by
  intro always
  have kept := always Unit brokenHost .flush oneDirty () .io
    (Call.flush.run (noting brokenHost) ⟨oneDirty, ⟨(), []⟩⟩).2 rfl 0 0 1 ⟨key 0 0, [1], rfl, rfl, 0, rfl, rfl⟩
  rcases kept with ⟨k, b, found, -⟩ | ⟨r, member, -⟩
  · have empty : (Call.flush.run (noting brokenHost) ⟨oneDirty, ⟨(), []⟩⟩).2.cache.dirty.entries = [] := by decide
    have member := (mem_entries_iff _ _ _).mpr found
    rw [empty] at member
    cases member
  · have empty : (Call.flush.run (noting brokenHost) ⟨oneDirty, ⟨(), []⟩⟩).2.host.written = [] := rfl
    rw [empty] at member
    cases member

end TypeBit.DiskCache
