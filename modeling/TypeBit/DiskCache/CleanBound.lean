import TypeBit.DiskCache.Accounting

/-! The clean read cache against its counter and its caps. Every promotion keeps them, except one that replaces a
page that starts where its run starts, whose bytes stay on the counter, and one whose run is longer than the whole
budget, which is kept nevertheless. -/

namespace TypeBit.DiskCache
open OrdMap

/-! ### What the counter is about -/

def cleanBytes (m : OrdMap Key (Bytes × Nat)) : Nat := m.total (fun _ page => page.1.length)

/-- The counter shows the bytes of the clean pages and is within the budget; the pages are not too many. -/
structure CleanBounded (c : Cache) : Prop where
  counted : c.cleanUsed = cleanBytes c.clean
  within : c.cleanUsed ≤ CLEAN_BUDGET
  few : c.clean.size ≤ CLEAN_MAX_ENTRIES

structure CleanExact (c : Cache) : Prop extends CleanBounded c where
  filled : ∀ k page, c.clean.get? k = some page → page.1 ≠ []

def Cache.pages (c : Cache) : OrdMap Key Bytes × Nat := (c.clean.mapValues (fun _ page => page.1), c.cleanUsed)

theorem CleanExact.of_pages {c u : Cache} (exact : CleanExact c) (same : u.pages = c.pages) : CleanExact u := by
  have used : u.cleanUsed = c.cleanUsed := congrArg Prod.snd same
  have pages : u.clean.mapValues (fun _ page => page.1) = c.clean.mapValues (fun _ page => page.1) :=
    congrArg Prod.fst same
  have bytes : cleanBytes u.clean = cleanBytes c.clean := by
    have totals := congrArg (total (fun _ (b : Bytes) => b.length)) pages
    rwa [total_mapValues, total_mapValues] at totals
  have size : u.clean.size = c.clean.size := by
    have totals := congrArg (total (fun _ (_ : Bytes) => 1)) pages
    rwa [total_mapValues, total_mapValues, ← size_eq_total, ← size_eq_total] at totals
  refine ⟨⟨?_, ?_, ?_⟩, ?_⟩
  · rw [used, bytes]
    exact exact.counted
  · rw [used]
    exact exact.within
  · rw [size]
    exact exact.few
  · intro k page found
    have shown := congrArg (fun m : OrdMap Key Bytes => m.get? k) pages
    simp only [get?_mapValues, found, Option.map_some] at shown
    obtain ⟨old, there, equal⟩ := Option.map_eq_some_iff.mp shown.symm
    rw [← equal]
    exact exact.filled k old there

theorem cleanExact_new (budget : Nat) : CleanExact (Cache.new budget) := by
  refine ⟨⟨rfl, Nat.zero_le _, Nat.zero_le _⟩, ?_⟩
  intro k page found
  cases found

/-! ### Promotions -/

section Erase
variable {c : Cache} {k : Key} {b : Bytes} {n : Nat}

theorem cleanBytes_erase {m : OrdMap Key (Bytes × Nat)} (found : m.get? k = some (b, n)) :
    cleanBytes m = b.length + cleanBytes (m.erase k) :=
  total_erase (f := fun (_ : Key) (page : Bytes × Nat) => page.1.length) found

theorem size_erase {m : OrdMap Key (Bytes × Nat)} (found : m.get? k = some (b, n)) :
    m.size = 1 + (m.erase k).size := by
  rw [size_eq_total, size_eq_total]
  exact total_erase (f := fun _ _ => 1) found

theorem CleanExact.erase (exact : CleanExact c) (found : c.clean.get? k = some (b, n)) :
    CleanExact { c with clean := c.clean.erase k, cleanUsed := wsub c.cleanUsed b.length } := by
  have split := cleanBytes_erase found
  have fewer := size_erase found
  have counted := exact.counted
  have within := exact.within
  have few := exact.few
  have less : wsub c.cleanUsed b.length = c.cleanUsed - b.length := wsub_of_le (by omega)
  refine ⟨⟨?_, ?_, ?_⟩, ?_⟩
  · change wsub c.cleanUsed b.length = cleanBytes (c.clean.erase k)
    omega
  · change wsub c.cleanUsed b.length ≤ CLEAN_BUDGET
    omega
  · change (c.clean.erase k).size ≤ CLEAN_MAX_ENTRIES
    omega
  · intro j page there
    exact exact.filled j page (get?_of_erase there)

end Erase

section Join
variable {c : Cache}

theorem CleanExact.joinPred (exact : CleanExact c) (d o : Nat) (data : Bytes) :
    CleanExact (c.joinPred d o data).1 := by
  unfold Cache.joinPred
  split
  next k v last found =>
    obtain ⟨below, -⟩ := Option.filter_eq_some_iff.mp found
    exact exact.erase (below?_eq_some below).1
  · exact exact

theorem CleanExact.joinSucc (exact : CleanExact c) (d base : Nat) (merged : Bytes) :
    CleanExact (c.joinSucc d base merged).1 := by
  unfold Cache.joinSucc
  split
  next v last found => exact exact.erase found
  · exact exact

theorem CleanExact.joinAdjacent (exact : CleanExact c) (d o : Nat) (data : Bytes) :
    CleanExact (c.joinAdjacent d o data).1 := by
  unfold Cache.joinAdjacent
  split
  · exact exact
  · exact (exact.joinPred d o data).joinSucc d _ _

theorem joinAdjacent_filled (c : Cache) (d o : Nat) {data : Bytes} (filled : data ≠ []) :
    (c.joinAdjacent d o data).2.2 ≠ [] := by
  have pred : (c.joinPred d o data).2.2 ≠ [] := by
    unfold Cache.joinPred
    split
    · simp [filled]
    · exact filled
  have succ : ∀ (u : Cache) (base : Nat) {merged : Bytes}, merged ≠ [] → (u.joinSucc d base merged).2 ≠ [] := by
    intro u base merged some_byte
    unfold Cache.joinSucc
    split
    · simp [some_byte]
    · exact some_byte
  unfold Cache.joinAdjacent
  split
  · exact filled
  · exact succ _ _ pred

theorem victim_listed {l : List (Key × (Bytes × Nat))} {k : Key} (found : Cache.victim l = some k) :
    ∃ page, (k, page) ∈ l := by
  cases l with
  | nil => cases found
  | cons e tail =>
    have oldest : tail.foldl (fun best f => if f.2.2 < best.2.2 then f else best) e ∈ e :: tail := by
      apply List.foldlRecOn (motive := fun best => best ∈ e :: tail) tail _ List.mem_cons_self
      intro best listed f member
      split_ifs
      · exact List.mem_cons_of_mem _ member
      · exact listed
    cases found
    exact ⟨_, oldest⟩

theorem CleanExact.evictClean (exact : CleanExact c) (len n : Nat) (fuel : c.clean.size ≤ n) :
    CleanExact (c.evictClean len n) ∧
      (wadd (c.evictClean len n).cleanUsed len ≤ CLEAN_BUDGET ∨ (c.evictClean len n).cleanUsed = 0) := by
  have none_left : ∀ {u : Cache}, CleanExact u → u.clean.isEmpty = true → u.cleanUsed = 0 := by
    intro u counted none
    have empty : u.clean.entries = [] := List.isEmpty_iff.mp none
    rw [counted.counted, cleanBytes, total, empty]
    rfl
  induction n generalizing c with
  | zero =>
    have none : c.clean.isEmpty = true := by
      rw [isEmpty, List.isEmpty_iff, List.eq_nil_iff_length_eq_zero]
      exact Nat.le_zero.mp fuel
    exact ⟨exact, Or.inr (none_left exact none)⟩
  | succ n ih =>
    unfold Cache.evictClean
    by_cases tight : wadd c.cleanUsed len > CLEAN_BUDGET ∧ c.clean.isEmpty = false
    · rw [if_pos tight]
      cases found : Cache.victim c.clean.entries with
      | none =>
        exfalso
        have some_page := tight.2
        rw [isEmpty] at some_page
        cases listed : c.clean.entries with
        | nil =>
          rw [listed] at some_page
          cases some_page
        | cons e tail =>
          rw [listed] at found
          cases found
      | some k =>
        obtain ⟨⟨v, last⟩, listed⟩ := victim_listed found
        have there := (mem_entries_iff c.clean k (v, last)).mp listed
        have fewer := size_erase there
        dsimp only
        rw [there]
        exact ih (exact.erase there) (by dsimp only; omega)
    · rw [if_neg tight]
      refine ⟨exact, ?_⟩
      by_cases none : c.clean.isEmpty = true
      · exact Or.inr (none_left exact none)
      · refine Or.inl ?_
        by_contra above
        exact tight ⟨by omega, by simpa using none⟩

end Join

structure Promotion where
  cache : Cache
  disk : Nat
  off : Nat
  data : Bytes

namespace Promotion

def after (p : Promotion) : Cache := p.cache.promoteClean p.disk p.off p.data

def joined (p : Promotion) : Cache × Nat × Bytes :=
  { p.cache with lruClock := wadd p.cache.lruClock 1 }.joinAdjacent p.disk p.off p.data

def evicted (p : Promotion) : Cache := p.joined.1.evictClean p.joined.2.2.length p.joined.1.clean.size

/-- If the joined run is kept, then no page that is left starts where it starts, and it is within the budget. -/
def Fits (p : Promotion) : Prop :=
  p.data ≠ [] → p.evicted.clean.size < CLEAN_MAX_ENTRIES →
    p.evicted.clean.get? (key p.disk p.joined.2.1) = none ∧ p.joined.2.2.length ≤ CLEAN_BUDGET

variable {p : Promotion}

theorem after_empty (empty : p.data = []) : p.after = p.cache := if_pos empty

theorem after_kept (filled : p.data ≠ []) (room : p.evicted.clean.size < CLEAN_MAX_ENTRIES) :
    p.after = { p.evicted with
      cleanUsed := wadd p.evicted.cleanUsed p.joined.2.2.length
      clean := p.evicted.clean.insert (key p.disk p.joined.2.1) (p.joined.2.2, p.evicted.lruClock) } := by
  have kept : p.joined.1.keepClean p.disk p.joined.2.1 p.joined.2.2 = _ := if_pos room
  exact (if_neg filled).trans kept

theorem after_refused (filled : p.data ≠ []) (full : ¬ p.evicted.clean.size < CLEAN_MAX_ENTRIES) :
    p.after = p.evicted := by
  have kept : p.joined.1.keepClean p.disk p.joined.2.1 p.joined.2.2 = _ := if_neg full
  exact (if_neg filled).trans kept

theorem exact_after (exact : CleanExact p.cache) (fits : p.Fits) : CleanExact p.after := by
  by_cases filled : p.data = []
  · rw [after_empty filled]
    exact exact
  have clocked : CleanExact { p.cache with lruClock := wadd p.cache.lruClock 1 } := exact.of_pages rfl
  have joined : CleanExact p.joined.1 := clocked.joinAdjacent p.disk p.off p.data
  obtain ⟨evicted, room⟩ := joined.evictClean p.joined.2.2.length p.joined.1.clean.size (le_refl _)
  change CleanExact p.evicted at evicted
  change wadd p.evicted.cleanUsed _ ≤ _ ∨ p.evicted.cleanUsed = 0 at room
  by_cases free : p.evicted.clean.size < CLEAN_MAX_ENTRIES
  · obtain ⟨absent, short⟩ := fits filled free
    have within := evicted.within
    have counted := evicted.counted
    have bounded : p.evicted.cleanUsed + p.joined.2.2.length < 2 ^ 64 := by
      have cap : CLEAN_BUDGET + CLEAN_BUDGET < 2 ^ 64 := by decide
      omega
    have grown : wadd p.evicted.cleanUsed p.joined.2.2.length = p.evicted.cleanUsed + p.joined.2.2.length :=
      wadd_of_lt bounded
    rw [after_kept filled free]
    refine ⟨⟨?_, ?_, ?_⟩, ?_⟩
    · dsimp only
      rw [cleanBytes, total_insert, erase_of_absent absent, grown, counted, Nat.add_comm]
      rfl
    · dsimp only
      omega
    · dsimp only
      rw [size_eq_total, total_insert, erase_of_absent absent, ← size_eq_total]
      omega
    · intro k page found
      dsimp only at found
      rw [get?_insert] at found
      split_ifs at found
      · cases found
        exact joinAdjacent_filled _ _ _ filled
      · exact evicted.filled k page found
  · rw [after_refused filled free]
    exact evicted

theorem fits_of_bounded (exact : CleanExact p.cache) (bounded : CleanBounded p.after) : p.Fits := by
  intro filled free
  have clocked : CleanExact { p.cache with lruClock := wadd p.cache.lruClock 1 } := exact.of_pages rfl
  have joined : CleanExact p.joined.1 := clocked.joinAdjacent p.disk p.off p.data
  obtain ⟨evicted, -⟩ := joined.evictClean p.joined.2.2.length p.joined.1.clean.size (le_refl _)
  change CleanExact p.evicted at evicted
  rw [after_kept filled free] at bounded
  have counted : wadd p.evicted.cleanUsed p.joined.2.2.length =
      p.joined.2.2.length + cleanBytes (p.evicted.clean.erase (key p.disk p.joined.2.1)) := by
    have shown := bounded.counted
    dsimp only at shown
    rw [cleanBytes, total_insert] at shown
    exact shown
  have within : wadd p.evicted.cleanUsed p.joined.2.2.length ≤ CLEAN_BUDGET := bounded.within
  have short : p.joined.2.2.length ≤ CLEAN_BUDGET := by omega
  refine ⟨?_, short⟩
  cases found : p.evicted.clean.get? (key p.disk p.joined.2.1) with
  | none => rfl
  | some page =>
    exfalso
    have split := cleanBytes_erase found
    have positive := List.length_pos_iff.mpr (evicted.filled _ page found)
    have used := evicted.counted
    have limit := evicted.within
    have cap : CLEAN_BUDGET + CLEAN_BUDGET < 2 ^ 64 := by decide
    have grown : wadd p.evicted.cleanUsed p.joined.2.2.length = p.evicted.cleanUsed + p.joined.2.2.length :=
      wadd_of_lt (by omega)
    omega

end Promotion

/-! ### The promotions of a call -/

/-- The read cache goes from one state to another by the listed promotions; in between only times of access and the
dirty side change. -/
inductive Promotes : Cache → List Promotion → Cache → Prop where
  | none {c u : Cache} (same : u.pages = c.pages) : Promotes c [] u
  | next {c u : Cache} {p : Promotion} {rest : List Promotion} (meets : p.cache.pages = c.pages)
      (later : Promotes p.after rest u) : Promotes c (p :: rest) u

namespace Promotes
variable {c u v : Cache} {ps qs : List Promotion}

theorem before (promotes : Promotes u ps v) (same : u.pages = c.pages) : Promotes c ps v := by
  cases promotes with
  | none last => exact .none (last.trans same)
  | next meets later => exact .next (meets.trans same) later

theorem trans (first : Promotes c ps u) (second : Promotes u qs v) : Promotes c (ps ++ qs) v := by
  induction first with
  | none same => exact second.before same
  | next meets _ ih => exact .next meets (ih second)

theorem bounded_iff (promotes : Promotes c ps u) (exact : CleanExact c) :
    ((∀ p ∈ ps, CleanBounded p.after) ↔ ∀ p ∈ ps, p.Fits) ∧ ((∀ p ∈ ps, p.Fits) → CleanExact u) := by
  induction promotes with
  | none same => exact ⟨by simp, fun _ => exact.of_pages same⟩
  | @next c u p rest meets later ih =>
    have met : CleanExact p.cache := exact.of_pages meets
    simp only [List.forall_mem_cons]
    constructor
    · constructor
      · intro bounded
        have fits := Promotion.fits_of_bounded met bounded.1
        exact ⟨fits, (ih (Promotion.exact_after met fits)).1.mp bounded.2⟩
      · intro fits
        have kept := Promotion.exact_after met fits.1
        exact ⟨kept.toCleanBounded, (ih kept).1.mpr fits.2⟩
    · intro fits
      exact (ih (Promotion.exact_after met fits.1)).2 fits.2

end Promotes

section Calls
variable {H : Type} (host : DiskHost H)

def batchPromotions : List Cache.Run → State H → List Promotion
  | [], _ => []
  | r :: tail, s =>
      match host.diskWrite s.host r.disk r.off r.data with
      | (.error _, _) => []
      | (.ok _, h) =>
          ⟨s.cache, r.disk, r.off, r.data⟩ :: batchPromotions tail ⟨s.cache.promoteClean r.disk r.off r.data, h⟩

def oldestPromotions (minFreed : Nat) (s : State H) : List Promotion :=
  let (_, batch, c) := Cache.takeOldest minFreed s.cache.dirty.keys 0 [] s.cache
  batchPromotions host batch ⟨c, s.host⟩

def diskPromotions : List Key → State H → List Promotion
  | [], _ => []
  | k :: tail, s =>
      match s.cache.dirty.get? k with
      | none => []
      | some data =>
          match host.diskWrite s.host k.disk k.off data with
          | (.error _, _) => []
          | (.ok _, h) =>
              ⟨s.cache.removeDirty k data, k.disk, k.off, data⟩ ::
                diskPromotions tail ⟨(s.cache.removeDirty k data).promoteClean k.disk k.off data, h⟩

def roomPromotions (len : Nat) : Nat → State H → List Promotion
  | 0, _ => []
  | n + 1, s =>
      if wadd s.cache.used len > s.cache.budget ∧ s.cache.dirty.isEmpty = false then
        oldestPromotions host len s ++
          match flushOldest host len s with
          | (.error _, _) => []
          | (.ok freed, t) => if freed = 0 then [] else roomPromotions len n t
      else []

def readPromotions (disk : Nat) : Nat → Nat → Nat → State H → List Promotion
  | 0, _, _, _ => []
  | n + 1, pos, len, s =>
      if len = 0 then []
      else match s.cache.dirtyHit disk pos with
        | some (pageOff, page) =>
            let part := (page.drop (pos - pageOff)).take len
            readPromotions disk n (wadd pos part.length) (len - part.length) s
        | none =>
            match s.cache.cleanHit disk pos with
            | some (pageOff, page) =>
                let part := (page.drop (pos - pageOff)).take len
                let next := wadd pos part.length
                let cache := if next ≥ wadd pageOff page.length then s.cache.touch disk pageOff else s.cache
                readPromotions disk n next (len - part.length) { s with cache := cache }
            | none =>
                match host.diskRead s.host disk pos len with
                | (.error _, _) => []
                | (.ok part, h) =>
                    if part = [] then []
                    else ⟨s.cache, disk, pos, part⟩ ::
                      readPromotions disk n (wadd pos part.length) (len - part.length)
                        ⟨s.cache.promoteClean disk pos part, h⟩

def Call.promotions (call : Call) (s : State H) : List Promotion :=
  match call with
  | .write _ _ data =>
      if data = [] then []
      else if data.length > s.cache.budget then oldestPromotions host (2 ^ 64 - 1) s
      else roomPromotions host data.length s.cache.dirty.size s
  | .read d o n => readPromotions host d n o n s
  | .flush => oldestPromotions host (2 ^ 64 - 1) s
  | .flushDisk d => diskPromotions host (s.cache.dirty.keys.filter (fun k => k.disk = d)) s
  | .flushBounded m => oldestPromotions host m s

theorem promotes_writeBatch (batch : List Cache.Run) (s : State H) :
    Promotes s.cache (batchPromotions host batch s) (writeBatch host batch s).2.cache := by
  induction batch generalizing s with
  | nil => exact .none rfl
  | cons r tail ih =>
    rw [batchPromotions, writeBatch]
    dsimp only
    rcases host.diskWrite s.host r.disk r.off r.data with ⟨e | u, h⟩
    · exact .none rfl
    · exact .next rfl (ih ⟨s.cache.promoteClean r.disk r.off r.data, h⟩)

theorem pages_takeOldest (minFreed : Nat) (keys : List Key) (freed : Nat) (batch : List Cache.Run) (c : Cache) :
    (Cache.takeOldest minFreed keys freed batch c).2.2.pages = c.pages := by
  induction keys generalizing freed batch c with
  | nil => rfl
  | cons k tail ih =>
    unfold Cache.takeOldest
    split
    · rfl
    · split
      · exact ih _ _ _
      · exact ih _ _ _

theorem promotes_flushOldest (minFreed : Nat) (s : State H) :
    Promotes s.cache (oldestPromotions host minFreed s) (flushOldest host minFreed s).2.cache := by
  have written := promotes_writeBatch host (Cache.takeOldest minFreed s.cache.dirty.keys 0 [] s.cache).2.1
    ⟨(Cache.takeOldest minFreed s.cache.dirty.keys 0 [] s.cache).2.2, s.host⟩
  have state : (flushOldest host minFreed s).2 =
      (writeBatch host (Cache.takeOldest minFreed s.cache.dirty.keys 0 [] s.cache).2.1
        ⟨(Cache.takeOldest minFreed s.cache.dirty.keys 0 [] s.cache).2.2, s.host⟩).2 := by
    unfold flushOldest
    dsimp only
    split
    next done => rw [done]
    next failed => rw [failed]
  rw [state]
  exact written.before (pages_takeOldest minFreed _ 0 [] s.cache)

theorem promotes_flushDiskLoop (keys : List Key) (s : State H) :
    Promotes s.cache (diskPromotions host keys s) (flushDiskLoop host keys s).2.cache := by
  induction keys generalizing s with
  | nil => exact .none rfl
  | cons k tail ih =>
    rw [diskPromotions, flushDiskLoop]
    dsimp only
    cases s.cache.dirty.get? k with
    | none => exact .none rfl
    | some data =>
      dsimp only
      rcases host.diskWrite s.host k.disk k.off data with ⟨e | u, h⟩
      · exact .none rfl
      · exact .next rfl (ih ⟨(s.cache.removeDirty k data).promoteClean k.disk k.off data, h⟩)

theorem promotes_makeRoom (len n : Nat) (s : State H) :
    Promotes s.cache (roomPromotions host len n s) (makeRoom host len n s).2.cache := by
  induction n generalizing s with
  | zero => exact .none rfl
  | succ n ih =>
    rw [roomPromotions, makeRoom]
    dsimp only
    split
    · have flushed := promotes_flushOldest host len s
      rcases done : flushOldest host len s with ⟨e | freed, t⟩
      · rw [done] at flushed
        rw [List.append_nil]
        exact flushed
      · rw [done] at flushed
        dsimp only
        split
        · rw [List.append_nil]
          exact flushed
        · exact flushed.trans (ih t)
    · exact .none rfl

theorem pages_touch (c : Cache) (d o : Nat) : (c.touch d o).pages = c.pages := by
  have same : (c.touch d o).clean.mapValues (fun _ page => page.1) = c.clean.mapValues (fun _ page => page.1) := by
    ext k : 1
    rw [get?_mapValues, get?_mapValues, Cache.touch, get?_modify]
    split
    · rw [Option.map_map]
      rfl
    · rfl
  exact Prod.ext same rfl

theorem promotes_readLoop (d n pos len : Nat) (out : Bytes) (s : State H) :
    Promotes s.cache (readPromotions host d n pos len s) (readLoop host d n pos len out s).2.cache := by
  induction n generalizing pos len out s with
  | zero => exact .none rfl
  | succ n ih =>
    unfold readPromotions readLoop
    dsimp only
    split
    · exact .none rfl
    · rcases s.cache.dirtyHit d pos with _ | ⟨pageOff, page⟩
      · rcases s.cache.cleanHit d pos with _ | ⟨pageOff, page⟩
        · dsimp only
          rcases host.diskRead s.host d pos len with ⟨e | part, h⟩
          · exact .none rfl
          · dsimp only
            split
            · exact .none rfl
            · exact .next rfl (ih _ _ _ ⟨s.cache.promoteClean d pos part, h⟩)
        · refine (ih _ _ _ _).before ?_
          dsimp only
          split
          · exact pages_touch _ _ _
          · rfl
      · exact ih _ _ _ s

theorem pages_insertCoalesced (c : Cache) (d o : Nat) (data : Bytes) : (c.insertCoalesced d o data).pages = c.pages := by
  rcases insertCoalesced_cases c d o data with ⟨_, _, same⟩ | ⟨_, _, _, _, same⟩ | ⟨_, _, _, same⟩ | ⟨_, _, same⟩ <;>
    rw [same] <;> rfl

theorem Promotes.followed {c u v : Cache} {ps : List Promotion} (promotes : Promotes c ps u) (same : v.pages = u.pages) :
    Promotes c ps v := by
  have both := promotes.trans (.none same)
  rwa [List.append_nil] at both

theorem promotes_write (d o : Nat) (data : Bytes) (s : State H) :
    Promotes s.cache ((Call.write d o data).promotions host s) (write host d o data s).2.cache := by
  by_cases empty : data = []
  · rw [show write host d o data s = (.ok (), s) from if_pos empty,
      show (Call.write d o data).promotions host s = [] from if_pos empty]
    exact .none rfl
  by_cases large : data.length > s.cache.budget
  · rw [state_write_large host empty large, state_flush,
      show (Call.write d o data).promotions host s = _ from (if_neg empty).trans (if_pos large)]
    exact promotes_flushOldest host (2 ^ 64 - 1) s
  · have made := promotes_makeRoom host data.length s.cache.dirty.size s
    rw [show (Call.write d o data).promotions host s = _ from (if_neg empty).trans (if_neg large),
      show write host d o data s = _ from (if_neg empty).trans (if_neg large)]
    rcases done : makeRoom host data.length s.cache.dirty.size s with ⟨e | u, t⟩
    · rw [done] at made
      exact made
    · rw [done] at made
      exact made.followed (pages_insertCoalesced t.cache d o data)

theorem promotes_call (call : Call) (s : State H) :
    Promotes s.cache (call.promotions host s) (call.run host s).2.cache := by
  cases call with
  | write d o data =>
    rw [show ((Call.write d o data).run host s).2 = (write host d o data s).2 from state_discard _ _ s]
    exact promotes_write host d o data s
  | read d o n => exact promotes_readLoop host d n o n [] s
  | flush =>
    rw [show (Call.flush.run host s).2 = (flushOldest host (2 ^ 64 - 1) s).2 from
      (state_discard _ _ s).trans (state_flush host s)]
    exact promotes_flushOldest host _ s
  | flushDisk d =>
    rw [show ((Call.flushDisk d).run host s).2 = (flushDisk host d s).2 from state_discard _ _ s]
    exact promotes_flushDiskLoop host _ s
  | flushBounded m =>
    rw [show ((Call.flushBounded m).run host s).2 = (flushOldest host m s).2 from state_discard _ _ s]
    exact promotes_flushOldest host m s

/-- The bound on the read cache holds after the call, and after every promotion it makes. -/
def Call.KeepsClean (call : Call) (s : State H) : Prop :=
  CleanBounded (call.run host s).2.cache ∧ ∀ p ∈ call.promotions host s, CleanBounded p.after

theorem moments_clean {calls : List Call} {s : State H} (exact : CleanExact s.cache) :
    (∀ m ∈ moments host calls s, m.1.KeepsClean host m.2) ↔
      ∀ m ∈ moments host calls s, ∀ p ∈ m.1.promotions host m.2, p.Fits := by
  induction calls generalizing s with
  | nil => simp [moments]
  | cons call tail ih =>
    rw [moments]
    simp only [List.forall_mem_cons]
    obtain ⟨same, next⟩ := (promotes_call host call s).bounded_iff exact
    constructor
    · rintro ⟨kept, later⟩
      have fits := same.mp kept.2
      exact ⟨fits, (ih (next fits)).mp later⟩
    · rintro ⟨fits, later⟩
      exact ⟨⟨(next fits).toCleanBounded, same.mpr fits⟩, (ih (next fits)).mpr later⟩

/-- In every run the bound on the read cache holds after every call and every promotion exactly when every promotion
fits. -/
theorem clean_bound_iff (budget : UInt64) (h : H) (calls : List Call) :
    (∀ m ∈ moments host calls ⟨Cache.new budget.toNat, h⟩, m.1.KeepsClean host m.2) ↔
      ∀ m ∈ moments host calls ⟨Cache.new budget.toNat, h⟩, ∀ p ∈ m.1.promotions host m.2, p.Fits :=
  moments_clean host (cleanExact_new _)

end Calls

/-- A byte that is written, flushed, written again and flushed again stays on the counter twice. -/
theorem rewritten_page_counted_twice : ¬ ∀ (budget : UInt64) (h : Nat → Nat → UInt8) (calls : List Call),
    ∀ m ∈ moments memHost calls ⟨Cache.new budget.toNat, h⟩, CleanBounded (m.1.run memHost m.2).2.cache := by
  intro always
  have bounded := always 0 blankDisk [.write 0 0 [1], .flush, .write 0 0 [2], .flush] _
    (List.mem_cons_of_mem _ (List.mem_cons_of_mem _ (List.mem_cons_of_mem _ List.mem_cons_self)))
  exact absurd bounded.counted (by decide)

end TypeBit.DiskCache
