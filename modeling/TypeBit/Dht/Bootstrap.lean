import TypeBit.Dht.Calls
import TypeBit.Dht.Displacing

/-! What becomes of the seeds that the DHT engine is started with (`dht.rs`). Each is put into the table under the id of zeros
until its real id is known; but a bucket holds an id once, so the seeds take the one place from each other, and what happens
to the query of one is held against another. -/

namespace TypeBit.Dht
open Metainfo

/-- A node of the table has the address. -/
def Present (t : RoutingTable) (s : NetAddr) : Prop := ∃ n ∈ t.nodes, n.addr = s

/-- A placeholder has the address. -/
def Held (t : RoutingTable) (s : NetAddr) : Prop := ∃ n ∈ t.nodes, n.id = NodeId.ZERO ∧ n.addr = s

/-- A node with a real id has the address. -/
def Known (t : RoutingTable) (s : NetAddr) : Prop := ∃ n ∈ t.nodes, n.id ≠ NodeId.ZERO ∧ n.addr = s

instance (t : RoutingTable) : DecidablePred (Present t) := fun s => inferInstanceAs (Decidable (∃ n ∈ t.nodes, n.addr = s))

instance (t : RoutingTable) : DecidablePred (Held t) := fun s =>
  inferInstanceAs (Decidable (∃ n ∈ t.nodes, n.id = NodeId.ZERO ∧ n.addr = s))

instance (t : RoutingTable) : DecidablePred (Known t) := fun s =>
  inferInstanceAs (Decidable (∃ n ∈ t.nodes, n.id ≠ NodeId.ZERO ∧ n.addr = s))

namespace Bucket

theorem mem_insert_iff {b : Bucket} (distinct : b.ids.Nodup) {e : NodeEntry} {now k : Nat} (seen : e.lastSeen = now)
    (unfailed : e.failed = 0) (free : (∃ n ∈ b, n.id = e.id) ∨ b.length < k) (n : NodeEntry) :
    n ∈ (b.insert e now k).2 ↔ (n ∈ b ∧ n.id ≠ e.id) ∨ n = e := by
  have did := b.insert_cases e now k
  generalize b.insert e now k = result at did
  cases did with
  | @refreshed front node back split same =>
    subst split
    have whole : ({ node with lastSeen := now, failed := 0, addr := e.addr } : NodeEntry) = e := by
      cases e
      cases seen
      cases unfailed
      cases same
      rfl
    rw [whole, List.mem_append, List.mem_singleton, mem_others distinct, same]
  | added absent room =>
    rw [List.mem_append, List.mem_singleton, and_iff_left_of_imp (absent n)]
  | replaced absent full =>
    rcases free with ⟨m, member, same⟩ | room
    · exact absurd same (absent m member)
    · omega
  | refused absent full =>
    rcases free with ⟨m, member, same⟩ | room
    · exact absurd same (absent m member)
    · omega

theorem failed_insert {b : Bucket} {e n : NodeEntry} {now k : Nat} (member : n ∈ (b.insert e now k).2) :
    n ∈ b ∨ n.failed = 0 ∨ n = e := by
  have did := b.insert_cases e now k
  generalize b.insert e now k = result at did member
  cases did with
  | @refreshed front node back split same =>
    subst split
    rcases List.mem_append.mp member with old | new
    · exact .inl (((List.sublist_cons_self node back).append_left front).subset old)
    · cases List.mem_singleton.mp new
      exact .inr (.inl rfl)
  | added absent room =>
    rcases List.mem_append.mp member with old | new
    · exact .inl old
    · exact .inr (.inr (List.mem_singleton.mp new))
  | @replaced front node back absent full split bad before =>
    subst split
    rcases List.mem_append.mp member with old | new
    · exact .inl (((List.sublist_cons_self node back).append_left front).subset old)
    · exact .inr (.inr (List.mem_singleton.mp new))
  | refused absent full good => exact .inl member

theorem mem_remove {b : Bucket} (distinct : b.ids.Nodup) (id : NodeId) (n : NodeEntry) :
    n ∈ b.remove id ↔ n ∈ b ∧ n.id ≠ id := by
  unfold remove
  cases found : b.find? fun n => decide (n.id = id) with
  | none =>
    have absent : ∀ n ∈ b, n.id ≠ id := fun n member => by simpa using List.find?_eq_none.mp found n member
    have nowhere : b.findIdx (fun n => decide (n.id = id)) = b.length :=
      List.findIdx_eq_length.mpr fun n member => decide_eq_false (absent n member)
    rw [nowhere, List.eraseIdx_of_length_le (le_refl _)]
    exact (and_iff_left_of_imp (absent n)).symm
  | some node =>
    obtain ⟨front, back, rfl, same, -, erased, -⟩ := List.cut_first found
    rw [erased, mem_others distinct, of_decide_eq_true same]

end Bucket

def NodeEntry.counted (n : NodeEntry) (now : Nat) : NodeEntry :=
  { n with failed := min (n.failed + 1) (2 ^ 32 - 1), lastSeen := now }

namespace Bucket

theorem mem_counted {b : Bucket} (distinct : b.ids.Nodup) {id : NodeId} {m : NodeEntry}
    (found : b.find? (fun n => decide (n.id = id)) = some m) {now : Nat} {c : Bucket}
    (after : c = if 3 < (m.counted now).failed
      then remove (b.set (b.findIdx fun n => decide (n.id = id)) (m.counted now)) id
      else b.set (b.findIdx fun n => decide (n.id = id)) (m.counted now)) (n : NodeEntry) :
    n ∈ c ↔ (n ∈ b ∧ n.id ≠ id) ∨ n = m.counted now ∧ n.failed ≤ 3 := by
  obtain ⟨front, back, rfl, same, -, -, counted⟩ := List.cut_first found
  have sameId : m.id = id := of_decide_eq_true same
  have others := mem_others distinct n
  have here : n ∈ front ++ m.counted now :: back ↔ n ∈ front ++ back ∨ n = m.counted now := by
    rw [List.mem_append, List.mem_cons, List.mem_append]
    tauto
  have still : (ids (front ++ m.counted now :: back)).Nodup := by
    have ids : ids (front ++ m.counted now :: back) = ids (front ++ m :: back) := by
      unfold Bucket.ids
      rw [List.map_append, List.map_append]
      rfl
    rwa [ids]
  subst after
  rw [counted]
  rw [sameId] at others
  split
  next many =>
    rw [mem_remove still, here, others]
    constructor
    · rintro ⟨old | new, differs⟩
      · exact .inl old
      · exact absurd (new ▸ sameId) differs
    · rintro (old | ⟨new, few⟩)
      · exact ⟨.inl old, old.2⟩
      · exact absurd few (not_le.mpr (new ▸ many))
  next few =>
    rw [here, others]
    refine or_congr_right (and_iff_left_of_imp fun new => ?_).symm
    exact new ▸ not_lt.mp few

end Bucket

namespace RoutingTable

theorem mem_onFailure {t : RoutingTable} (sound : Sound t) (id : NodeId) (now : Nat) (n : NodeEntry) :
    n ∈ (t.onFailure id now).nodes ↔
      (n ∈ t.nodes ∧ n.id ≠ id) ∨ n.failed ≤ 3 ∧ ∃ m ∈ t.nodes, m.id = id ∧ n = m.counted now := by
  have only : ∀ {i}, n ∈ t.bucket i → t.bucketIndex id ≠ i → n.id ≠ id := by
    intro i member elsewhere same
    exact elsewhere (same ▸ (sound.placed i n member).2)
  unfold onFailure
  dsimp only
  split
  next missing =>
    have absent : ∀ m ∈ t.nodes, m.id ≠ id := by
      intro m member same
      obtain ⟨i, inside⟩ := (mem_nodes t m).mp member
      have here := same ▸ (sound.placed i m inside).2
      subst here
      exact absurd (decide_eq_true same) (List.find?_eq_none.mp missing m inside)
    constructor
    · exact fun member => .inl ⟨member, absent n member⟩
    · rintro (⟨member, -⟩ | ⟨-, m, member, same, -⟩)
      · exact member
      · exact absurd same (absent m member)
  next m found =>
    have inside : t.bucketIndex id < t.buckets.length := sound.wide ▸ t.bucketIndex_lt id
    have mThere : m ∈ t.bucket (t.bucketIndex id) := List.mem_of_find?_eq_some found
    have mId : m.id = id := by simpa using List.find?_some found
    have here := @Bucket.mem_counted _ (sound.once (t.bucketIndex id)) id m found now _ rfl n
    rw [mem_nodes, mem_nodes]
    constructor
    · rintro ⟨i, member⟩
      rw [bucket_set inside] at member
      split at member
      next =>
        rcases here.mp member with ⟨old, differs⟩ | ⟨new, few⟩
        · exact .inl ⟨⟨_, old⟩, differs⟩
        · exact .inr ⟨few, m, (mem_nodes t m).mpr ⟨_, mThere⟩, mId, new⟩
      next elsewhere => exact .inl ⟨⟨i, member⟩, only member elsewhere⟩
    · rintro (⟨⟨i, member⟩, differs⟩ | ⟨few, m', member, same, new⟩)
      · refine ⟨i, ?_⟩
        rw [bucket_set inside]
        split
        next there =>
          subst there
          exact here.mpr (.inl ⟨member, differs⟩)
        next => exact member
      · cases List.inj_on_of_nodup_map sound.nodup_ids member ((mem_nodes t m).mpr ⟨_, mThere⟩) (same.trans mId.symm)
        refine ⟨t.bucketIndex id, ?_⟩
        rw [bucket_set inside, if_pos rfl]
        exact here.mpr (.inr ⟨new, few⟩)

theorem failed_insert {t : RoutingTable} (sound : Sound t) {e n : NodeEntry} {now : Nat} (member : n ∈ (t.insert e now).2.nodes) :
    n ∈ t.nodes ∨ n.failed = 0 ∨ n = e := by
  by_cases own : e.id = t.id
  · rw [insert_own own] at member
    exact .inl member
  obtain ⟨i, inside⟩ := (mem_nodes _ n).mp member
  obtain ⟨-, -, -, -, filled⟩ := insert_other own sound.wide now
  rw [filled i] at inside
  split at inside
  · rcases Bucket.failed_insert inside with old | new
    · exact .inl ((mem_nodes t n).mpr ⟨i, (mem_purged.mp old).1⟩)
    · exact .inr new
  · exact .inl ((mem_nodes t n).mpr ⟨i, (mem_purged.mp inside).1⟩)

def Admits (t : RoutingTable) : Prop :=
  (∃ n ∈ t.nodes, n.id = NodeId.ZERO) ∨ (t.bucket (t.bucketIndex NodeId.ZERO)).length < t.k

theorem mem_insert_zero {t : RoutingTable} (sound : Sound t) (other : t.id ≠ NodeId.ZERO) (admits : t.Admits) (s : NetAddr)
    (now : Nat) (n : NodeEntry) : n ∈ (t.insert (contactAt NodeId.ZERO s now) now).2.nodes ↔
      (n ∈ t.nodes ∧ n.id ≠ NodeId.ZERO) ∨ n = contactAt NodeId.ZERO s now := by
  obtain ⟨-, -, -, -, filled⟩ :=
    insert_other (show (contactAt NodeId.ZERO s now).id ≠ t.id from Ne.symm other) sound.wide now
  have unpurged : ∀ b, purged (contactAt NodeId.ZERO s now) b = b := fun b => if_neg (not_not.mpr rfl)
  have free : (∃ n ∈ t.bucket (t.bucketIndex NodeId.ZERO), n.id = NodeId.ZERO) ∨
      (t.bucket (t.bucketIndex NodeId.ZERO)).length < t.k := by
    refine admits.imp_left ?_
    rintro ⟨m, member, zero⟩
    obtain ⟨i, inside⟩ := (mem_nodes t m).mp member
    have here := zero ▸ (sound.placed i m inside).2
    exact ⟨m, here ▸ inside, zero⟩
  have here := @Bucket.mem_insert_iff _ (sound.once (t.bucketIndex NodeId.ZERO)) (contactAt NodeId.ZERO s now) now t.k rfl rfl
    free n
  rw [mem_nodes, mem_nodes]
  constructor
  · rintro ⟨i, member⟩
    rw [filled i, unpurged] at member
    split at member
    next there =>
      subst there
      exact (here.mp member).imp_left fun old => ⟨⟨_, old.1⟩, old.2⟩
    next elsewhere =>
      refine .inl ⟨⟨i, member⟩, fun zero => elsewhere ?_⟩
      exact zero ▸ (sound.placed i n member).2
  · rintro (⟨⟨i, member⟩, differs⟩ | new)
    · refine ⟨i, ?_⟩
      rw [filled i, unpurged]
      split
      next there =>
        subst there
        exact here.mpr (.inl ⟨member, differs⟩)
      next => exact member
    · refine ⟨t.bucketIndex NodeId.ZERO, ?_⟩
      rw [filled, unpurged]
      refine (congrArg (n ∈ ·) (if_pos rfl)).mpr ?_
      exact here.mpr (.inr new)

end RoutingTable

/-! ### The seeds of one call -/

variable {t : RoutingTable}

theorem mem_seeded (sound : t.Sound) (other : t.id ≠ NodeId.ZERO) {seeds : List NetAddr} {last : NetAddr}
    (ends : seeds.getLast? = some last) (admits : t.Admits) (now : Nat) (n : NodeEntry) :
    n ∈ ((bootstrapCalls seeds now).foldl TableCall.apply t).nodes ↔
      (n ∈ t.nodes ∧ n.id ≠ NodeId.ZERO) ∨ n = contactAt NodeId.ZERO last now := by
  induction seeds generalizing t with
  | nil => cases ends
  | cons s rest ih =>
    have first := RoutingTable.mem_insert_zero sound other admits s now
    show n ∈ ((bootstrapCalls rest now).foldl TableCall.apply (t.insert (contactAt NodeId.ZERO s now) now).2).nodes ↔ _
    generalize after : (t.insert (contactAt NodeId.ZERO s now) now).2 = u at first
    cases rest with
    | nil =>
      cases ends
      exact first n
    | cons s' rest =>
      have soundU : u.Sound := after ▸ sound.insert _ now
      have otherU : u.id ≠ NodeId.ZERO := after ▸ (RoutingTable.id_insert t _ now).1 ▸ other
      have zero : contactAt NodeId.ZERO s now ∈ u.nodes := (first _).mpr (.inr rfl)
      rw [ih soundU otherU (List.getLast?_cons_cons.symm.trans ends) (.inl ⟨_, zero, rfl⟩), first n]
      constructor
      · rintro (⟨old | new, real⟩ | isLast)
        · exact .inl old
        · exact absurd (congrArg NodeEntry.id new) real
        · exact .inr isLast
      · exact Or.imp_left fun old => ⟨.inl old, old.2⟩

theorem seeded_own (own : t.id = NodeId.ZERO) (seeds : List NetAddr) (now : Nat) :
    (bootstrapCalls seeds now).foldl TableCall.apply t = t := by
  induction seeds with
  | nil => rfl
  | cons s rest ih =>
    show (bootstrapCalls rest now).foldl TableCall.apply (t.insert (contactAt NodeId.ZERO s now) now).2 = t
    rw [RoutingTable.insert_own (show (contactAt NodeId.ZERO s now).id = t.id from own.symm)]
    exact ih

theorem present_seeded_iff (sound : t.Sound) {seeds : List NetAddr}
    (room : seeds.length ≤ t.k - (t.bucket (t.bucketIndex NodeId.ZERO)).length) (now : Nat) :
    (∀ s ∈ seeds, Present ((bootstrapCalls seeds now).foldl TableCall.apply t) s) ↔
      ∀ s ∈ seeds, Known t s ∨ t.id ≠ NodeId.ZERO ∧ seeds.getLast? = some s := by
  refine forall_congr' fun s => forall_congr' fun listed => ?_
  by_cases own : t.id = NodeId.ZERO
  · rw [seeded_own own, or_iff_left fun seeded => seeded.1 own]
    constructor
    · rintro ⟨n, member, here⟩
      obtain ⟨i, inside⟩ := (RoutingTable.mem_nodes t n).mp member
      exact ⟨n, member, own ▸ (sound.placed i n inside).1, here⟩
    · rintro ⟨n, member, -, here⟩
      exact ⟨n, member, here⟩
  · obtain ⟨last, ends⟩ := Option.isSome_iff_exists.mp (List.getLast?_isSome.mpr (List.ne_nil_of_mem listed))
    have positive := List.length_pos_of_mem listed
    have after := mem_seeded sound own ends (.inr (by omega)) now
    rw [ends, Option.some_inj]
    constructor
    · rintro ⟨n, member, here⟩
      rcases (after n).mp member with ⟨old, real⟩ | isLast
      · exact .inl ⟨n, old, real, here⟩
      · exact .inr ⟨own, (congrArg NodeEntry.addr isLast).symm.trans here⟩
    · rintro (⟨n, member, real, here⟩ | ⟨-, isLast⟩)
      · exact ⟨n, (after n).mpr (.inl ⟨member, real⟩), here⟩
      · exact ⟨_, (after _).mpr (.inr rfl), isLast⟩

/-! ### The seeds of a run -/

open RoutingTable (purged)

/-- A ping to the placeholder of the seed is given up. -/
def OwnFailure (s : NetAddr) : TableCall → Prop
  | .insert _ _ => False
  | .fail p _ => p.kind = .ping ∧ p.node.id = NodeId.ZERO ∧ p.node.addr = s

instance (s : NetAddr) : DecidablePred (OwnFailure s)
  | .insert _ _ => inferInstanceAs (Decidable False)
  | .fail p _ => inferInstanceAs (Decidable (p.kind = .ping ∧ p.node.id = NodeId.ZERO ∧ p.node.addr = s))

def ownFailures (s : NetAddr) (calls : List TableCall) : Nat := calls.countP fun c => decide (OwnFailure s c)

theorem ownFailures_concat (s : NetAddr) (calls : List TableCall) (c : TableCall) :
    ownFailures s (calls ++ [c]) = ownFailures s calls + if OwnFailure s c then 1 else 0 := by
  unfold ownFailures
  rw [List.countP_append, List.countP_singleton]
  simp only [decide_eq_true_eq]

/-- A call that spares the seeds: it takes over the address of a seed only into a bucket that accepts its id, and otherwise it
puts no other seed in its place and has no bucket give it up, unless a real id has the address; and it counts no failure
against a seed but of its own pings. -/
def Considerate (t : RoutingTable) : TableCall → Prop
  | .insert e now => e.id = t.id ∨ ∀ n ∈ t.nodes, n.id = NodeId.ZERO →
      if e.id ≠ NodeId.ZERO ∧ e.addr = n.addr then (purged e (t.bucket (t.bucketIndex e.id))).Accepts e now t.k
      else Known t n.addr ∨
        if e.id = NodeId.ZERO then e.addr = n.addr else ¬ (purged e (t.bucket (t.bucketIndex e.id))).GivesUp e now t.k n
  | .fail p now => p.node.id = NodeId.ZERO → ∀ n ∈ t.nodes, n.id = NodeId.ZERO → OwnFailure n.addr (.fail p now)

instance (t : RoutingTable) : DecidablePred (Considerate t)
  | .insert e now => inferInstanceAs (Decidable (e.id = t.id ∨ ∀ n ∈ t.nodes, n.id = NodeId.ZERO →
      if e.id ≠ NodeId.ZERO ∧ e.addr = n.addr then (purged e (t.bucket (t.bucketIndex e.id))).Accepts e now t.k
      else Known t n.addr ∨
        if e.id = NodeId.ZERO then e.addr = n.addr else ¬ (purged e (t.bucket (t.bucketIndex e.id))).GivesUp e now t.k n))
  | .fail p now => inferInstanceAs (Decidable (p.node.id = NodeId.ZERO → ∀ n ∈ t.nodes, n.id = NodeId.ZERO →
      OwnFailure n.addr (.fail p now)))

/-- No placeholder has more failures than its own pings had. -/
def Charged (calls : List TableCall) (t : RoutingTable) : Prop :=
  ∀ n ∈ t.nodes, n.id = NodeId.ZERO → n.failed ≤ ownFailures n.addr calls

variable {calls : List TableCall}

theorem Charged.step (charged : Charged calls t) (sound : t.Sound) {c : TableCall}
    (considerate : Considerate t c) (unfailed : ∀ e now, c = .insert e now → e.failed = 0) :
    Charged (calls ++ [c]) (c.apply t) := by
  intro n member zero
  have old : n ∈ t.nodes → n.failed ≤ ownFailures n.addr (calls ++ [c]) := by
    intro before
    rw [ownFailures_concat]
    exact (charged n before zero).trans (Nat.le_add_right _ _)
  cases c with
  | insert e now =>
    rcases RoutingTable.failed_insert sound member with before | none | rfl
    · exact old before
    · exact none ▸ Nat.zero_le _
    · exact unfailed n now rfl ▸ Nat.zero_le _
  | fail p now =>
    rcases (RoutingTable.mem_onFailure sound p.node.id now n).mp member with ⟨before, -⟩ | ⟨-, m, before, same, rfl⟩
    · exact old before
    · -- the failure is one of the pings to this placeholder
      have own : OwnFailure m.addr (.fail p now) := considerate (same.symm.trans zero) m before zero
      have most := charged m before zero
      rw [ownFailures_concat]
      show min (m.failed + 1) (2 ^ 32 - 1) ≤ ownFailures m.addr calls + if OwnFailure m.addr (.fail p now) then 1 else 0
      rw [if_pos own]
      omega

theorem left_in_bucket (sound : t.Sound) {e n : NodeEntry} (member : n ∈ t.nodes)
    (same : t.bucketIndex e.id = t.bucketIndex n.id) (spared : e.id ≠ NodeId.ZERO → n.addr ≠ e.addr) :
    n ∈ purged e (t.bucket (t.bucketIndex e.id)) := by
  obtain ⟨i, inside⟩ := (RoutingTable.mem_nodes t n).mp member
  rw [same, (sound.placed i n inside).2]
  exact RoutingTable.mem_purged.mpr ⟨inside, spared⟩

variable {s : NetAddr}

theorem held_insert (sound : t.Sound) {e : NodeEntry} {now : Nat} (considerate : Considerate t (.insert e now))
    (held : Held t s) : Held (t.insert e now).2 s ∨ Known (t.insert e now).2 s := by
  obtain ⟨n, member, zero, rfl⟩ := held
  by_cases own : e.id = t.id
  · rw [RoutingTable.insert_own own]
    exact .inl ⟨n, member, zero, rfl⟩
  have spared := considerate.resolve_left own n member zero
  split at spared
  next takes =>
    obtain ⟨real, sameAddr⟩ := takes
    obtain ⟨m, arrived, contact⟩ := Bucket.arrives spared
    obtain ⟨-, -, -, -, filled⟩ := RoutingTable.insert_other own sound.wide now
    refine .inr ⟨m, (RoutingTable.mem_nodes _ m).mpr ⟨t.bucketIndex e.id, ?_⟩, ?_, ?_⟩
    · rw [filled, if_pos rfl]
      exact arrived
    · exact fun isZero => real ((congrArg Prod.fst contact).symm.trans isZero)
    · exact (congrArg Prod.snd contact).trans sameAddr
  next leaves =>
    by_cases seed : e.id = NodeId.ZERO
    · rw [if_pos seed] at spared
      rcases spared with ⟨m, known, real, sameAddr⟩ | sameAddr
      · -- the bucket has the placeholder and refreshes it
        have here : n ∈ purged e (t.bucket (t.bucketIndex e.id)) :=
          left_in_bucket sound member (by rw [seed, zero]) fun real => absurd seed real
        refine .inr ⟨m, ?_, real, sameAddr⟩
        refine RoutingTable.stays_unless sound known (fun same => real (same ▸ seed)) (.inr (.inl seed)) fun given => ?_
        exact given.1 n here (zero.trans seed.symm)
      · obtain ⟨m, arrived, contact⟩ := RoutingTable.known_arrives sound member (seed.trans zero.symm) now
        exact .inl ⟨m, arrived, (congrArg Prod.fst contact).trans seed, (congrArg Prod.snd contact).trans sameAddr⟩
    · rw [if_neg seed] at spared
      have elsewhere : e.addr ≠ n.addr := fun same => leaves ⟨seed, same⟩
      by_cases given : (purged e (t.bucket (t.bucketIndex e.id))).GivesUp e now t.k n
      · -- the bucket gives up the placeholder only, and not for a node that it knows
        obtain ⟨m, known, real, sameAddr⟩ := spared.resolve_right (not_not.mpr given)
        refine .inr ⟨m, ?_, real, sameAddr⟩
        refine RoutingTable.stays_unless sound known (fun same => ?_) (.inr (.inr (sameAddr ▸ elsewhere))) fun other => ?_
        · have here : m ∈ purged e (t.bucket (t.bucketIndex e.id)) :=
            left_in_bucket sound known (by rw [same]) fun _ => sameAddr ▸ Ne.symm elsewhere
          exact given.1 m here same.symm
        · exact real (given.unique other ▸ zero)
      · refine .inl ⟨n, ?_, zero, rfl⟩
        exact RoutingTable.stays_unless sound member (fun same => seed (same.trans zero)) (.inr (.inr elsewhere)) given

theorem Charged.onFailure (charged : Charged calls t) (sound : t.Sound) {p : Pending}
    {now : Nat} (considerate : Considerate t (.fail p now)) (held : Held t s) :
    Held (t.onFailure p.node.id now) s ∨ OwnFailure s (.fail p now) ∧ 4 ≤ ownFailures s (calls ++ [.fail p now]) := by
  obtain ⟨n, member, zero, rfl⟩ := held
  have after := RoutingTable.mem_onFailure sound p.node.id now
  by_cases placeholder : p.node.id = NodeId.ZERO
  · have own : OwnFailure n.addr (.fail p now) := considerate placeholder n member zero
    by_cases few : (n.counted now).failed ≤ 3
    · exact .inl ⟨n.counted now, (after _).mpr (.inr ⟨few, n, member, zero.trans placeholder.symm, rfl⟩), zero, rfl⟩
    · refine .inr ⟨own, ?_⟩
      have most := charged n member zero
      have many : ¬ min (n.failed + 1) (2 ^ 32 - 1) ≤ 3 := few
      rw [ownFailures_concat, if_pos own]
      omega
  · exact .inl ⟨n, (after n).mpr (.inl ⟨member, fun same => placeholder (same.symm.trans zero)⟩), zero, rfl⟩

theorem Charged.outcome (charged : Charged calls t) (sound : t.Sound) {c : TableCall}
    (considerate : Considerate t c) (held : Held t s) :
    Held (c.apply t) s ∨ Known (c.apply t) s ∨ OwnFailure s c ∧ 4 ≤ ownFailures s (calls ++ [c]) := by
  cases c with
  | insert e now => exact (held_insert sound considerate held).imp_right .inl
  | fail p now => exact (charged.onFailure sound considerate held).imp_right .inr

theorem tableAfter_concat (id : NodeId) (calls : List TableCall) (c : TableCall) :
    tableAfter id (calls ++ [c]) = c.apply (tableAfter id calls) := by
  unfold tableAfter
  rw [List.foldl_append]
  rfl

theorem charged_run (id : NodeId) (unfailed : Unfailed calls)
    (considerate : ∀ i (inside : i < calls.length), Considerate (tableAfter id (calls.take i)) calls[i]) {i : Nat}
    (within : i ≤ calls.length) : Charged (calls.take i) (tableAfter id (calls.take i)) := by
  induction i with
  | zero =>
    intro n member
    have empty : (tableAfter id []).nodes = [] := List.flatten_replicate_nil
    exact nomatch empty ▸ member
  | succ i ih =>
    have one : calls.take (i + 1) = calls.take i ++ [calls[i]] := List.take_succ_eq_append_getElem within
    have next := (ih (Nat.le_of_lt within)).step (sound_tableAfter id _).1 (considerate i within) fun e now same =>
      unfailed e now (same ▸ List.getElem_mem within)
    rwa [one, tableAfter_concat]

/-- After a bootstrap into free places a seed has a node in the table exactly when it had one with a real id, or it is the
last seed and our id is not of zeros. In a run of considerate calls a seed leaves the table only when a node with a real id
has its address, or when at least four of its own pings have failed. -/
theorem bootstrap_keeps_seeds_iff {digests : Digests} {calls : List TableCall} {d : Dht} (traced : Traced digests calls d) :
    (∀ seeds now, seeds.length ≤ K - (d.table.bucket (d.table.bucketIndex NodeId.ZERO)).length →
      ((∀ s ∈ seeds, Present (d.bootstrap seeds now).table s) ↔
        ∀ s ∈ seeds, Known d.table s ∨ d.id ≠ NodeId.ZERO ∧ seeds.getLast? = some s)) ∧
    d.table = tableAfter d.id calls ∧
    ((∀ i (inside : i < calls.length), Considerate (tableAfter d.id (calls.take i)) calls[i]) →
      ∀ i (inside : i < calls.length) s, Held (tableAfter d.id (calls.take i)) s →
        ¬ Held (tableAfter d.id (calls.take (i + 1))) s → Known (tableAfter d.id (calls.take (i + 1))) s ∨
          OwnFailure s calls[i] ∧ 4 ≤ ownFailures s (calls.take (i + 1))) := by
  have table := table_traced traced
  obtain ⟨sound, sameId, sameK⟩ := sound_tableAfter d.id calls
  rw [← table] at sound sameId sameK
  refine ⟨fun seeds now room => ?_, table, fun considerate i inside s held gone => ?_⟩
  · rw [table_bootstrap, ← sameId]
    exact present_seeded_iff sound (sameK ▸ room) now
  · have one : calls.take (i + 1) = calls.take i ++ [calls[i]] := List.take_succ_eq_append_getElem inside
    have charged := charged_run d.id (unfailed_traced traced) considerate (Nat.le_of_lt inside)
    rw [one, tableAfter_concat] at gone ⊢
    exact (charged.outcome (sound_tableAfter d.id _).1 (considerate i inside) held).resolve_left gone

/-! ### A seed that does not answer, and a second seed -/

def seeded : Dht := (((fresh.bootstrap [outsider] 0).bootstrap [outsider] 0).bootstrap [outsider] 0).bootstrap [outsider] 0

def silent : Dht := (((seeded.tick 3000).tick 6000).tick 9000).tick 12000

def silentCalls : List TableCall :=
  [] ++ bootstrapCalls [outsider] 0 ++ bootstrapCalls [outsider] 0 ++ bootstrapCalls [outsider] 0 ++ bootstrapCalls [outsider] 0 ++
    tickCalls seeded 3000 ++ tickCalls (seeded.tick 3000) 6000 ++ tickCalls ((seeded.tick 3000).tick 6000) 9000 ++
    tickCalls (((seeded.tick 3000).tick 6000).tick 9000) 12000

theorem traced_silent : Traced noDigests silentCalls silent :=
  ((((((((Traced.new _ _ _).bootstrap [outsider] 0).bootstrap [outsider] 0).bootstrap [outsider] 0).bootstrap [outsider] 0).tick
    3000).tick 6000).tick 9000).tick 12000

/-- The seed of a silent node is there after another bootstrap, and it had left the table for four failed pings of its own. -/
theorem bootstrap_keeps_silent_seed : (∀ s ∈ [outsider], Present (silent.bootstrap [outsider] 12000).table s) ∧
    ∃ inside : 7 < silentCalls.length, Known (tableAfter silent.id (silentCalls.take (7 + 1))) outsider ∨
      OwnFailure outsider silentCalls[7] ∧ 4 ≤ ownFailures outsider (silentCalls.take (7 + 1)) := by
  have room : [outsider].length ≤ K - (silent.table.bucket (silent.table.bucketIndex NodeId.ZERO)).length := by decide
  have kept := (bootstrap_keeps_seeds_iff traced_silent).1 [outsider] 12000 room
  have considerate : ∀ i (inside : i < silentCalls.length),
      Considerate (tableAfter silent.id (silentCalls.take i)) silentCalls[i] := by decide
  have held : Held (tableAfter silent.id (silentCalls.take 7)) outsider := by decide
  have gone : ¬ Held (tableAfter silent.id (silentCalls.take (7 + 1))) outsider := by decide
  have inside : 7 < silentCalls.length := by decide
  refine ⟨kept.mpr (by decide), inside, ?_⟩
  exact (bootstrap_keeps_seeds_iff traced_silent).2.2 considerate 7 inside outsider held gone

def colleague : NetAddr := .v4 ⟨[192, 0, 2, 3], rfl⟩ 6881

def pair : Dht := (fresh.bootstrap [outsider, colleague] 0).bootstrap [outsider, colleague] 0

def pairSilent : Dht := (((pair.tick 3000).tick 6000).tick 9000).tick 12000

def pairCalls : List TableCall :=
  [] ++ bootstrapCalls [outsider, colleague] 0 ++ bootstrapCalls [outsider, colleague] 0 ++
    tickCalls pair 3000 ++ tickCalls (pair.tick 3000) 6000 ++ tickCalls ((pair.tick 3000).tick 6000) 9000 ++
    tickCalls (((pair.tick 3000).tick 6000).tick 9000) 12000

/-- Of two seeds the first is not in the table, though the bucket has room for both; and the second leaves it for the failed
pings of the first. -/
theorem bootstrap_loses_seed : outsider ≠ colleague ∧
    [outsider, colleague].length ≤ K - (fresh.table.bucket (fresh.table.bucketIndex NodeId.ZERO)).length ∧
    ¬ Present (fresh.bootstrap [outsider, colleague] 0).table outsider ∧
    Traced noDigests pairCalls pairSilent ∧ Held (tableAfter pairSilent.id (pairCalls.take 7)) colleague ∧
    ¬ Present pairSilent.table colleague ∧ ownFailures colleague pairCalls = 2 := by
  refine ⟨by decide, by decide, by decide, ?_, by decide, by decide, by decide⟩
  exact ((((((Traced.new _ _ _).bootstrap [outsider, colleague] 0).bootstrap [outsider, colleague] 0).tick 3000).tick 6000).tick
    9000).tick 12000

end TypeBit.Dht
