import TypeBit.Dht.Model

/-! The routing table (`dht.rs`). A node may move to another address when it is refreshed, an insertion purges every other node
of its address from all buckets, and a full bucket gives up a node that is not good; the ids and the addresses stay distinct
all the same. -/

namespace List
variable {α : Type*}

theorem cut_first {p : α → Bool} {l : List α} {x : α} (found : l.find? p = some x) : ∃ front back, l = front ++ x :: back ∧
    p x = true ∧ (∀ y ∈ front, p y = false) ∧ l.eraseIdx (l.findIdx p) = front ++ back ∧
      ∀ y, l.set (l.findIdx p) y = front ++ y :: back := by
  obtain ⟨holds, front, back, rfl, before⟩ := List.find?_eq_some_iff_append.mp found
  have skipped : ∀ y ∈ front, p y = false := fun y member => by simpa using before y member
  have index : (front ++ x :: back).findIdx p = front.length := by
    rw [List.findIdx_append, List.findIdx_eq_length.mpr skipped, if_neg (Nat.lt_irrefl _), List.findIdx_cons, holds]
    simp
  refine ⟨front, back, rfl, holds, skipped, ?_, fun y => ?_⟩
  · rw [index, List.eraseIdx_append_of_length_le (le_refl _), Nat.sub_self, List.eraseIdx_cons_zero]
  · rw [index, List.set_append_right _ _ (le_refl _), Nat.sub_self, List.set_cons_zero]

end List

namespace TypeBit.Dht
open Metainfo

/-! ### The bucket of an id -/

def bits (b : Bytes) : List Bool := b.flatMap fun c => (List.range 8).map fun i => c.toNat.testBit (7 - i)

def commonPrefix {α : Type} [DecidableEq α] : List α → List α → Nat
  | a :: as, b :: bs => if a = b then commonPrefix as bs + 1 else 0
  | _, _ => 0

def zerosOf (l : List Bool) : Nat := (l.takeWhile (!·)).length

theorem commonPrefix_xor (as bs : List Bool) : commonPrefix as bs = zerosOf (List.zipWith xor as bs) := by
  induction as generalizing bs with
  | nil => cases bs <;> rfl
  | cons a as ih =>
    cases bs with
    | nil => rfl
    | cons b bs =>
      unfold commonPrefix
      rw [ih bs]
      cases a <;> cases b <;> rfl

theorem bits_cons (c : UInt8) (b : Bytes) : bits (c :: b) = bits [c] ++ bits b := by
  simp [bits]

theorem bits_byte (c : UInt8) : bits [c] = [c.toNat.testBit 7, c.toNat.testBit 6, c.toNat.testBit 5, c.toNat.testBit 4,
    c.toNat.testBit 3, c.toNat.testBit 2, c.toNat.testBit 1, c.toNat.testBit 0] := rfl

theorem length_bits (b : Bytes) : (bits b).length = 8 * b.length := by
  induction b with
  | nil => rfl
  | cons c b ih =>
    rw [bits_cons, List.length_append, ih, List.length_cons]
    show 8 + _ = _
    omega

theorem bits_xor (a b : Bytes) : bits (List.zipWith (· ^^^ ·) a b) = List.zipWith xor (bits a) (bits b) := by
  induction a generalizing b with
  | nil => rfl
  | cons x a ih =>
    cases b with
    | nil =>
      rw [List.zipWith_nil_right]
      show [] = List.zipWith xor _ []
      rw [List.zipWith_nil_right]
    | cons y b =>
      have byte : bits [x ^^^ y] = List.zipWith xor (bits [x]) (bits [y]) := by
        have each : ∀ i, (x ^^^ y).toNat.testBit i = (x.toNat.testBit i ^^ y.toNat.testBit i) := fun i => by
          rw [UInt8.toNat_xor, Nat.testBit_xor]
        rw [bits_byte, bits_byte, bits_byte]
        simp only [each, List.zipWith_cons_cons, List.zipWith_nil_left]
      rw [List.zipWith_cons_cons, bits_cons, bits_cons x, bits_cons y, ih b, byte, List.zipWith_append]
      rfl

set_option maxRecDepth 20000 in
theorem zerosOf_byte {d : UInt8} (some_bit : d ≠ 0) :
    zerosOf (bits [d]) = RoutingTable.leadingZeros d ∧ RoutingTable.leadingZeros d < 8 := by
  have all : ∀ n < 256, n ≠ 0 → zerosOf (bits [UInt8.ofNat n]) = RoutingTable.leadingZeros (UInt8.ofNat n) ∧
      RoutingTable.leadingZeros (UInt8.ofNat n) < 8 := by decide
  have positive : d.toNat ≠ 0 := fun zero => some_bit (UInt8.toNat_inj.mp zero)
  have this := all d.toNat d.toNat_lt positive
  rwa [UInt8.ofNat_toNat] at this

theorem zerosOf_append_full {l : List Bool} (full : ∀ b ∈ l, b = false) (rest : List Bool) :
    zerosOf (l ++ rest) = l.length + zerosOf rest := by
  unfold zerosOf
  rw [List.takeWhile_append_of_pos (fun b member => by rw [full b member]; rfl), List.length_append]

theorem zerosOf_append_cut {l : List Bool} (cut : zerosOf l < l.length) (rest : List Bool) : zerosOf (l ++ rest) = zerosOf l := by
  unfold zerosOf at *
  rw [List.takeWhile_append, if_neg (Nat.ne_of_lt cut)]

/-- Within each byte the buckets count the shared bits the other way around. -/
def mirrored (c : Nat) : Nat := c / 8 * 8 + (7 - c % 8)

theorem mirrored_injective {c d : Nat} : mirrored c = mirrored d ↔ c = d := by
  unfold mirrored
  omega

theorem bucketFrom_eq {diff : Bytes} (some_byte : ∃ c ∈ diff, c ≠ 0) (i : Nat) :
    RoutingTable.bucketFrom i diff = mirrored (8 * i + zerosOf (bits diff)) := by
  induction diff generalizing i with
  | nil =>
    obtain ⟨c, member, -⟩ := some_byte
    cases member
  | cons c rest ih =>
    rw [bits_cons]
    unfold RoutingTable.bucketFrom
    by_cases zero : c = 0
    · subst zero
      rw [if_neg (not_not.mpr rfl)]
      have later : ∃ c ∈ rest, c ≠ 0 := by
        obtain ⟨c, member, nonzero⟩ := some_byte
        rcases List.mem_cons.mp member with rfl | behind
        · exact absurd rfl nonzero
        · exact ⟨c, behind, nonzero⟩
      rw [ih later, zerosOf_append_full (by decide)]
      congr 1
      rw [length_bits]
      show _ = 8 * i + (8 * 1 + _)
      omega
    · rw [if_pos zero]
      obtain ⟨zeros, short⟩ := zerosOf_byte zero
      have cut : zerosOf (bits [c]) < (bits [c]).length := by
        rw [length_bits, zeros]
        exact short
      rw [zerosOf_append_cut cut, zeros]
      unfold mirrored
      omega

theorem bucketFrom_lt (i : Nat) (diff : Bytes) (within : i + diff.length ≤ 20) : RoutingTable.bucketFrom i diff < 160 := by
  induction diff generalizing i with
  | nil => exact Nat.lt_succ_self 159
  | cons c rest ih =>
    rw [List.length_cons] at within
    unfold RoutingTable.bucketFrom
    split
    · omega
    · exact ih (i + 1) (by omega)

namespace RoutingTable

theorem length_distance (a b : NodeId) : (a.distance b).length = 20 := by
  unfold NodeId.distance
  rw [List.length_zipWith, a.2, b.2]
  rfl

theorem bucketIndex_lt (t : RoutingTable) (id : NodeId) : t.bucketIndex id < 160 :=
  bucketFrom_lt 0 _ (by rw [length_distance])

theorem distance_of_ne {a b : NodeId} (different : b ≠ a) : ∃ c ∈ a.distance b, c ≠ 0 := by
  by_contra none
  push Not at none
  refine different (Subtype.ext (List.ext_getElem (b.2.trans a.2.symm) fun i inB inA => ?_))
  have inside : i < (List.zipWith (· ^^^ ·) a.val b.val).length := by
    rw [List.length_zipWith]
    exact Nat.lt_min.mpr ⟨inA, inB⟩
  have zero := none (a.val[i] ^^^ b.val[i]) (List.mem_iff_getElem.mpr ⟨i, inside, List.getElem_zipWith⟩)
  exact (UInt8.xor_eq_zero_iff.mp zero).symm

theorem bucketIndex_eq (t : RoutingTable) {id : NodeId} (other : id ≠ t.id) :
    t.bucketIndex id = mirrored (commonPrefix (bits t.id.val) (bits id.val)) := by
  unfold bucketIndex
  rw [bucketFrom_eq (distance_of_ne other), commonPrefix_xor, Nat.mul_zero, Nat.zero_add]
  unfold NodeId.distance
  rw [bits_xor]

theorem same_bucket_iff (t : RoutingTable) {a b : NodeId} (otherA : a ≠ t.id) (otherB : b ≠ t.id) :
    t.bucketIndex a = t.bucketIndex b ↔
      commonPrefix (bits t.id.val) (bits a.val) = commonPrefix (bits t.id.val) (bits b.val) := by
  rw [bucketIndex_eq t otherA, bucketIndex_eq t otherB, mirrored_injective]

end RoutingTable

/-! ### One bucket -/

namespace Bucket

def ids (b : Bucket) : List NodeId := b.map NodeEntry.id

/-- What an insertion does: it refreshes the node, or takes it in, or takes it in place of the first node that is not good, or
refuses it. -/
inductive Inserts (b : Bucket) (e : NodeEntry) (now k : Nat) : Bool × Bucket → Prop
  | refreshed {front node back} (split : b = front ++ node :: back) (same : node.id = e.id) :
      Inserts b e now k (true, front ++ back ++ [{ node with lastSeen := now, failed := 0, addr := e.addr }])
  | added (absent : ∀ n ∈ b, n.id ≠ e.id) (room : b.length < k) : Inserts b e now k (true, b ++ [e])
  | replaced {front node back} (absent : ∀ n ∈ b, n.id ≠ e.id) (full : k ≤ b.length) (split : b = front ++ node :: back)
      (bad : node.isGood now = false) (before : ∀ n ∈ front, n.isGood now = true) :
      Inserts b e now k (true, front ++ back ++ [e])
  | refused (absent : ∀ n ∈ b, n.id ≠ e.id) (full : k ≤ b.length) (good : ∀ n ∈ b, n.isGood now = true) :
      Inserts b e now k (false, b)

theorem insert_cases (b : Bucket) (e : NodeEntry) (now k : Nat) : Inserts b e now k (b.insert e now k) := by
  unfold Bucket.insert
  split
  next node found =>
    obtain ⟨front, back, cut, same, -, erased, -⟩ := List.cut_first found
    rw [erased]
    exact .refreshed cut (of_decide_eq_true same)
  next missing =>
    have absent : ∀ n ∈ b, n.id ≠ e.id := by
      intro n member
      simpa using List.find?_eq_none.mp missing n member
    split
    next room => exact .added absent room
    next full =>
      have crowded : k ≤ b.length := Nat.not_lt.mp full
      split
      next some_bad =>
        obtain ⟨x, found⟩ := Option.isSome_iff_exists.mp (List.find?_isSome.mpr (List.any_eq_true.mp some_bad))
        obtain ⟨front, back, cut, bad, before, erased, -⟩ := List.cut_first found
        rw [erased]
        exact .replaced absent crowded cut (by simpa using bad) fun n member => by simpa using before n member
      next no_bad =>
        refine .refused absent crowded fun n member => ?_
        have all := List.any_eq_false.mp (Bool.eq_false_iff.mpr no_bad) n member
        simpa using all

theorem mem_others {front back : List NodeEntry} {node : NodeEntry} (distinct : (ids (front ++ node :: back)).Nodup)
    (n : NodeEntry) : n ∈ front ++ back ↔ n ∈ front ++ node :: back ∧ n.id ≠ node.id := by
  have twice : (ids (front ++ node :: back)).Perm (node.id :: ids (front ++ back)) := List.perm_middle.map NodeEntry.id
  have once := (List.nodup_cons.mp (twice.nodup_iff.mp distinct)).1
  constructor
  · intro member
    refine ⟨((List.sublist_cons_self node back).append_left front).subset member, fun same => ?_⟩
    exact once (same ▸ List.mem_map_of_mem member)
  · rintro ⟨member, differs⟩
    rcases List.mem_append.mp member with inFront | behind
    · exact List.mem_append_left _ inFront
    · rcases List.mem_cons.mp behind with rfl | inBack
      · exact absurd rfl differs
      · exact List.mem_append_right _ inBack

theorem insert_spec {b : Bucket} (distinct : b.ids.Nodup) (e : NodeEntry) (now k : Nat) :
    (∃ kept x, b.insert e now k = (true, kept ++ [x]) ∧ kept.Sublist b ∧ (∀ n ∈ kept, n.id ≠ e.id) ∧ x.id = e.id ∧
      x.addr = e.addr ∧ (kept.length < b.length ∨ b.length < k)) ∨ b.insert e now k = (false, b) := by
  have did := b.insert_cases e now k
  generalize b.insert e now k = result at did
  cases did with
  | @refreshed front node back split same =>
    subst split
    have others : ∀ n ∈ front ++ back, n.id ≠ e.id := fun n member => same ▸ ((mem_others distinct n).mp member).2
    refine .inl ⟨front ++ back, _, rfl, (List.sublist_cons_self node back).append_left front, others, same, rfl, .inl ?_⟩
    simp
  | added absent room => exact .inl ⟨b, e, rfl, .refl b, absent, rfl, rfl, .inr room⟩
  | @replaced front node back absent full split bad before =>
    subst split
    have fewer : (front ++ back).Sublist (front ++ node :: back) := (List.sublist_cons_self node back).append_left front
    refine .inl ⟨front ++ back, e, rfl, fewer, fun n member => absent n (fewer.subset member), rfl, rfl, .inl ?_⟩
    simp
  | refused absent full good => exact .inr rfl

theorem mem_insert {b : Bucket} (distinct : b.ids.Nodup) {e : NodeEntry} {now k : Nat} {n : NodeEntry}
    (member : n ∈ (b.insert e now k).2) : n ∈ b ∨ n.id = e.id ∧ n.addr = e.addr := by
  rcases insert_spec distinct e now k with ⟨kept, x, did, fewer, -, sameId, sameAddr, -⟩ | did
  · rw [did] at member
    rcases List.mem_append.mp member with old | new
    · exact .inl (fewer.subset old)
    · cases List.mem_singleton.mp new
      exact .inr ⟨sameId, sameAddr⟩
  · rw [did] at member
    exact .inl member

theorem nodup_insert {b : Bucket} (distinct : b.ids.Nodup) (e : NodeEntry) (now k : Nat) : (b.insert e now k).2.ids.Nodup := by
  rcases insert_spec distinct e now k with ⟨kept, x, did, fewer, others, sameId, -, -⟩ | did
  · rw [did]
    have all : ids (kept ++ [x]) = ids kept ++ [x.id] := List.map_append
    rw [all, sameId]
    refine List.nodup_append.mpr ⟨distinct.sublist (fewer.map NodeEntry.id), List.nodup_singleton _, ?_⟩
    rintro id inKept same inNew rfl
    obtain ⟨n, member, rfl⟩ := List.mem_map.mp inKept
    exact others n member (List.mem_singleton.mp inNew)
  · rw [did]
    exact distinct

theorem length_insert {b : Bucket} (distinct : b.ids.Nodup) {k : Nat} (small : b.length ≤ k) (e : NodeEntry) (now : Nat) :
    (b.insert e now k).2.length ≤ k := by
  rcases insert_spec distinct e now k with ⟨kept, x, did, fewer, -, -, -, shorter⟩ | did
  · have atMost := fewer.length_le
    rw [did, List.length_append, List.length_singleton]
    omega
  · rw [did]
    exact small

end Bucket

/-! ### The whole table -/

def NodeEntry.contact (n : NodeEntry) : NodeId × NetAddr := (n.id, n.addr)

namespace RoutingTable

def bucket (t : RoutingTable) (i : Nat) : Bucket := t.buckets.getD i []

/-- The nodes of a bucket that the insertion of a node leaves before the bucket decides. -/
def purged (e : NodeEntry) (b : Bucket) : Bucket :=
  if e.id ≠ NodeId.ZERO then b.filter (fun n => decide (n.addr ≠ e.addr)) else b

theorem purged_sublist (e : NodeEntry) (b : Bucket) : (purged e b).Sublist b := by
  unfold purged
  split
  · exact List.filter_sublist
  · exact .refl b

variable {t : RoutingTable} {e : NodeEntry}

theorem insert_own (own : e.id = t.id) (now : Nat) : t.insert e now = (false, t) := by
  unfold insert
  rw [if_pos own]

theorem bucket_set {buckets : List Bucket} {i : Nat} (inside : i < buckets.length) (b : Bucket) (j : Nat) :
    bucket { t with buckets := buckets.set i b } j = if i = j then b else buckets.getD j [] := by
  unfold bucket
  rw [List.getD_eq_getElem?_getD, List.getElem?_set, if_pos inside, List.getD_eq_getElem?_getD]
  split
  · rfl
  · rfl

theorem insert_other (other : e.id ≠ t.id) (wide : t.buckets.length = 160) (now : Nat) :
    (t.insert e now).1 = (Bucket.insert (purged e (t.bucket (t.bucketIndex e.id))) e now t.k).1 ∧
      (t.insert e now).2.id = t.id ∧ (t.insert e now).2.k = t.k ∧ (t.insert e now).2.buckets.length = 160 ∧
      ∀ i, (t.insert e now).2.bucket i = if t.bucketIndex e.id = i then (Bucket.insert (purged e (t.bucket i)) e now t.k).2
        else purged e (t.bucket i) := by
  have mapped : (if e.id ≠ NodeId.ZERO then t.buckets.map (fun b => b.filter fun n => decide (n.addr ≠ e.addr))
      else t.buckets) = t.buckets.map (purged e) := by
    unfold purged
    split
    · rfl
    · exact (List.map_id' _).symm
  have each : ∀ i, (t.buckets.map (purged e)).getD i [] = purged e (t.bucket i) := by
    intro i
    have empty : purged e [] = [] := List.sublist_nil.mp (purged_sublist e [])
    unfold bucket
    rw [List.getD_eq_getElem?_getD, List.getElem?_map, List.getD_eq_getElem?_getD]
    cases t.buckets[i]? with
    | none => exact empty.symm
    | some b => rfl
  have inside : t.bucketIndex e.id < (t.buckets.map (purged e)).length := by
    rw [List.length_map, wide]
    exact t.bucketIndex_lt e.id
  unfold insert
  rw [if_neg other]
  dsimp only
  rw [mapped, each]
  refine ⟨rfl, rfl, rfl, ?_, fun i => ?_⟩
  · rw [List.length_set, List.length_map, wide]
  · rw [bucket_set inside, each]
    split
    next here => rw [here]
    next => rfl

theorem bucket_onFailure (t : RoutingTable) (id : NodeId) (now : Nat) :
    (t.onFailure id now).id = t.id ∧ (t.onFailure id now).k = t.k ∧ (t.onFailure id now).buckets.length = t.buckets.length ∧
      ∀ i, (((t.onFailure id now).bucket i).map NodeEntry.contact).Sublist ((t.bucket i).map NodeEntry.contact) := by
  unfold onFailure
  dsimp only
  split
  next => exact ⟨rfl, rfl, rfl, fun i => .refl _⟩
  next n found =>
    obtain ⟨front, back, whole, -, -, -, counted⟩ := List.cut_first found
    have inside : t.bucketIndex id < t.buckets.length := by
      by_contra outside
      rw [List.getD_eq_getElem?_getD, List.getElem?_eq_none (Nat.not_lt.mp outside)] at found
      cases found
    refine ⟨rfl, rfl, List.length_set, fun i => ?_⟩
    rw [bucket_set inside, counted]
    split
    next here =>
      have same : (t.bucket i).map NodeEntry.contact = (front ++ n :: back).map NodeEntry.contact := by
        rw [← whole, ← here]
        rfl
      rw [same]
      have kept : (front ++ { n with failed := min (n.failed + 1) (2 ^ 32 - 1), lastSeen := now } :: back).map
          NodeEntry.contact = (front ++ n :: back).map NodeEntry.contact := by
        rw [List.map_append, List.map_append, List.map_cons, List.map_cons]
        rfl
      rw [← kept]
      split
      · exact (List.eraseIdx_sublist _ _).map _
      · exact .refl _
    next => exact .refl _

/-- The buckets are small, every id is in its bucket and none is ours, no id is twice in a bucket, and no address has two ids
that are not zero. -/
structure Sound (t : RoutingTable) : Prop where
  wide : t.buckets.length = 160
  small : ∀ i, (t.bucket i).length ≤ t.k
  placed : ∀ i, ∀ n ∈ t.bucket i, n.id ≠ t.id ∧ t.bucketIndex n.id = i
  once : ∀ i, (t.bucket i).ids.Nodup
  apart : ∀ i j, ∀ m ∈ t.bucket i, ∀ n ∈ t.bucket j, m.id ≠ NodeId.ZERO → n.id ≠ NodeId.ZERO → m.addr = n.addr → m.id = n.id

theorem sound_new (id : NodeId) (k : Nat) : Sound (new id k) := by
  have empty : ∀ i, (new id k).bucket i = [] := by
    intro i
    unfold bucket new
    rw [List.getD_eq_getElem?_getD, List.getElem?_replicate]
    split <;> rfl
  constructor
  · exact List.length_replicate
  · intro i
    rw [empty]
    exact Nat.zero_le k
  · intro i n member
    rw [empty] at member
    cases member
  · intro i
    rw [empty]
    exact List.nodup_nil
  · intro i j m member
    rw [empty] at member
    cases member

theorem Sound.fewer {t u : RoutingTable} (sound : Sound t) (id : u.id = t.id) (k : u.k = t.k)
    (wide : u.buckets.length = t.buckets.length)
    (fewer : ∀ i, ((u.bucket i).map NodeEntry.contact).Sublist ((t.bucket i).map NodeEntry.contact)) : Sound u := by
  have before : ∀ i, ∀ n ∈ u.bucket i, ∃ m ∈ t.bucket i, m.id = n.id ∧ m.addr = n.addr := by
    intro i n member
    obtain ⟨m, inside, same⟩ := List.mem_map.mp ((fewer i).subset (List.mem_map_of_mem member))
    exact ⟨m, inside, congrArg Prod.fst same, congrArg Prod.snd same⟩
  constructor
  · exact wide.trans sound.wide
  · intro i
    have count := (fewer i).length_le
    rw [List.length_map, List.length_map] at count
    exact k ▸ count.trans (sound.small i)
  · intro i n member
    obtain ⟨m, inside, sameId, -⟩ := before i n member
    obtain ⟨other, there⟩ := sound.placed i m inside
    refine ⟨id ▸ sameId ▸ other, ?_⟩
    rw [← there, ← sameId]
    unfold bucketIndex
    rw [id]
  · intro i
    have ids := (fewer i).map Prod.fst
    rw [List.map_map, List.map_map] at ids
    exact (sound.once i).sublist ids
  · intro i j m inI n inJ realM realN sameAddr
    obtain ⟨m', inI', idM, addrM⟩ := before i m inI
    obtain ⟨n', inJ', idN, addrN⟩ := before j n inJ
    rw [← idM, ← idN]
    exact sound.apart i j m' inI' n' inJ' (idM ▸ realM) (idN ▸ realN) (addrM.trans (sameAddr.trans addrN.symm))

theorem Sound.onFailure (sound : Sound t) (id : NodeId) (now : Nat) : Sound (t.onFailure id now) := by
  obtain ⟨sameId, sameK, sameWide, fewer⟩ := bucket_onFailure t id now
  exact sound.fewer sameId sameK sameWide fewer

theorem mem_purged {e n : NodeEntry} {b : Bucket} : n ∈ purged e b ↔ n ∈ b ∧ (e.id ≠ NodeId.ZERO → n.addr ≠ e.addr) := by
  unfold purged
  split
  next real => rw [List.mem_filter, decide_eq_true_iff, forall_prop_of_true real]
  next zero => rw [and_iff_left fun real => absurd real zero]

theorem Sound.nodup_purged (sound : Sound t) (e : NodeEntry) (i : Nat) : (purged e (t.bucket i)).ids.Nodup :=
  (sound.once i).sublist ((purged_sublist e (t.bucket i)).map NodeEntry.id)

theorem Sound.origin (sound : Sound t) (other : e.id ≠ t.id) {now i : Nat} {n : NodeEntry}
    (member : n ∈ (t.insert e now).2.bucket i) :
    n ∈ purged e (t.bucket i) ∨ t.bucketIndex e.id = i ∧ n.id = e.id ∧ n.addr = e.addr := by
  obtain ⟨-, -, -, -, filled⟩ := insert_other other sound.wide now
  rw [filled i] at member
  split at member
  next here =>
    rcases Bucket.mem_insert (sound.nodup_purged e i) member with old | new
    · exact .inl old
    · exact .inr ⟨here, new⟩
  next => exact .inl member

theorem Sound.insert (sound : Sound t) (e : NodeEntry) (now : Nat) : Sound (t.insert e now).2 := by
  by_cases own : e.id = t.id
  · rw [insert_own own]
    exact sound
  obtain ⟨-, sameId, sameK, wide, filled⟩ := insert_other own sound.wide now
  constructor
  · exact wide
  · intro i
    have before := (purged_sublist e (t.bucket i)).length_le.trans (sound.small i)
    rw [filled i, sameK]
    split
    · exact Bucket.length_insert (sound.nodup_purged e i) before e now
    · exact before
  · intro i n member
    unfold bucketIndex
    rw [sameId]
    rcases sound.origin own member with old | ⟨here, isNew, -⟩
    · exact sound.placed i n (mem_purged.mp old).1
    · exact ⟨isNew ▸ own, isNew ▸ here⟩
  · intro i
    rw [filled i]
    split
    · exact Bucket.nodup_insert (sound.nodup_purged e i) e now t.k
    · exact sound.nodup_purged e i
  · intro i j m inI n inJ realM realN sameAddr
    rcases sound.origin own inI with oldM | ⟨-, idM, addrM⟩
    · rcases sound.origin own inJ with oldN | ⟨-, idN, addrN⟩
      · exact sound.apart i j m (mem_purged.mp oldM).1 n (mem_purged.mp oldN).1 realM realN sameAddr
      · exact absurd (sameAddr.trans addrN) ((mem_purged.mp oldM).2 (idN ▸ realN))
    · rcases sound.origin own inJ with oldN | ⟨-, idN, addrN⟩
      · exact absurd (sameAddr.symm.trans addrM) ((mem_purged.mp oldN).2 (idM ▸ realM))
      · rw [idM, idN]

inductive Call where
  | insert (e : NodeEntry) (now : Nat)
  | onResponse (id : NodeId) (addr : NetAddr) (now : Nat)
  | onFailure (id : NodeId) (now : Nat)

def call (t : RoutingTable) : Call → RoutingTable
  | .insert e now => (t.insert e now).2
  | .onResponse id addr now => t.onResponse id addr now
  | .onFailure id now => t.onFailure id now

theorem id_insert (t : RoutingTable) (e : NodeEntry) (now : Nat) :
    (t.insert e now).2.id = t.id ∧ (t.insert e now).2.k = t.k := by
  unfold insert
  split
  · exact ⟨rfl, rfl⟩
  · exact ⟨rfl, rfl⟩

theorem sound_calls (id : NodeId) (k : Nat) (calls : List Call) :
    Sound (calls.foldl call (new id k)) ∧ (calls.foldl call (new id k)).id = id ∧ (calls.foldl call (new id k)).k = k := by
  apply List.foldlRecOn (motive := fun t => Sound t ∧ t.id = id ∧ t.k = k) calls call ⟨sound_new id k, rfl, rfl⟩
  rintro t ⟨sound, sameId, sameK⟩ c -
  cases c with
  | insert e now =>
    have same := id_insert t e now
    exact ⟨sound.insert e now, same.1.trans sameId, same.2.trans sameK⟩
  | onResponse id' addr now =>
    have same := id_insert t { id := id', addr, lastSeen := now, failed := 0 } now
    exact ⟨sound.insert _ now, same.1.trans sameId, same.2.trans sameK⟩
  | onFailure id' now =>
    have same := bucket_onFailure t id' now
    exact ⟨sound.onFailure id' now, same.1.trans sameId, same.2.1.trans sameK⟩

def nodes (t : RoutingTable) : List NodeEntry := t.buckets.flatten

theorem bucket_eq {i : Nat} {b : Bucket} (there : t.buckets[i]? = some b) : t.bucket i = b := by
  unfold bucket
  rw [List.getD_eq_getElem?_getD, there, Option.getD_some]

theorem mem_nodes (t : RoutingTable) (n : NodeEntry) : n ∈ t.nodes ↔ ∃ i, n ∈ t.bucket i := by
  unfold nodes
  rw [List.mem_flatten]
  constructor
  · rintro ⟨b, listed, member⟩
    obtain ⟨i, there⟩ := List.mem_iff_getElem?.mp listed
    exact ⟨i, by rwa [bucket_eq there]⟩
  · rintro ⟨i, member⟩
    cases there : t.buckets[i]? with
    | none =>
      unfold bucket at member
      rw [List.getD_eq_getElem?_getD, there] at member
      cases member
    | some b =>
      rw [bucket_eq there] at member
      exact ⟨b, List.mem_of_getElem? there, member⟩

theorem Sound.nodup_ids (sound : Sound t) : (t.nodes.map NodeEntry.id).Nodup := by
  unfold nodes
  rw [List.map_flatten, List.nodup_flatten]
  constructor
  · intro ids listed
    obtain ⟨b, member, rfl⟩ := List.mem_map.mp listed
    obtain ⟨i, there⟩ := List.mem_iff_getElem?.mp member
    exact bucket_eq there ▸ sound.once i
  · rw [List.pairwise_map, List.pairwise_iff_getElem]
    intro i j inI inJ before id left right
    obtain ⟨m, memberM, rfl⟩ := List.mem_map.mp left
    obtain ⟨n, memberN, same⟩ := List.mem_map.mp right
    have atI := (sound.placed i m (bucket_eq (List.getElem?_eq_getElem inI) ▸ memberM)).2
    have atJ := (sound.placed j n (bucket_eq (List.getElem?_eq_getElem inJ) ▸ memberN)).2
    rw [same, atI] at atJ
    omega

theorem Sound.nodup_addrs (sound : Sound t) :
    ((t.nodes.filter fun n => decide (n.id ≠ NodeId.ZERO)).map NodeEntry.addr).Nodup := by
  have distinct := sound.nodup_ids
  refine List.Nodup.map_on ?_ (distinct.of_map.filter _)
  intro m memberM n memberN sameAddr
  obtain ⟨inM, realM⟩ := List.mem_filter.mp memberM
  obtain ⟨inN, realN⟩ := List.mem_filter.mp memberN
  obtain ⟨i, atI⟩ := (mem_nodes t m).mp inM
  obtain ⟨j, atJ⟩ := (mem_nodes t n).mp inN
  have sameId := sound.apart i j m atI n atJ (of_decide_eq_true realM) (of_decide_eq_true realN) sameAddr
  exact List.inj_on_of_nodup_map distinct inM inN sameId

/-- After any calls: a bucket holds at most `k` nodes, each of them in the bucket of its id and none with ours; no id is twice
in the table; ids share a bucket exactly when they share the same length of prefix with ours; and no address has two nodes
with ids that are not zero. -/
theorem table_invariant (id : NodeId) (k : Nat) (calls : List Call) :
    (∀ i b, (calls.foldl call (new id k)).buckets[i]? = some b → b.length ≤ k ∧
      ∀ n ∈ b, (calls.foldl call (new id k)).bucketIndex n.id = i) ∧
    (∀ n ∈ (calls.foldl call (new id k)).nodes, n.id ≠ id) ∧
    ((calls.foldl call (new id k)).nodes.map NodeEntry.id).Nodup ∧
    (∀ a b, a ≠ id → b ≠ id →
      ((calls.foldl call (new id k)).bucketIndex a = (calls.foldl call (new id k)).bucketIndex b ↔
        commonPrefix (bits id.val) (bits a.val) = commonPrefix (bits id.val) (bits b.val))) ∧
    (((calls.foldl call (new id k)).nodes.filter fun n => decide (n.id ≠ NodeId.ZERO)).map NodeEntry.addr).Nodup := by
  obtain ⟨sound, sameId, sameK⟩ := sound_calls id k calls
  generalize calls.foldl call (new id k) = t at sound sameId sameK
  subst sameId sameK
  refine ⟨?_, ?_, sound.nodup_ids, fun a b otherA otherB => same_bucket_iff t otherA otherB, sound.nodup_addrs⟩
  · intro i b there
    exact ⟨bucket_eq there ▸ sound.small i, fun n member => (sound.placed i n (bucket_eq there ▸ member)).2⟩
  · intro n member
    obtain ⟨i, inside⟩ := (mem_nodes t n).mp member
    exact (sound.placed i n inside).1

end RoutingTable

end TypeBit.Dht
