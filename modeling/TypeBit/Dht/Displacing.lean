import TypeBit.Dht.Matching
import TypeBit.Dht.Table

/-! What an insertion takes out of the routing table (`dht.rs`). The nodes of an address are purged from all buckets before the
bucket of the new id decides, so a refused insertion may still cost a node, and so may a node that somebody only listed. -/

namespace TypeBit.Dht
open Metainfo

namespace Bucket

/-- A bucket that knows the id, has room, or has a node that is not good. -/
def Accepts (b : Bucket) (e : NodeEntry) (now k : Nat) : Prop :=
  (∃ n ∈ b, n.id = e.id) ∨ b.length < k ∨ ∃ n ∈ b, n.isGood now = false

instance (b : Bucket) (e : NodeEntry) (now k : Nat) : Decidable (b.Accepts e now k) :=
  inferInstanceAs (Decidable ((∃ n ∈ b, n.id = e.id) ∨ b.length < k ∨ ∃ n ∈ b, n.isGood now = false))

theorem refuses_iff (b : Bucket) (e : NodeEntry) (now k : Nat) : (b.insert e now k).1 = false ↔ ¬ b.Accepts e now k := by
  have did := b.insert_cases e now k
  generalize b.insert e now k = result at did
  cases did with
  | @refreshed front node back split same =>
    refine iff_of_false (by simp) fun refuses => refuses (.inl ⟨node, ?_, same⟩)
    rw [split]
    exact List.mem_append_right _ List.mem_cons_self
  | added absent room => exact iff_of_false (by simp) fun refuses => refuses (.inr (.inl room))
  | @replaced front node back absent full split bad before =>
    refine iff_of_false (by simp) fun refuses => refuses (.inr (.inr ⟨node, ?_, bad⟩))
    rw [split]
    exact List.mem_append_right _ List.mem_cons_self
  | refused absent full good =>
    refine iff_of_true rfl ?_
    rintro (⟨n, member, same⟩ | room | ⟨n, member, bad⟩)
    · exact absent n member same
    · omega
    · exact Bool.false_ne_true (bad.symm.trans (good n member))

variable {b : Bucket} {e : NodeEntry} {now k : Nat}

theorem same_of_refused (refused : (b.insert e now k).1 = false) : (b.insert e now k).2 = b := by
  have did := b.insert_cases e now k
  generalize b.insert e now k = result at did refused
  cases did with
  | refreshed => cases refused
  | added => cases refused
  | replaced => cases refused
  | refused => rfl

/-- A full bucket that does not know the id, and of which this is the first node that is not good. -/
def GivesUp (b : Bucket) (e : NodeEntry) (now k : Nat) (g : NodeEntry) : Prop :=
  (∀ n ∈ b, n.id ≠ e.id) ∧ k ≤ b.length ∧ g.isGood now = false ∧
    ∃ front back, b = front ++ g :: back ∧ ∀ n ∈ front, n.isGood now = true

theorem givesUp_iff (b : Bucket) (e : NodeEntry) (now k : Nat) (g : NodeEntry) : b.GivesUp e now k g ↔
    (∀ n ∈ b, n.id ≠ e.id) ∧ k ≤ b.length ∧ b.find? (fun n => !n.isGood now) = some g := by
  unfold GivesUp
  rw [List.find?_eq_some_iff_append]
  simp only [Bool.not_eq_true', Bool.not_not]

instance (b : Bucket) (e : NodeEntry) (now k : Nat) (g : NodeEntry) : Decidable (b.GivesUp e now k g) :=
  decidable_of_iff _ (b.givesUp_iff e now k g).symm

theorem GivesUp.unique {e g h : NodeEntry} (given : b.GivesUp e now k g) (other : b.GivesUp e now k h) : g = h :=
  Option.some_inj.mp (((b.givesUp_iff e now k g).mp given).2.2.symm.trans ((b.givesUp_iff e now k h).mp other).2.2)

theorem stays_unless {g : NodeEntry} (member : g ∈ b) (other : g.id ≠ e.id)
    (kept : ¬ b.GivesUp e now k g) : g ∈ (b.insert e now k).2 := by
  have did := b.insert_cases e now k
  generalize b.insert e now k = result at did
  -- the node taken out is not this one
  have passed : ∀ {front node back}, b = front ++ node :: back → g ≠ node → ∀ last, g ∈ front ++ back ++ last := by
    rintro front node back rfl differs last
    rcases List.mem_append.mp member with inFront | behind
    · exact List.mem_append_left _ (List.mem_append_left _ inFront)
    · rcases List.mem_cons.mp behind with here | inBack
      · exact absurd here differs
      · exact List.mem_append_left _ (List.mem_append_right _ inBack)
  cases did with
  | refreshed split same => exact passed split (fun here => other (here ▸ same)) _
  | added => exact List.mem_append_left _ member
  | @replaced front node back absent full split bad before =>
    refine passed split (fun here => kept ?_) _
    subst here
    exact ⟨absent, full, bad, front, back, split, before⟩
  | refused => exact member

theorem arrives (accepts : b.Accepts e now k) : ∃ n ∈ (b.insert e now k).2, n.contact = e.contact := by
  have stored := mt (b.refuses_iff e now k).mp (not_not.mpr accepts)
  have did := b.insert_cases e now k
  generalize b.insert e now k = result at did stored
  cases did with
  | refreshed split same =>
    exact ⟨_, List.mem_append_right _ List.mem_cons_self, Prod.ext same rfl⟩
  | added => exact ⟨e, List.mem_append_right _ List.mem_cons_self, rfl⟩
  | replaced => exact ⟨e, List.mem_append_right _ List.mem_cons_self, rfl⟩
  | refused => exact absurd rfl stored

end Bucket

namespace RoutingTable

theorem ext_bucket {t u : RoutingTable} (id : u.id = t.id) (k : u.k = t.k) (wide : u.buckets.length = t.buckets.length)
    (each : ∀ i, u.bucket i = t.bucket i) : u = t := by
  cases t with
  | mk tid tb tk =>
    cases u with
    | mk uid ub uk =>
      cases id
      cases k
      congr 1
      refine List.ext_getElem wide fun i inU inT => ?_
      have here := each i
      unfold bucket at here
      rwa [List.getD_eq_getElem?_getD, List.getElem?_eq_getElem inU, List.getD_eq_getElem?_getD,
        List.getElem?_eq_getElem inT] at here

theorem purged_all_iff (t : RoutingTable) (e : NodeEntry) :
    (∀ i, purged e (t.bucket i) = t.bucket i) ↔ e.id = NodeId.ZERO ∨ ∀ n ∈ t.nodes, n.addr ≠ e.addr := by
  constructor
  · intro unchanged
    by_cases real : e.id = NodeId.ZERO
    · exact .inl real
    · refine .inr fun n member => ?_
      obtain ⟨i, inside⟩ := (mem_nodes t n).mp member
      rw [← unchanged i] at inside
      exact (mem_purged.mp inside).2 real
  · intro spared i
    unfold purged
    split
    next real =>
      refine List.filter_eq_self.mpr fun n member => decide_eq_true ?_
      exact spared.resolve_left real n ((mem_nodes t n).mpr ⟨i, member⟩)
    next => rfl

variable {t : RoutingTable}

theorem insert_unchanged_iff (sound : Sound t) (e : NodeEntry) (now : Nat) :
    ((t.insert e now).1 = false → (t.insert e now).2 = t) ↔
      e.id = t.id ∨ e.id = NodeId.ZERO ∨ (∀ n ∈ t.nodes, n.addr ≠ e.addr) ∨
        (purged e (t.bucket (t.bucketIndex e.id))).Accepts e now t.k := by
  by_cases own : e.id = t.id
  · refine iff_of_true (fun _ => ?_) (.inl own)
    rw [insert_own own]
  obtain ⟨outcome, sameId, sameK, wide, filled⟩ := insert_other own sound.wide now
  rw [outcome, Bucket.refuses_iff]
  by_cases accepted : (purged e (t.bucket (t.bucketIndex e.id))).Accepts e now t.k
  · exact iff_of_true (fun refused => absurd accepted refused) (.inr (.inr (.inr accepted)))
  · -- refused: what is left is what the purge leaves
    have kept : ∀ i, (t.insert e now).2.bucket i = purged e (t.bucket i) := by
      intro i
      rw [filled i]
      split
      next here =>
        subst here
        exact Bucket.same_of_refused ((Bucket.refuses_iff _ e now t.k).mpr accepted)
      next => rfl
    have unchanged : (t.insert e now).2 = t ↔ ∀ i, purged e (t.bucket i) = t.bucket i := by
      constructor
      · intro same i
        rw [← kept i, same]
      · intro same
        exact ext_bucket sameId sameK (wide.trans sound.wide.symm) fun i => (kept i).trans (same i)
    rw [forall_prop_of_true accepted, unchanged, purged_all_iff]
    simp only [own, accepted, false_or, or_false]

/-! ### The nodes that stay -/

/-- The node takes over the address of the other under another id. -/
def Displaces (t : RoutingTable) (e g : NodeEntry) : Prop :=
  e.id ≠ t.id ∧ e.id ≠ NodeId.ZERO ∧ e.addr = g.addr ∧ e.id ≠ g.id

/-- The node takes another id or address, or is the other. -/
def LeavesContact (t : RoutingTable) (e g : NodeEntry) : Prop :=
  e.id = t.id ∨ if e.id = g.id then e.addr = g.addr else e.id = NodeId.ZERO ∨ e.addr ≠ g.addr

variable {e g : NodeEntry} {now : Nat}

theorem stays_unless (sound : Sound t) (member : g ∈ t.nodes)
    (other : e.id ≠ g.id) (spared : e.id = t.id ∨ e.id = NodeId.ZERO ∨ e.addr ≠ g.addr)
    (kept : ¬ (purged e (t.bucket (t.bucketIndex e.id))).GivesUp e now t.k g) : g ∈ (t.insert e now).2.nodes := by
  by_cases own : e.id = t.id
  · rw [insert_own own]
    exact member
  obtain ⟨i, inside⟩ := (mem_nodes t g).mp member
  obtain ⟨-, -, -, -, filled⟩ := insert_other own sound.wide now
  have left : g ∈ purged e (t.bucket i) := by
    refine mem_purged.mpr ⟨inside, fun real => ?_⟩
    exact Ne.symm ((spared.resolve_left own).resolve_left real)
  refine (mem_nodes _ g).mpr ⟨i, ?_⟩
  rw [filled i]
  split
  next here =>
    subst here
    exact Bucket.stays_unless left (Ne.symm other) kept
  next => exact left

theorem stays (sound : Sound t) (member : g ∈ t.nodes)
    (good : g.isGood now = true) (other : e.id ≠ g.id) (spared : e.id = t.id ∨ e.id = NodeId.ZERO ∨ e.addr ≠ g.addr) :
    g ∈ (t.insert e now).2.nodes :=
  stays_unless sound member other spared fun given => Bool.false_ne_true (given.2.2.1.symm.trans good)

theorem known_arrives (sound : Sound t) (member : g ∈ t.nodes) (same : e.id = g.id)
    (now : Nat) : ∃ n ∈ (t.insert e now).2.nodes, n.contact = e.contact := by
  obtain ⟨i, inside⟩ := (mem_nodes t g).mp member
  obtain ⟨foreign, here⟩ := sound.placed i g inside
  obtain ⟨-, -, -, -, filled⟩ := insert_other (same ▸ foreign) sound.wide now
  rw [← same] at here
  have accepts : (purged e (t.bucket i)).Accepts e now t.k := by
    by_cases left : g ∈ purged e (t.bucket i)
    · exact .inl ⟨g, left, same.symm⟩
    · -- the purge made room
      have small := sound.small i
      have fewer := purged_sublist e (t.bucket i)
      refine .inr (.inl (lt_of_lt_of_le (lt_of_le_of_ne fewer.length_le fun equal => left ?_) small))
      rw [fewer.eq_of_length equal]
      exact inside
  obtain ⟨n, arrived, contact⟩ := Bucket.arrives accepts
  refine ⟨n, (mem_nodes _ n).mpr ⟨i, ?_⟩, contact⟩
  rw [filled i, if_pos here]
  exact arrived

theorem good_node_iff (sound : Sound t) (member : g ∈ t.nodes) (good : g.isGood now = true) (e : NodeEntry) :
    ((∃ n ∈ (t.insert e now).2.nodes, n.id = g.id) ↔ ¬ Displaces t e g) ∧
      ((∃ n ∈ (t.insert e now).2.nodes, n.contact = g.contact) ↔ LeavesContact t e g) := by
  unfold Displaces LeavesContact
  by_cases own : e.id = t.id
  · rw [insert_own own]
    exact ⟨iff_of_true ⟨g, member, rfl⟩ fun displaced => displaced.1 own, iff_of_true ⟨g, member, rfl⟩ (.inl own)⟩
  have arrival : ∀ n ∈ (t.insert e now).2.nodes, (n ∈ t.nodes ∧ (e.id ≠ NodeId.ZERO → n.addr ≠ e.addr)) ∨
      n.id = e.id ∧ n.addr = e.addr := by
    intro n listed
    obtain ⟨i, inside⟩ := (mem_nodes _ n).mp listed
    rcases sound.origin own inside with old | ⟨-, new⟩
    · exact .inl ⟨(mem_nodes t n).mpr ⟨i, (mem_purged.mp old).1⟩, (mem_purged.mp old).2⟩
    · exact .inr new
  by_cases same : e.id = g.id
  · rw [if_pos same]
    obtain ⟨n, arrived, contact⟩ := known_arrives sound member same now
    refine ⟨iff_of_true ⟨n, arrived, (congrArg Prod.fst contact).trans same⟩ fun displaced => displaced.2.2.2 same, ?_⟩
    constructor
    · rintro ⟨m, listed, sameContact⟩
      have sameId : m.id = n.id := (congrArg Prod.fst sameContact).trans (same.symm.trans (congrArg Prod.fst contact).symm)
      cases List.inj_on_of_nodup_map (sound.insert e now).nodup_ids listed arrived sameId
      exact .inr ((congrArg Prod.snd contact).symm.trans (congrArg Prod.snd sameContact))
    · intro leaves
      exact ⟨n, arrived, contact.trans (Prod.ext same (leaves.resolve_left own))⟩
  · rw [if_neg same]
    have gone : ∀ n ∈ (t.insert e now).2.nodes, n.id = g.id → e.id = NodeId.ZERO ∨ e.addr ≠ g.addr := by
      intro n listed sameId
      rcases arrival n listed with ⟨old, spared⟩ | ⟨new, -⟩
      · cases List.inj_on_of_nodup_map sound.nodup_ids old member sameId
        exact (em _).imp_right fun real => Ne.symm (spared real)
      · exact absurd (new.symm.trans sameId) same
    have kept : e.id = NodeId.ZERO ∨ e.addr ≠ g.addr → g ∈ (t.insert e now).2.nodes := fun spared =>
      stays sound member good same (.inr spared)
    constructor
    · constructor
      · rintro ⟨n, listed, sameId⟩ ⟨-, real, taken, -⟩
        exact (gone n listed sameId).elim real fun elsewhere => elsewhere taken
      · intro undisturbed
        refine ⟨g, kept ?_, rfl⟩
        by_contra taken
        push Not at taken
        exact undisturbed ⟨own, taken.1, taken.2, same⟩
    · constructor
      · rintro ⟨n, listed, sameContact⟩
        exact .inr (gone n listed (congrArg Prod.fst sameContact))
      · exact fun leaves => ⟨g, kept (leaves.resolve_left own), rfl⟩

end RoutingTable

theorem stays_learnNodes {d : Dht} (sound : d.table.Sound) (own : d.table.id = d.id) {g : NodeEntry} (member : g ∈ d.table.nodes)
    {now : Nat} (good : g.isGood now = true) (nodes : List NodeEntry)
    (apart : ∀ n ∈ nodes, n.id = d.id ∨ n.id ≠ g.id ∧ (n.id = NodeId.ZERO ∨ n.addr ≠ g.addr)) :
    g ∈ (d.learnNodes nodes now).table.nodes := by
  induction nodes generalizing d with
  | nil => exact member
  | cons n rest ih =>
    have later : ∀ m ∈ rest, m.id = d.id ∨ m.id ≠ g.id ∧ (m.id = NodeId.ZERO ∨ m.addr ≠ g.addr) :=
      fun m behind => apart m (List.mem_cons_of_mem _ behind)
    show g ∈ (learnNodes (if n.id ≠ d.id then { d with table := (d.table.insert n now).2 } else d) rest now).table.nodes
    split
    next other =>
      obtain ⟨differs, spared⟩ := (apart n List.mem_cons_self).resolve_left other
      refine ih (sound.insert n now) ((RoutingTable.id_insert d.table n now).1.trans own) ?_ later
      exact RoutingTable.stays sound member good differs (.inr spared)
    next => exact ih sound own member later

namespace RoutingTable

/-- After any calls, a refused insertion leaves the table as it was exactly when nothing was purged for it. A good node stays
under its id unless the inserted node has its address under another, real id, and as a contact unless the node has one of its
id and address without the other; and while the nodes of a reply are put in, it stays when none of them has its id or, with a
real id, its address. -/
theorem refused_insert_iff (id : NodeId) (k : Nat) (calls : List Call) (e : NodeEntry) (now : Nat) :
    (((calls.foldl call (new id k)).insert e now).1 = false →
        ((calls.foldl call (new id k)).insert e now).2 = calls.foldl call (new id k) ↔
      e.id = id ∨ e.id = NodeId.ZERO ∨ (∀ n ∈ (calls.foldl call (new id k)).nodes, n.addr ≠ e.addr) ∨
        (purged e ((calls.foldl call (new id k)).bucket ((calls.foldl call (new id k)).bucketIndex e.id))).Accepts e now k) ∧
    ∀ g ∈ (calls.foldl call (new id k)).nodes, g.isGood now = true →
      ((∃ n ∈ ((calls.foldl call (new id k)).insert e now).2.nodes, n.id = g.id) ↔
        ¬ Displaces (calls.foldl call (new id k)) e g) ∧
      ((∃ n ∈ ((calls.foldl call (new id k)).insert e now).2.nodes, n.contact = g.contact) ↔
        LeavesContact (calls.foldl call (new id k)) e g) ∧
      ∀ d : Dht, d.id = id → d.table = calls.foldl call (new id k) → ∀ nodes : List NodeEntry,
        (∀ n ∈ nodes, n.id = id ∨ n.id ≠ g.id ∧ (n.id = NodeId.ZERO ∨ n.addr ≠ g.addr)) →
          g ∈ (d.learnNodes nodes now).table.nodes := by
  obtain ⟨sound, sameId, sameK⟩ := sound_calls id k calls
  generalize calls.foldl call (new id k) = t at sound sameId sameK
  subst sameId sameK
  refine ⟨insert_unchanged_iff sound e now, fun g member good => ?_⟩
  obtain ⟨asId, asContact⟩ := good_node_iff sound member good e
  refine ⟨asId, asContact, fun d own same nodes apart => ?_⟩
  subst same
  exact stays_learnNodes sound own.symm member good nodes fun n listed => own ▸ apart n listed

/-! ### A full bucket and a listed node -/

def idFrom (b : UInt8) : NodeId := ⟨b :: List.replicate 19 0, rfl⟩

def hostAt (b : UInt8) : NetAddr := .ofOctets 192 0 2 b 6881

def heard : List Call :=
  [128, 129, 130, 131, 132, 133, 134, 135, 64].map fun b => .onResponse (idFrom b) (hostAt b) 0

/-- A node of the far bucket that a reply lists at the address of the ninth. -/
def claimant : NodeEntry := { id := idFrom 200, addr := hostAt 64, lastSeen := 0, failed := 0 }

/-- The listed node is refused, and the ninth node, which is good, is gone. -/
theorem refused_insert_evicts : ((heard.foldl call (new fresh.id K)).insert claimant 0).1 = false ∧
    ((heard.foldl call (new fresh.id K)).insert claimant 0).2 ≠ heard.foldl call (new fresh.id K) ∧
    (∃ g ∈ (heard.foldl call (new fresh.id K)).nodes, g.id = idFrom 64 ∧ g.isGood 0 = true) ∧
    ∀ n ∈ ((heard.foldl call (new fresh.id K)).insert claimant 0).2.nodes, n.id ≠ idFrom 64 := by
  decide

end RoutingTable

end TypeBit.Dht
