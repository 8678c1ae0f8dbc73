import Mathlib.Algebra.BigOperators.Group.List.Basic
import Mathlib.Algebra.Order.Ring.Int
import Mathlib.Data.List.Lex
import Mathlib.Data.List.Pairwise
import Mathlib.Data.Prod.Lex
import Mathlib.Tactic.Common

/-! Finite maps kept as key-sorted association lists, with the neighbour queries of a search
tree: the last entry at or below a key, the last entry below it, and the first entry above. -/

namespace OrdMap.Raw
variable {κ α : Type*} [LinearOrder κ]

/-- Strictly increasing keys. -/
def Sorted (l : List (κ × α)) : Prop := l.Pairwise (fun a b => a.1 < b.1)

def get? (l : List (κ × α)) (k : κ) : Option α := (l.find? (fun e => decide (e.1 = k))).map Prod.snd

@[simp] def insert (k : κ) (v : α) : List (κ × α) → List (κ × α)
  | [] => [(k, v)]
  | e :: tail =>
      if k < e.1 then (k, v) :: e :: tail
      else if k = e.1 then (k, v) :: tail
      else e :: insert k v tail

def erase (l : List (κ × α)) (k : κ) : List (κ × α) := l.filter (fun e => decide (e.1 ≠ k))

theorem get?_cons (e : κ × α) (l : List (κ × α)) (k : κ) :
    get? (e :: l) k = if e.1 = k then some e.2 else get? l k := by
  by_cases same : e.1 = k <;> simp [get?, same]

variable {l : List (κ × α)} {k : κ} {v : α}

theorem mem_of_get? (found : get? l k = some v) : (k, v) ∈ l := by
  induction l with
  | nil => simp [get?] at found
  | cons e tail ih =>
    rw [get?_cons] at found
    by_cases same : e.1 = k
    · rw [if_pos same] at found
      have value : e.2 = v := by simpa using found
      have whole : e = (k, v) := Prod.ext same value
      simp [whole]
    · rw [if_neg same] at found
      exact List.mem_cons_of_mem _ (ih found)

theorem get?_of_mem (sorted : Sorted l) (present : (k, v) ∈ l) : get? l k = some v := by
  induction l with
  | nil => simp at present
  | cons e tail ih =>
    have parts := List.pairwise_cons.mp sorted
    rw [get?_cons]
    rcases List.mem_cons.mp present with same | later
    · simp [← same]
    · have above := parts.1 _ later
      rw [if_neg (ne_of_lt above)]
      exact ih parts.2 later

theorem mem_iff_get? (sorted : Sorted l) (k : κ) (v : α) : (k, v) ∈ l ↔ get? l k = some v :=
  ⟨get?_of_mem sorted, mem_of_get?⟩

theorem mem_insert_key {e : κ × α} (present : e ∈ insert k v l) : e = (k, v) ∨ e ∈ l := by
  induction l with
  | nil => simpa [insert] using present
  | cons head tail ih =>
    simp only [insert] at present
    split_ifs at present with below same
    · simpa using present
    · rcases List.mem_cons.mp present with first | later
      · exact Or.inl first
      · exact Or.inr (List.mem_cons_of_mem _ later)
    · rcases List.mem_cons.mp present with first | later
      · exact Or.inr (by simp [first])
      · exact (ih later).imp id (List.mem_cons_of_mem _)

theorem sorted_insert (k : κ) (v : α) (sorted : Sorted l) : Sorted (insert k v l) := by
  induction l with
  | nil => simp [insert, Sorted]
  | cons head tail ih =>
    have parts := List.pairwise_cons.mp sorted
    simp only [insert]
    split_ifs with below same
    · refine List.pairwise_cons.mpr ⟨?_, sorted⟩
      intro e present
      rcases List.mem_cons.mp present with first | later
      · simpa [first] using below
      · exact below.trans (parts.1 e later)
    · refine List.pairwise_cons.mpr ⟨?_, parts.2⟩
      intro e later
      simpa [same] using parts.1 e later
    · refine List.pairwise_cons.mpr ⟨?_, ih parts.2⟩
      intro e present
      rcases mem_insert_key present with new | old
      · have above : head.1 < k := lt_of_le_of_ne (not_lt.mp below) (Ne.symm same)
        simpa [new] using above
      · exact parts.1 e old

/-- A key above all others goes to the end. -/
theorem insert_last (above : ∀ e ∈ l, e.1 < k) : insert k v l = l ++ [(k, v)] := by
  induction l with
  | nil => rfl
  | cons e tail ih =>
    have first := above e (by simp)
    have rest := ih (fun f member => above f (List.mem_cons_of_mem _ member))
    rw [insert, if_neg (not_lt.mpr (le_of_lt first)), if_neg (ne_of_gt first), rest]
    rfl

/-- Entries inserted in order come one after the other. -/
theorem foldl_insert_sorted (m l : List (κ × α)) (sorted : Sorted (m ++ l)) :
    l.foldl (fun m e => insert e.1 e.2 m) m = m ++ l := by
  induction l generalizing m with
  | nil => exact (List.append_nil m).symm
  | cons e tail ih =>
    have above : ∀ f ∈ m, f.1 < e.1 := fun f member =>
      (List.pairwise_append.mp sorted).2.2 f member e List.mem_cons_self
    rw [List.foldl_cons, insert_last above, ih _ (by simpa using sorted), List.append_assoc]
    rfl

theorem length_insert_le (k : κ) (v : α) (l : List (κ × α)) : (insert k v l).length ≤ l.length + 1 := by
  induction l with
  | nil => exact Nat.le_refl 1
  | cons e tail ih =>
    unfold insert
    split_ifs
    · exact Nat.le_refl _
    · exact Nat.le_succ _
    · exact Nat.succ_le_succ ih

theorem get?_insert (k : κ) (v : α) (l : List (κ × α)) (j : κ) :
    get? (insert k v l) j = if k = j then some v else get? l j := by
  induction l with
  | nil => simp [insert, get?]
  | cons head tail ih =>
    by_cases below : k < head.1
    · simp only [insert, if_pos below, get?_cons]
    · by_cases same : k = head.1
      · simp only [insert, if_neg below, if_pos same, get?_cons]
        by_cases target : k = j
        · rw [if_pos target, if_pos target]
        · rw [if_neg target, if_neg target, if_neg (fun h => target (same.trans h))]
      · simp only [insert, if_neg below, if_neg same, get?_cons, ih]
        by_cases target : k = j
        · rw [if_pos target, if_pos target, if_neg (fun h => same (target.trans h.symm))]
        · rw [if_neg target, if_neg target]

theorem get?_erase (l : List (κ × α)) (k j : κ) :
    get? (erase l k) j = if k = j then none else get? l j := by
  induction l with
  | nil => simp [erase, get?]
  | cons head tail ih =>
    by_cases dropped : head.1 = k
    · have shorter : erase (head :: tail) k = erase tail k := by simp [erase, dropped]
      rw [shorter, ih, get?_cons]
      by_cases target : k = j
      · simp [target]
      · rw [if_neg target, if_neg target, if_neg (fun h => target (dropped.symm.trans h))]
    · have kept : erase (head :: tail) k = head :: erase tail k := by simp [erase, dropped]
      rw [kept, get?_cons, get?_cons, ih]
      by_cases target : k = j
      · rw [if_pos target, if_pos target, if_neg (fun h => dropped (h.trans target.symm))]
      · rw [if_neg target, if_neg target]

theorem ext_get? {l m : List (κ × α)} (sortedL : Sorted l) (sortedM : Sorted m)
    (same : ∀ k, get? l k = get? m k) : l = m := by
  have members : ∀ e, e ∈ l ↔ e ∈ m := by
    rintro ⟨k, v⟩
    rw [mem_iff_get? sortedL, mem_iff_get? sortedM, same k]
  have nodupL : l.Nodup := sortedL.imp (fun h eq => (ne_of_lt h) (congrArg Prod.fst eq))
  have nodupM : m.Nodup := sortedM.imp (fun h eq => (ne_of_lt h) (congrArg Prod.fst eq))
  have perm : l.Perm m := (List.perm_ext_iff_of_nodup nodupL nodupM).mpr members
  have antisymmetric : ∀ a b : κ × α, a ∈ l → b ∈ m → a.1 < b.1 → b.1 < a.1 → a = b := by
    intro a b _ _ less more
    exact absurd (less.trans more) (lt_irrefl _)
  exact List.Perm.eq_of_pairwise antisymmetric sortedL sortedM perm

theorem le_getLast? {β : Type*} {r : β → β → Prop} {l : List β} (ordered : l.Pairwise r) {x : β}
    (last : l.getLast? = some x) : ∀ y ∈ l, y = x ∨ r y x := by
  obtain ⟨front, rfl⟩ := List.getLast?_eq_some_iff.mp last
  intro y present
  rcases List.mem_append.mp present with early | final
  · exact Or.inr ((List.pairwise_append.mp ordered).2.2 y early x (by simp))
  · exact Or.inl (by simpa using final)

end OrdMap.Raw

/-- A finite map from ordered keys, its entries strictly sorted. -/
structure OrdMap (κ α : Type*) [LinearOrder κ] where
  entries : List (κ × α)
  sorted : OrdMap.Raw.Sorted entries

namespace OrdMap
variable {κ α : Type*} [LinearOrder κ]

instance [DecidableEq α] : DecidableEq (OrdMap κ α) := fun a b =>
  decidable_of_iff (a.entries = b.entries) ⟨fun h => by cases a; cases b; cases h; rfl, fun h => h ▸ rfl⟩

def empty : OrdMap κ α := ⟨[], List.Pairwise.nil⟩

instance : EmptyCollection (OrdMap κ α) := ⟨empty⟩
instance : Inhabited (OrdMap κ α) := ⟨empty⟩

def get? (m : OrdMap κ α) (k : κ) : Option α := Raw.get? m.entries k

def contains (m : OrdMap κ α) (k : κ) : Bool := (m.get? k).isSome

def insert (m : OrdMap κ α) (k : κ) (v : α) : OrdMap κ α :=
  ⟨Raw.insert k v m.entries, Raw.sorted_insert k v m.sorted⟩

def erase (m : OrdMap κ α) (k : κ) : OrdMap κ α :=
  ⟨Raw.erase m.entries k, m.sorted.filter _⟩

/-- Keep the entries that satisfy a test. -/
def filter (m : OrdMap κ α) (keep : κ → α → Bool) : OrdMap κ α :=
  ⟨m.entries.filter (fun e => keep e.1 e.2), m.sorted.filter _⟩

/-- Rewrite every value in place. -/
def mapValues {β : Type*} (m : OrdMap κ α) (f : κ → α → β) : OrdMap κ β :=
  ⟨m.entries.map (fun e => (e.1, f e.1 e.2)), by
    have ordered := m.sorted
    unfold Raw.Sorted at ordered ⊢
    exact List.pairwise_map.mpr ordered⟩

/-- Rewrite the value at one key, if there is one. -/
def modify (m : OrdMap κ α) (k : κ) (f : α → α) : OrdMap κ α :=
  match m.get? k with
  | some v => m.insert k (f v)
  | none => m

def keys (m : OrdMap κ α) : List κ := m.entries.map Prod.fst

def size (m : OrdMap κ α) : Nat := m.entries.length

def isEmpty (m : OrdMap κ α) : Bool := m.entries.isEmpty

/-- The last entry whose key is at most `k`. -/
def floor? (m : OrdMap κ α) (k : κ) : Option (κ × α) :=
  (m.entries.filter (fun e => decide (e.1 ≤ k))).getLast?

/-- The last entry whose key is below `k`. -/
def below? (m : OrdMap κ α) (k : κ) : Option (κ × α) :=
  (m.entries.filter (fun e => decide (e.1 < k))).getLast?

theorem mem_entries_iff (m : OrdMap κ α) (k : κ) (v : α) : (k, v) ∈ m.entries ↔ m.get? k = some v :=
  Raw.mem_iff_get? m.sorted k v

@[ext] theorem ext_get? {m n : OrdMap κ α} (same : ∀ k, m.get? k = n.get? k) : m = n := by
  have entries : m.entries = n.entries := Raw.ext_get? m.sorted n.sorted same
  cases m
  cases n
  cases entries
  rfl

@[simp] theorem get?_empty (k : κ) : (∅ : OrdMap κ α).get? k = none := rfl

theorem foldl_insert_entries (m : OrdMap κ α) : m.entries.foldl (fun m e => m.insert e.1 e.2) ∅ = m := by
  have entries (l : List (κ × α)) (n : OrdMap κ α) :
      (l.foldl (fun m e => m.insert e.1 e.2) n).entries = l.foldl (fun m e => Raw.insert e.1 e.2 m) n.entries := by
    induction l generalizing n with
    | nil => rfl
    | cons e tail ih => exact ih (n.insert e.1 e.2)
  have whole := (entries m.entries ∅).trans (Raw.foldl_insert_sorted [] m.entries m.sorted)
  apply ext_get?
  intro k
  exact congrArg (fun l => Raw.get? l k) whole

theorem get?_insert (m : OrdMap κ α) (k j : κ) (v : α) :
    (m.insert k v).get? j = if k = j then some v else m.get? j :=
  Raw.get?_insert k v m.entries j

theorem get?_erase (m : OrdMap κ α) (k j : κ) :
    (m.erase k).get? j = if k = j then none else m.get? j :=
  Raw.get?_erase m.entries k j

theorem get?_of_erase {m : OrdMap κ α} {k j : κ} {v : α} (found : (m.erase k).get? j = some v) : m.get? j = some v := by
  rw [get?_erase] at found
  split at found
  · cases found
  · exact found

@[simp] theorem get?_insert_self (m : OrdMap κ α) (k : κ) (v : α) : (m.insert k v).get? k = some v := by
  rw [get?_insert, if_pos rfl]

@[simp] theorem get?_erase_self (m : OrdMap κ α) (k : κ) : (m.erase k).get? k = none := by
  rw [get?_erase, if_pos rfl]

theorem get?_insert_ne (m : OrdMap κ α) {k j : κ} (v : α) (other : k ≠ j) :
    (m.insert k v).get? j = m.get? j := by
  rw [get?_insert, if_neg other]

theorem get?_erase_ne (m : OrdMap κ α) {k j : κ} (other : k ≠ j) : (m.erase k).get? j = m.get? j := by
  rw [get?_erase, if_neg other]

theorem get?_modify (m : OrdMap κ α) (k j : κ) (f : α → α) :
    (m.modify k f).get? j = if k = j then (m.get? j).map f else m.get? j := by
  unfold modify
  cases found : m.get? k with
  | none =>
    by_cases target : k = j
    · simp [← target, found]
    · rw [if_neg target]
  | some v =>
    rw [get?_insert]
    by_cases target : k = j
    · simp [← target, found]
    · rw [if_neg target, if_neg target]

theorem get?_filter (m : OrdMap κ α) (keep : κ → α → Bool) (k : κ) :
    (m.filter keep).get? k = (m.get? k).filter (keep k) := by
  cases found : m.get? k with
  | none =>
    cases kept : (m.filter keep).get? k with
    | none => rfl
    | some v =>
      have present := (mem_entries_iff _ k v).mpr kept
      have original := (mem_entries_iff m k v).mp (List.mem_of_mem_filter present)
      simp [found] at original
  | some v =>
    have present := (mem_entries_iff m k v).mpr found
    by_cases wanted : keep k v = true
    · have member : (k, v) ∈ (m.filter keep).entries := List.mem_filter.mpr ⟨present, wanted⟩
      rw [(mem_entries_iff _ k v).mp member]
      simp [Option.filter, wanted]
    · have dropped : (some v).filter (keep k) = none := by simp [Option.filter, wanted]
      rw [dropped]
      cases kept : (m.filter keep).get? k with
      | none => rfl
      | some w =>
        have member := List.mem_filter.mp ((mem_entries_iff _ k w).mpr kept)
        have original := (mem_entries_iff m k w).mp member.1
        have same : v = w := by simpa [found] using original
        exact absurd (same ▸ member.2) wanted

theorem get?_mapValues {β : Type*} (m : OrdMap κ α) (f : κ → α → β) (k : κ) :
    (m.mapValues f).get? k = (m.get? k).map (f k) := by
  cases found : m.get? k with
  | some v =>
    have present := (mem_entries_iff m k v).mpr found
    exact (mem_entries_iff _ k (f k v)).mp (List.mem_map.mpr ⟨(k, v), present, rfl⟩)
  | none =>
    cases mapped : (m.mapValues f).get? k with
    | none => rfl
    | some w =>
      obtain ⟨⟨j, v⟩, present, same⟩ := List.mem_map.mp ((mem_entries_iff _ k w).mpr mapped)
      obtain ⟨rfl, -⟩ := Prod.mk.injEq .. ▸ same
      simp [(mem_entries_iff m j v).mp present] at found

theorem contains_iff (m : OrdMap κ α) (k : κ) : m.contains k = true ↔ ∃ v, m.get? k = some v := by
  simp [contains, Option.isSome_iff_exists]

theorem mem_keys_iff (m : OrdMap κ α) (k : κ) : k ∈ m.keys ↔ ∃ v, m.get? k = some v := by
  constructor
  · intro present
    obtain ⟨⟨j, v⟩, member, rfl⟩ := List.mem_map.mp present
    exact ⟨v, (mem_entries_iff m j v).mp member⟩
  · rintro ⟨v, found⟩
    exact List.mem_map.mpr ⟨(k, v), (mem_entries_iff m k v).mpr found, rfl⟩

theorem mem_keys_insert (m : OrdMap κ α) (k j : κ) (v : α) : j ∈ (m.insert k v).keys ↔ j = k ∨ j ∈ m.keys := by
  rw [mem_keys_iff, mem_keys_iff, get?_insert]
  split
  next same => simp [same]
  next other => simp [Ne.symm other]

theorem mem_keys_erase (m : OrdMap κ α) (k j : κ) : j ∈ (m.erase k).keys ↔ j ≠ k ∧ j ∈ m.keys := by
  rw [mem_keys_iff, mem_keys_iff, get?_erase]
  split
  next same => simp [same]
  next other => simp [Ne.symm other]

theorem mem_keys_modify (m : OrdMap κ α) (k j : κ) (f : α → α) : j ∈ (m.modify k f).keys ↔ j ∈ m.keys := by
  rw [mem_keys_iff, mem_keys_iff, get?_modify]
  split
  · simp
  · rfl

theorem keys_nodup (m : OrdMap κ α) : m.keys.Nodup := by
  have ordered := m.sorted
  unfold Raw.Sorted at ordered
  exact (List.pairwise_map.mpr ordered).imp fun below => ne_of_lt below

theorem isEmpty_iff (m : OrdMap κ α) : m.isEmpty = true ↔ ∀ k, m.get? k = none := by
  constructor
  · intro none_left k
    have entries : m.entries = [] := List.isEmpty_iff.mp none_left
    simp [get?, Raw.get?, entries]
  · intro absent
    refine List.isEmpty_iff.mpr (List.eq_nil_iff_forall_not_mem.mpr ?_)
    rintro ⟨k, v⟩ present
    have found := (mem_entries_iff m k v).mp present
    rw [absent k] at found
    cases found

/-- Erasing the first key drops the first entry. -/
theorem erase_head {m : OrdMap κ α} {k : κ} {v : α} {rest : List (κ × α)} (listed : m.entries = (k, v) :: rest) :
    (m.erase k).entries = rest := by
  have ordered := m.sorted
  rw [listed] at ordered
  have above := (List.pairwise_cons.mp ordered).1
  show m.entries.filter _ = rest
  rw [listed, List.filter_cons_of_neg (by simp), List.filter_eq_self]
  intro e member
  simpa using (ne_of_lt (above e member)).symm

theorem entries_erase_first (m : OrdMap κ α) (n : Nat) : ((m.keys.take n).foldl erase m).entries = m.entries.drop n := by
  induction n generalizing m with
  | zero => rfl
  | succ n ih =>
    cases listed : m.entries with
    | nil =>
      have keys : m.keys = [] := by rw [keys, listed, List.map_nil]
      rw [keys, List.take_nil, List.foldl_nil, listed, List.drop_nil]
    | cons e tail =>
      have rest : (m.erase e.1).entries = tail := erase_head listed
      have later := ih (m.erase e.1)
      rw [rest] at later
      have keys : m.keys = e.1 :: (m.erase e.1).keys := by rw [keys, keys, listed, rest, List.map_cons]
      rw [keys, List.take_succ_cons, List.foldl_cons, later, List.drop_succ_cons]

theorem floor?_eq_some {m : OrdMap κ α} {k j : κ} {v : α} (found : m.floor? k = some (j, v)) :
    m.get? j = some v ∧ j ≤ k ∧ ∀ i w, m.get? i = some w → i ≤ k → i ≤ j := by
  have member := List.mem_of_getLast? found
  obtain ⟨present, bound⟩ := List.mem_filter.mp member
  refine ⟨(mem_entries_iff m j v).mp present, by simpa using bound, ?_⟩
  intro i w other below
  have listed : (i, w) ∈ m.entries.filter (fun e => decide (e.1 ≤ k)) :=
    List.mem_filter.mpr ⟨(mem_entries_iff m i w).mpr other, by simpa using below⟩
  rcases Raw.le_getLast? (m.sorted.filter _) found (i, w) listed with same | earlier
  · exact le_of_eq (congrArg Prod.fst same)
  · exact le_of_lt earlier

theorem floor?_eq_none {m : OrdMap κ α} {k : κ} (missing : m.floor? k = none) (j : κ) (below : j ≤ k) :
    m.get? j = none := by
  have empty := List.getLast?_eq_none_iff.mp missing
  cases found : m.get? j with
  | none => rfl
  | some v =>
    have listed : (j, v) ∈ m.entries.filter (fun e => decide (e.1 ≤ k)) :=
      List.mem_filter.mpr ⟨(mem_entries_iff m j v).mpr found, by simpa using below⟩
    simp [empty] at listed

theorem below?_eq_some {m : OrdMap κ α} {k j : κ} {v : α} (found : m.below? k = some (j, v)) :
    m.get? j = some v ∧ j < k := by
  obtain ⟨present, bound⟩ := List.mem_filter.mp (List.mem_of_getLast? found)
  exact ⟨(mem_entries_iff m j v).mp present, by simpa using bound⟩

/-! ### Sums over the entries -/

/-- The sum of a weight over all entries. -/
def total (f : κ → α → Nat) (m : OrdMap κ α) : Nat := (m.entries.map (fun e => f e.1 e.2)).sum

theorem sum_erase {f : κ → α → Nat} {l : List (κ × α)} (sorted : Raw.Sorted l) {k : κ} {v : α}
    (found : Raw.get? l k = some v) :
    (l.map (fun e => f e.1 e.2)).sum = f k v + ((Raw.erase l k).map (fun e => f e.1 e.2)).sum := by
  induction l with
  | nil => cases found
  | cons e tail ih =>
    obtain ⟨above, rest⟩ := List.pairwise_cons.mp sorted
    rw [Raw.get?_cons] at found
    by_cases same : e.1 = k
    · rw [if_pos same] at found
      have untouched : Raw.erase tail k = tail := by
        refine List.filter_eq_self.mpr fun d member => ?_
        simpa [← same] using (ne_of_lt (above d member)).symm
      have dropped : Raw.erase (e :: tail) k = tail := by
        unfold Raw.erase at untouched ⊢
        rw [List.filter_cons_of_neg (by simp [same]), untouched]
      rw [dropped, List.map_cons, List.sum_cons, ← Option.some.inj found, same]
    · rw [if_neg same] at found
      have kept : Raw.erase (e :: tail) k = e :: Raw.erase tail k := List.filter_cons_of_pos (by simp [same])
      rw [kept, List.map_cons, List.map_cons, List.sum_cons, List.sum_cons, ih rest found]
      omega

variable {f g : κ → α → Nat} {m : OrdMap κ α} {k : κ}

@[simp] theorem total_empty (f : κ → α → Nat) : total f (∅ : OrdMap κ α) = 0 := rfl

theorem total_erase {v : α} (found : m.get? k = some v) : total f m = f k v + total f (m.erase k) :=
  sum_erase m.sorted found

theorem erase_of_absent (absent : m.get? k = none) : m.erase k = m := by
  ext j : 1
  rw [get?_erase]
  split_ifs with same
  · rw [← same, absent]
  · rfl

theorem total_insert (f : κ → α → Nat) (m : OrdMap κ α) (k : κ) (v : α) :
    total f (m.insert k v) = f k v + total f (m.erase k) := by
  have same : (m.insert k v).erase k = m.erase k := by
    ext j : 1
    rw [get?_erase, get?_erase, get?_insert]
    split_ifs <;> rfl
  rw [total_erase (get?_insert_self m k v), same]

theorem total_erase_le (f : κ → α → Nat) (m : OrdMap κ α) (k : κ) : total f (m.erase k) ≤ total f m := by
  cases found : m.get? k with
  | none => rw [erase_of_absent found]
  | some v =>
    rw [total_erase found]
    exact Nat.le_add_left _ _

theorem total_insert_le (f : κ → α → Nat) (m : OrdMap κ α) (k : κ) (v : α) :
    total f (m.insert k v) ≤ f k v + total f m := by
  rw [total_insert]
  exact Nat.add_le_add_left (total_erase_le f m k) _

theorem total_overwrite (f : κ → α → Nat) {u : α} (found : m.get? k = some u) (v : α) :
    total f (m.insert k v) + f k u = total f m + f k v := by
  rw [total_insert, total_erase found]
  omega

theorem total_modify {h : α → α} (same : ∀ v, f k (h v) = f k v) : total f (m.modify k h) = total f m := by
  unfold modify
  split
  next v found =>
    have exchanged := total_overwrite f found (h v)
    rw [same] at exchanged
    exact Nat.add_right_cancel exchanged
  next => rfl

theorem size_eq_total (m : OrdMap κ α) : m.size = total (fun _ _ => 1) m := by
  simp [size, total]

theorem size_insert_of_absent (absent : m.get? k = none) (v : α) : (m.insert k v).size = m.size + 1 := by
  rw [size_eq_total, total_insert, erase_of_absent absent, size_eq_total, Nat.add_comm]

theorem size_insert_of_present {u : α} (present : m.get? k = some u) (v : α) : (m.insert k v).size = m.size := by
  rw [size_eq_total, total_insert, size_eq_total, total_erase present]

theorem total_mapValues {β : Type*} (f : κ → β → Nat) (m : OrdMap κ α) (h : κ → α → β) :
    total f (m.mapValues h) = total (fun k a => f k (h k a)) m := by
  simp only [total, mapValues, List.map_map]
  rfl

theorem total_filter (f : κ → α → Nat) (m : OrdMap κ α) (keep : κ → α → Bool) :
    total f (m.filter keep) = total (fun k a => if keep k a then f k a else 0) m := by
  unfold total filter
  dsimp only
  induction m.entries with
  | nil => rfl
  | cons e tail ih =>
    rw [List.filter_cons]
    split_ifs with kept
    · simp [kept, ih]
    · simp [kept, ih]

theorem total_add (f g : κ → α → Nat) (m : OrdMap κ α) : total (fun k a => f k a + g k a) m = total f m + total g m :=
  List.sum_map_add

theorem total_indicator (m : OrdMap κ α) (p : κ → α → Bool) :
    total (fun k a => if p k a then 1 else 0) m = (m.entries.filter (fun e => p e.1 e.2)).length := by
  unfold total
  induction m.entries with
  | nil => rfl
  | cons e tail ih =>
    rw [List.map_cons, List.sum_cons, ih, List.filter_cons]
    split_ifs with counted
    · simp [counted, Nat.add_comm]
    · simp [counted]

theorem total_congr (same : ∀ j v, m.get? j = some v → f j v = g j v) : total f m = total g m := by
  unfold total
  refine congrArg List.sum (List.map_congr_left fun e member => ?_)
  exact same e.1 e.2 ((mem_entries_iff m e.1 e.2).mp member)

/-- A sum of bounded terms. -/
theorem total_le {n : Nat} (each : ∀ j v, m.get? j = some v → f j v ≤ n) : total f m ≤ m.size * n := by
  have listed : ∀ e ∈ m.entries, f e.1 e.2 ≤ n := fun e member => each e.1 e.2 ((mem_entries_iff m e.1 e.2).mp member)
  unfold total size
  generalize m.entries = l at listed
  induction l with
  | nil => exact Nat.zero_le _
  | cons e tail ih =>
    have first := listed e List.mem_cons_self
    have rest := ih fun d member => listed d (List.mem_cons_of_mem e member)
    rw [List.map_cons, List.sum_cons, List.length_cons, Nat.succ_mul]
    omega

/-! ### What a map shows of its values -/

section View
variable {β : Type*} (g : α → β)

/-- The part of each value that `g` shows. -/
def view (m : OrdMap κ α) (k : κ) : Option β := (m.get? k).map g

variable {g} {m : OrdMap κ α} {k : κ} {f : α → α} {h : β → β}

theorem view_insert (v : α) : view g (m.insert k v) = Function.update (view g m) k (some (g v)) := by
  funext j
  simp only [view, get?_insert, Function.update_apply, eq_comm (a := j)]
  split_ifs
  · rfl
  · rfl

theorem view_erase : view g (m.erase k) = Function.update (view g m) k none := by
  funext j
  simp only [view, get?_erase, Function.update_apply, eq_comm (a := j)]
  split_ifs
  · rfl
  · rfl

theorem view_modify (shows : ∀ a, g (f a) = h (g a)) :
    view g (m.modify k f) = fun j => if k = j then (view g m j).map h else view g m j := by
  funext j
  simp only [view, get?_modify]
  split_ifs
  · rw [Option.map_map, Option.map_map]
    exact congrArg (fun map => (m.get? j).map map) (funext shows)
  · rfl

/-- A change that does not show. -/
theorem view_modify_same (same : ∀ a, g (f a) = g a) : view g (m.modify k f) = view g m := by
  rw [view_modify (h := id) same]
  funext j
  rw [Option.map_id, id, ite_self]

theorem view_insert_same {u v : α} (found : m.get? k = some u) (same : g v = g u) :
    view g (m.insert k v) = view g m := by
  rw [view_insert, same, Function.update_eq_self_iff, view, found, Option.map_some]

theorem view_mapValues_same {f : κ → α → α} (same : ∀ j a, g (f j a) = g a) :
    view g (m.mapValues f) = view g m := by
  funext j
  simp only [view, get?_mapValues, Option.map_map]
  exact congrArg (fun map => (m.get? j).map map) (funext (same j))

end View
end OrdMap
