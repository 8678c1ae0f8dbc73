import Mathlib.Algebra.Order.Ring.Int
import Mathlib.Data.List.Perm.Basic
import Mathlib.Tactic.Common

/-! Workers with a queue each. A job goes to the worker of its slot, a worker takes its jobs one at a time, and what it
has finished waits until it is collected. The workers take their steps in any order. -/

namespace Workers
variable {J R : Type*}

/-- One worker: the jobs sent to it, the one it is at, and the results it has sent back. -/
structure Worker (J R : Type*) where
  inbox : List J := []
  busy : Option J := none
  outbox : List R := []

namespace Worker

def submit (w : Worker J R) (j : J) : Worker J R := { w with inbox := w.inbox ++ [j] }

/-- The next job is taken, unless the worker is at one or none waits. -/
def recv (w : Worker J R) : Worker J R :=
  match w.busy, w.inbox with
  | none, j :: rest => { w with inbox := rest, busy := some j }
  | _, _ => w

/-- The job at hand is finished. -/
def send (work : J → R) (w : Worker J R) : Worker J R :=
  match w.busy with
  | some j => { w with busy := none, outbox := w.outbox ++ [work j] }
  | none => w

/-- The results of all jobs that the worker was sent and that were not collected, the oldest first. -/
def owed (work : J → R) (w : Worker J R) : List R := w.outbox ++ (w.busy.toList ++ w.inbox).map work

variable (work : J → R) (w : Worker J R)

@[simp] theorem owed_submit (j : J) : (w.submit j).owed work = w.owed work ++ [work j] := by
  simp [submit, owed]

@[simp] theorem owed_recv : w.recv.owed work = w.owed work := by
  unfold recv
  split
  next idle waiting => simp [owed, idle, waiting]
  next => rfl

@[simp] theorem owed_send : (w.send work).owed work = w.owed work := by
  unfold send
  split
  next at_it => simp [owed, at_it]
  next => rfl

/-- The steps the worker still has to take until all its results are collected. -/
def left : Nat := 3 * w.inbox.length + 2 * w.busy.toList.length + w.outbox.length

theorem recv_cases : (w.recv = w ∧ (w.busy = none → w.inbox = [])) ∨ w.recv.left < w.left := by
  unfold recv
  split
  next idle waiting => exact Or.inr (by simp [left, idle, waiting]; omega)
  next stuck =>
    refine Or.inl ⟨rfl, fun idle => ?_⟩
    cases waiting : w.inbox with
    | nil => rfl
    | cons j rest => exact absurd waiting (stuck j rest idle)

theorem send_cases : (w.send work = w ∧ w.busy = none) ∨ (w.send work).left < w.left := by
  unfold send
  split
  next at_it => exact Or.inr (by simp [left, at_it]; omega)
  next idle => exact Or.inl ⟨rfl, idle⟩

end Worker

/-- The results are looked for worker by worker; the first one found is collected. -/
def poll : List (Worker J R) → Option R × List (Worker J R)
  | [] => (none, [])
  | w :: rest =>
      match w.outbox with
      | r :: later => (some r, { w with outbox := later } :: rest)
      | [] => ((poll rest).1, w :: (poll rest).2)

/-- What is collected was the oldest result of a worker. -/
theorem poll_cases (ws : List (Worker J R)) :
    (poll ws = (none, ws) ∧ ∀ w ∈ ws, w.outbox = []) ∨
      ∃ k w r later, ws[k]? = some w ∧ w.outbox = r :: later ∧
        poll ws = (some r, ws.set k { w with outbox := later }) := by
  induction ws with
  | nil => exact Or.inl ⟨rfl, by simp⟩
  | cons w ws ih =>
    cases filled : w.outbox with
    | cons r later => exact Or.inr ⟨0, w, r, later, rfl, filled, by simp [poll, filled]⟩
    | nil =>
      rcases ih with ⟨none_found, empty⟩ | ⟨k, v, r, later, held, oldest, found⟩
      · exact Or.inl ⟨by simp [poll, filled, none_found], by simpa [filled] using empty⟩
      · exact Or.inr ⟨k + 1, v, r, later, by simpa using held, oldest, by simp [poll, filled, found]⟩

/-- What happens at a pool: a job is sent to a worker, a worker takes a job or finishes it, or a result is collected. -/
inductive Action (J : Type*) where
  | submit (j : J)
  | recv (i : Nat)
  | send (i : Nat)
  | poll

/-- A pool with the jobs it was sent and the results that were collected, the oldest first. -/
structure Log (J R : Type*) where
  pool : List (Worker J R)
  jobs : List J := []
  results : List R := []

section run
variable (work : J → R) (slot : J → Nat)

def Log.act (l : Log J R) : Action J → Log J R
  | .submit j => { l with pool := l.pool.modify (slot j) (·.submit j), jobs := l.jobs ++ [j] }
  | .recv i => { l with pool := l.pool.modify i (·.recv) }
  | .send i => { l with pool := l.pool.modify i (·.send work) }
  | .poll => { l with pool := (Workers.poll l.pool).2, results := l.results ++ (Workers.poll l.pool).1.toList }

/-- A pool of `n` idle workers. -/
def fresh (n : Nat) : Log J R := { pool := List.replicate n {} }

def run (n : Nat) (actions : List (Action J)) : Log J R := actions.foldl (Log.act work slot) (fresh n)

end run

/-! ### In the slot of a worker -/

section slots
variable {work : J → R} {slot : J → Nat} {slotOf : R → Nat}

/-- In the slot of each worker, the results collected and owed are those of the jobs sent to it, in their order. -/
def Balanced (work : J → R) (slot : J → Nat) (slotOf : R → Nat) (l : Log J R) : Prop :=
  ∀ i w, l.pool[i]? = some w →
    l.results.filter (slotOf · = i) ++ w.owed work = (l.jobs.filter (slot · = i)).map work

theorem Balanced.slotOf_owed {l : Log J R} (balanced : Balanced work slot slotOf l) (agree : ∀ j, slotOf (work j) = slot j)
    {i : Nat} {w : Worker J R} (held : l.pool[i]? = some w) {r : R} (owes : r ∈ w.owed work) : slotOf r = i := by
  have sent : r ∈ (l.jobs.filter (slot · = i)).map work := by
    rw [← balanced i w held]
    exact List.mem_append_right _ owes
  obtain ⟨j, chosen, rfl⟩ := List.mem_map.mp sent
  rw [agree]
  simpa using (List.mem_filter.mp chosen).2

/-- A worker that does a step of its own owes the same. -/
theorem Balanced.modify {l : Log J R} (balanced : Balanced work slot slotOf l) (k : Nat) {f : Worker J R → Worker J R}
    (same : ∀ w, (f w).owed work = w.owed work) : Balanced work slot slotOf { l with pool := l.pool.modify k f } := by
  intro i v held
  rw [List.getElem?_modify] at held
  obtain ⟨w, before, rfl⟩ := Option.map_eq_some_iff.mp held
  rw [← balanced i w before]
  split <;> simp [same]

theorem Balanced.act {l : Log J R} (balanced : Balanced work slot slotOf l) (agree : ∀ j, slotOf (work j) = slot j)
    (a : Action J) : Balanced work slot slotOf (l.act work slot a) := by
  cases a with
  | recv k => exact balanced.modify k (Worker.owed_recv work)
  | send k => exact balanced.modify k (Worker.owed_send work)
  | submit j =>
    intro i v held
    change (l.pool.modify (slot j) (·.submit j))[i]? = some v at held
    rw [List.getElem?_modify] at held
    obtain ⟨w, before, rfl⟩ := Option.map_eq_some_iff.mp held
    change l.results.filter (slotOf · = i) ++ _ = ((l.jobs ++ [j]).filter (slot · = i)).map work
    rw [List.filter_append, List.map_append, ← balanced i w before]
    split
    next here => simp [here]
    next other => simp [other]
  | poll =>
    rcases poll_cases l.pool with ⟨none_found, -⟩ | ⟨k, w, r, later, held, oldest, found⟩
    · have same : l.act work slot .poll = l := by simp [Log.act, none_found]
      rw [same]
      exact balanced
    · have owes : w.owed work = r :: ({ w with outbox := later } : Worker J R).owed work := by simp [Worker.owed, oldest]
      have mine : slotOf r = k := balanced.slotOf_owed agree held (by simp [owes])
      intro i v now
      change (Workers.poll l.pool).2[i]? = some v at now
      change (l.results ++ (Workers.poll l.pool).1.toList).filter (slotOf · = i) ++ _ = (l.jobs.filter (slot · = i)).map work
      rw [found] at now ⊢
      rw [List.getElem?_set] at now
      split at now
      next here =>
        subst here
        have kept : v = { w with outbox := later } := by
          split at now
          · exact (Option.some.inj now).symm
          · cases now
        rw [← balanced k w held, owes, kept]
        simp [mine]
      next other =>
        rw [← balanced i v now]
        simp [mine, other]

theorem balanced_run (agree : ∀ j, slotOf (work j) = slot j) (n : Nat) (actions : List (Action J)) :
    Balanced work slot slotOf (run work slot n actions) := by
  have start : Balanced work slot slotOf (fresh n : Log J R) := by
    intro i w held
    have idle : w = {} := List.eq_of_mem_replicate (List.mem_of_getElem? held)
    simp [fresh, idle, Worker.owed]
  exact List.foldlRecOn actions _ start fun l balanced a _ => balanced.act agree a

end slots

/-! ### Over all workers -/

section all
variable (work : J → R) (slot : J → Nat)

/-- What the workers owe, worker by worker. -/
def owed (ws : List (Worker J R)) : List R := ws.flatMap (·.owed work)

theorem owed_modify (ws : List (Worker J R)) (i : Nat) {f : Worker J R → Worker J R}
    (same : ∀ w, (f w).owed work = w.owed work) : owed work (ws.modify i f) = owed work ws := by
  induction ws generalizing i with
  | nil => cases i <;> rfl
  | cons w ws ih =>
    cases i with
    | zero => simp [owed, same]
    | succ i => simpa [owed] using ih i

theorem owed_submit {ws : List (Worker J R)} {i : Nat} (inside : i < ws.length) (j : J) :
    (owed work (ws.modify i (·.submit j))).Perm (owed work ws ++ [work j]) := by
  induction ws generalizing i with
  | nil => cases inside
  | cons w ws ih =>
    cases i with
    | zero =>
      simp only [owed, List.modify_zero_cons, List.flatMap_cons, Worker.owed_submit, List.append_assoc]
      exact List.perm_append_comm.append_left _
    | succ i =>
      simp only [owed, List.modify_succ_cons, List.flatMap_cons, List.append_assoc]
      exact (ih (Nat.lt_of_succ_lt_succ inside)).append_left _

theorem owed_poll (ws : List (Worker J R)) : ((poll ws).1.toList ++ owed work (poll ws).2).Perm (owed work ws) := by
  induction ws with
  | nil => exact .refl _
  | cons w ws ih =>
    unfold poll
    split
    next r later oldest => simp [owed, Worker.owed, oldest]
    next =>
      simp only [owed, List.flatMap_cons] at ih ⊢
      apply List.Perm.trans _ (ih.append_left _)
      rw [← List.append_assoc, ← List.append_assoc]
      exact List.perm_append_comm.append_right _

theorem length_act (l : Log J R) (a : Action J) : (l.act work slot a).pool.length = l.pool.length := by
  cases a with
  | submit j => simp [Log.act]
  | recv i => simp [Log.act]
  | send i => simp [Log.act]
  | poll =>
    rcases poll_cases l.pool with ⟨found, -⟩ | ⟨k, w, r, later, -, -, found⟩
    · simp [Log.act, found]
    · simp [Log.act, found]

theorem length_run (n : Nat) (actions : List (Action J)) : (run work slot n actions).pool.length = n := by
  refine List.foldlRecOn (motive := fun l : Log J R => l.pool.length = n) actions _ List.length_replicate ?_
  intro l length a _
  exact (length_act work slot l a).trans length

/-- No result is lost and none comes twice. -/
def Conserved (l : Log J R) : Prop := (l.results ++ owed work l.pool).Perm (l.jobs.map work)

variable {work slot}

theorem Conserved.act {l : Log J R} (conserved : Conserved work l) (inside : ∀ j, slot j < l.pool.length) (a : Action J) :
    Conserved work (l.act work slot a) := by
  cases a with
  | recv i =>
    unfold Conserved Log.act
    rw [owed_modify work _ _ (Worker.owed_recv work)]
    exact conserved
  | send i =>
    unfold Conserved Log.act
    rw [owed_modify work _ _ (Worker.owed_send work)]
    exact conserved
  | submit j =>
    unfold Conserved Log.act
    rw [List.map_append]
    apply ((owed_submit work (inside j) j).append_left _).trans
    rw [← List.append_assoc]
    exact conserved.append_right _
  | poll =>
    unfold Conserved Log.act
    rw [List.append_assoc]
    exact ((owed_poll work l.pool).append_left _).trans conserved

theorem conserved_run {n : Nat} (inside : ∀ j, slot j < n) (actions : List (Action J)) :
    Conserved work (run work slot n actions) := by
  have start : (fresh n : Log J R).pool.length = n ∧ Conserved work (fresh n : Log J R) := by
    refine ⟨List.length_replicate, ?_⟩
    simp [Conserved, owed, fresh, Worker.owed]
  refine (List.foldlRecOn (motive := fun l : Log J R => l.pool.length = n ∧ Conserved work l) actions _ start ?_).2
  intro l both a _
  obtain ⟨length, conserved⟩ := both
  exact ⟨(length_act work slot l a).trans length, conserved.act (fun j => length ▸ inside j) a⟩

end all

/-! ### To the end -/

section progress
variable {work : J → R} {slot : J → Nat}

/-- The steps that are left to take. -/
def left (ws : List (Worker J R)) : Nat := (ws.map Worker.left).sum

theorem left_modify (ws : List (Worker J R)) (i : Nat) {f : Worker J R → Worker J R}
    (lower : ∀ w, f w = w ∨ (f w).left < w.left) : ws.modify i f = ws ∨ left (ws.modify i f) < left ws := by
  induction ws generalizing i with
  | nil => exact Or.inl (by cases i <;> rfl)
  | cons w ws ih =>
    cases i with
    | zero =>
      rcases lower w with same | less
      · exact Or.inl (by simp [same])
      · exact Or.inr (by simpa [left] using less)
    | succ i =>
      rcases ih i with same | less
      · exact Or.inl (by simp [same])
      · exact Or.inr (by simpa [left] using less)

theorem left_set {ws : List (Worker J R)} {k : Nat} {w : Worker J R} (held : ws[k]? = some w) (v : Worker J R) :
    left (ws.set k v) + w.left = left ws + v.left := by
  induction ws generalizing k with
  | nil => cases held
  | cons u ws ih =>
    cases k with
    | zero =>
      cases held
      simp only [left, List.set_cons_zero, List.map_cons, List.sum_cons]
      omega
    | succ k =>
      have rest := ih held
      simp only [left, List.set_cons_succ, List.map_cons, List.sum_cons] at rest ⊢
      omega

/-- A step other than a submission changes nothing or is one step less to take. -/
theorem left_act (l : Log J R) {a : Action J} (inner : ∀ j, a ≠ .submit j) :
    l.act work slot a = l ∨ left (l.act work slot a).pool < left l.pool := by
  cases a with
  | submit j => exact absurd rfl (inner j)
  | recv i =>
    rcases left_modify l.pool i (fun w => w.recv_cases.imp_left And.left) with same | less
    · exact Or.inl (by simp [Log.act, same])
    · exact Or.inr less
  | send i =>
    rcases left_modify l.pool i (fun w => (w.send_cases work).imp_left And.left) with same | less
    · exact Or.inl (by simp [Log.act, same])
    · exact Or.inr less
  | poll =>
    rcases poll_cases l.pool with ⟨found, -⟩ | ⟨k, w, r, later, held, oldest, found⟩
    · exact Or.inl (by simp [Log.act, found])
    · right
      have moved := left_set held { w with outbox := later }
      have one : w.left = ({ w with outbox := later } : Worker J R).left + 1 := by simp [Worker.left, oldest, Nat.add_assoc]
      simp only [Log.act, found]
      omega

/-- Where no step changes anything, nothing is owed. -/
theorem owed_of_stuck {l : Log J R} (stuck : ∀ a, (∀ j, a ≠ Action.submit j) → l.act work slot a = l) :
    owed work l.pool = [] := by
  have collected : ∀ w ∈ l.pool, w.outbox = [] := by
    rcases poll_cases l.pool with ⟨-, empty⟩ | ⟨k, w, r, later, -, -, found⟩
    · exact empty
    · have same := congrArg Log.results (stuck .poll (by simp))
      simp [Log.act, found] at same
  have still : ∀ (f : Worker J R → Worker J R) (a : Nat → Action J), (∀ i j, a i ≠ .submit j) →
      (∀ i, (l.act work slot (a i)).pool = l.pool.modify i f) → ∀ w ∈ l.pool, f w = w := by
    intro f a inner stepped w member
    obtain ⟨i, held⟩ := List.mem_iff_getElem?.mp member
    have same : l.pool.modify i f = l.pool := by rw [← stepped i, stuck (a i) (inner i)]
    have now := congrArg (·[i]?) same
    simpa [List.getElem?_modify, held] using now
  apply List.flatMap_eq_nil_iff.mpr
  intro w member
  have idle : w.busy = none := by
    have same := still (·.send work) .send (by simp) (fun i => rfl) w member
    exact ((w.send_cases work).resolve_right (by simp [same])).2
  have drained : w.inbox = [] := by
    have same := still (·.recv) .recv (by simp) (fun i => rfl) w member
    exact (w.recv_cases.resolve_right (by simp [same])).2 idle
  simp [Worker.owed, collected w member, idle, drained]

end progress

end Workers
