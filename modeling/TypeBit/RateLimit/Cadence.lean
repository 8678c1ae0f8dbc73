import Mathlib.Algebra.BigOperators.Ring.List
import Mathlib.Algebra.Order.BigOperators.Group.List
import Mathlib.Algebra.Order.Ring.Nat
import TypeBit.RateLimit

/-! What a token bucket earns. Every refill floors what it earned since the one before and moves the time base, so
polls at a fast cadence lose tokens that a single poll would have given. -/

namespace TypeBit.RateLimit

/-! ### Sums of floors -/

theorem sum_div_eq (k : Nat) (xs : List Nat) :
    xs.sum / k = (xs.map (· / k)).sum + (xs.map (· % k)).sum / k := by
  rcases Nat.eq_zero_or_pos k with rfl | positive
  · simp
  · have split : xs.sum = (xs.map (· % k)).sum + k * (xs.map (· / k)).sum := by
      induction xs with
      | nil => rfl
      | cons x tail ih =>
        have here := Nat.mod_add_div x k
        simp only [List.map_cons, List.sum_cons, Nat.mul_add]
        omega
    rw [split, Nat.add_mul_div_left _ _ positive, Nat.add_comm]

def gaps (last : Nat) : List Nat → List Nat
  | [] => []
  | t :: tail => (t - last) :: gaps (max last t) tail

theorem sum_gaps {polls : List Nat} {final : Nat} (last : Nat) (ordered : (polls ++ [final]).Pairwise (· ≤ ·)) :
    (gaps last (polls ++ [final])).sum = final - last := by
  induction polls generalizing last with
  | nil => simp [gaps]
  | cons t tail ih =>
    rw [List.cons_append, List.pairwise_cons] at ordered
    have before : t ≤ final := ordered.1 final (by simp)
    rw [List.cons_append, gaps, List.sum_cons, ih (max last t) ordered.2]
    omega

theorem clamp_le {x lo hi : Nat} (proper : lo ≤ hi) : clamp x lo hi ≤ hi := max_le proper (min_le_right x hi)

theorem burstCapacity_le {rateBps : Nat} (limited : 0 < rateBps) (policy : BurstPolicy) :
    burstCapacity rateBps policy ≤ 8 * 1024 * 1024 := by
  unfold burstCapacity
  rw [if_neg (by omega)]
  cases policy with
  | standard => exact clamp_le (by decide)
  | uploadTight => exact (clamp_le (by decide)).trans (by decide)

namespace TokenBucket

/-! ### Buckets -/

/-- The buckets that the operations produce. -/
inductive Made : TokenBucket → Prop
  | withPolicy (rateBps : Nat) (policy : BurstPolicy) (now : Nat) : Made (withPolicy rateBps policy now)
  | setRate {b : TokenBucket} (made : Made b) (rateBps now : Nat) : Made (b.setRate rateBps now)
  | available {b : TokenBucket} (made : Made b) (now : Nat) : Made (b.available now).2
  | consume {b : TokenBucket} (made : Made b) (want now : Nat) : Made (b.consume want now).2

/-- The burst follows the rate, and the bucket holds no more than it. -/
structure Sized (b : TokenBucket) : Prop where
  capacity : b.capacity = burstCapacity b.rateBps b.policy
  filled : b.tokens ≤ b.capacity

def earned (b : TokenBucket) (now : Nat) : Nat := satMul (now - b.last) b.rateBps / 1000

section Refill
variable {b : TokenBucket}

theorem Sized.refill (sized : Sized b) (now : Nat) : Sized (b.refill now) := by
  unfold TokenBucket.refill
  split
  · exact sized
  · exact ⟨sized.capacity, min_le_left _ _⟩

theorem rateBps_refill (b : TokenBucket) (now : Nat) : (b.refill now).rateBps = b.rateBps := by
  unfold refill
  split <;> rfl

theorem policy_refill (b : TokenBucket) (now : Nat) : (b.refill now).policy = b.policy := by
  unfold refill
  split <;> rfl

theorem capacity_refill (b : TokenBucket) (now : Nat) : (b.refill now).capacity = b.capacity := by
  unfold refill
  split <;> rfl

theorem last_refill (limited : 0 < b.rateBps) (now : Nat) : (b.refill now).last = max b.last now := by
  unfold refill
  split
  next idle =>
    have early : now ≤ b.last := idle.resolve_left (by omega)
    exact (max_eq_left early).symm
  next due =>
    have late : b.last < now := Nat.lt_of_not_le fun early => due (Or.inr early)
    exact (max_eq_right late.le).symm

theorem tokens_refill (sized : Sized b) (limited : 0 < b.rateBps) (now : Nat) :
    (b.refill now).tokens = min b.capacity (b.tokens + b.earned now) := by
  have small := burstCapacity_le limited b.policy
  rw [← sized.capacity] at small
  have filled := sized.filled
  unfold refill
  split
  next idle =>
    have early : now ≤ b.last := idle.resolve_left (by omega)
    have nothing : b.earned now = 0 := by simp [earned, satMul, Nat.sub_eq_zero_of_le early]
    rw [nothing]
    omega
  next due =>
    change min b.capacity (satAdd b.tokens (b.earned now)) = _
    unfold satAdd
    omega

theorem consume_eq (limited : 0 < b.rateBps) (want now : Nat) :
    b.consume want now = (min want (b.refill now).tokens,
      { b.refill now with tokens := (b.refill now).tokens - min want (b.refill now).tokens }) :=
  if_neg (by omega)

theorem available_eq (limited : 0 < b.rateBps) (now : Nat) :
    b.available now = ((b.refill now).tokens, b.refill now) := if_neg (by omega)

theorem Sized.consume (sized : Sized b) (want now : Nat) : Sized (b.consume want now).2 := by
  rcases Nat.eq_zero_or_pos b.rateBps with unlimited | limited
  · rw [TokenBucket.consume, if_pos unlimited]
    exact sized
  · rw [consume_eq limited]
    have later := sized.refill now
    exact ⟨later.capacity, (Nat.sub_le _ _).trans later.filled⟩

theorem Made.sized (made : Made b) : Sized b := by
  induction made with
  | withPolicy rateBps policy now => exact ⟨rfl, le_refl _⟩
  | setRate made rateBps now ih =>
    rename_i b
    refine ⟨?_, min_le_right _ _⟩
    change burstCapacity rateBps (b.refill now).policy = burstCapacity rateBps (b.refill now).policy
    rfl
  | available made now ih =>
    unfold TokenBucket.available
    split
    · exact ih
    · exact ih.refill now
  | consume made want now ih => exact ih.consume want now

end Refill

/-! ### Polls -/

def pollAll (polls : List Nat) (b : TokenBucket) : TokenBucket := polls.foldl (fun b t => (b.available t).2) b

def floors (b : TokenBucket) (polls : List Nat) : Nat :=
  ((gaps b.last polls).map (fun gap => satMul gap b.rateBps / 1000)).sum

def remainders (b : TokenBucket) (polls : List Nat) : Nat :=
  ((gaps b.last polls).map (fun gap => gap * b.rateBps % 1000)).sum

variable {b : TokenBucket}

theorem tokens_pollAll (sized : Sized b) (limited : 0 < b.rateBps) (polls : List Nat) :
    (pollAll polls b).tokens = min b.capacity (b.tokens + b.floors polls) := by
  induction polls generalizing b with
  | nil =>
    have filled := sized.filled
    simp only [pollAll, floors, gaps, List.foldl_nil, List.map_nil, List.sum_nil]
    omega
  | cons t tail ih =>
    have rate := rateBps_refill b t
    have later := ih (sized.refill t) (rate ▸ limited)
    have last := last_refill limited t
    have first := tokens_refill sized limited t
    rw [capacity_refill, first, floors, rate, last] at later
    change (pollAll tail (b.available t).2).tokens = _
    rw [available_eq limited, later, floors, gaps, List.map_cons, List.sum_cons, earned]
    omega

/-- Polls give as much as a single one at the end exactly when they fill the bucket, or the remainders they cut off
come to less than one token. -/
theorem polls_agree_iff (b : TokenBucket) (made : Made b) (limited : 0 < b.rateBps) (polls : List Nat) (final : Nat)
    (ordered : (polls ++ [final]).Pairwise (· ≤ ·)) :
    (pollAll (polls ++ [final]) b).tokens = (b.available final).2.tokens ↔
      b.capacity ≤ b.tokens + b.floors (polls ++ [final]) ∨ b.remainders (polls ++ [final]) < 1000 := by
  have sized := made.sized
  have small := burstCapacity_le limited b.policy
  rw [← sized.capacity] at small
  have filled := sized.filled
  have whole := sum_gaps b.last ordered
  rw [available_eq limited, tokens_pollAll sized limited, tokens_refill sized limited, earned, ← whole]
  unfold floors remainders
  generalize gaps b.last (polls ++ [final]) = elapsed
  have total : elapsed.sum * b.rateBps = (elapsed.map (· * b.rateBps)).sum := by
    have each := List.sum_map_mul_right elapsed id b.rateBps
    rw [List.map_id] at each
    exact each.symm
  by_cases huge : ∃ gap ∈ elapsed, U64_MAX < gap * b.rateBps
  · -- one gap alone fills the bucket
    obtain ⟨gap, member, exceeds⟩ := huge
    have alone : U64_MAX / 1000 ≤ (elapsed.map (fun gap => satMul gap b.rateBps / 1000)).sum := by
      refine le_trans ?_ (List.single_le_sum (fun _ _ => Nat.zero_le _) _ (List.mem_map_of_mem member))
      rw [satMul, min_eq_right exceeds.le]
    have least : gap * b.rateBps ≤ elapsed.sum * b.rateBps :=
      Nat.mul_le_mul_right _ (List.single_le_sum (fun _ _ => Nat.zero_le _) _ member)
    have single : satMul elapsed.sum b.rateBps / 1000 = U64_MAX / 1000 := by rw [satMul, min_eq_right (exceeds.le.trans least)]
    have plenty : 8 * 1024 * 1024 ≤ U64_MAX / 1000 := by decide
    rw [single]
    omega
  · have exact : elapsed.map (fun gap => satMul gap b.rateBps / 1000) = (elapsed.map (· * b.rateBps)).map (· / 1000) := by
      rw [List.map_map]
      refine List.map_congr_left fun gap member => ?_
      have fits : gap * b.rateBps ≤ U64_MAX := Nat.le_of_not_lt fun exceeds => huge ⟨gap, member, exceeds⟩
      rw [satMul, min_eq_left fits]
      rfl
    have cut : elapsed.map (fun gap => gap * b.rateBps % 1000) = (elapsed.map (· * b.rateBps)).map (· % 1000) := by
      rw [List.map_map]
      rfl
    have parts := sum_div_eq 1000 (elapsed.map (· * b.rateBps))
    rw [exact, cut, satMul, total]
    have plenty : 8 * 1024 * 1024 ≤ U64_MAX / 1000 := by decide
    omega

def emptied : TokenBucket := ((new 1500 0).consume (64 * 1024) 0).2

theorem polls_agree_iff_emptied :
    (pollAll ([2] ++ [4]) emptied).tokens = (emptied.available 4).2.tokens ↔
      emptied.capacity ≤ emptied.tokens + emptied.floors ([2] ++ [4]) ∨ emptied.remainders ([2] ++ [4]) < 1000 :=
  polls_agree_iff emptied (.consume (.withPolicy 1500 .standard 0) (64 * 1024) 0) (by decide) [2] 4 (by decide)

/-- Polled after each of two milliseconds it has two tokens, polled once after both it has three. -/
theorem polls_lose_tokens : ¬ ∀ (b : TokenBucket) (polls : List Nat) (final : Nat), Made b → 0 < b.rateBps →
    (polls ++ [final]).Pairwise (· ≤ ·) → (pollAll (polls ++ [final]) b).tokens = (b.available final).2.tokens := by
  intro always
  have same := always emptied [1] 2 (.consume (.withPolicy 1500 .standard 0) (64 * 1024) 0) (by decide) (by decide)
  exact absurd same (by decide)

end TokenBucket
end TypeBit.RateLimit
