import TypeBit.RateLimit.Cadence

/-! The ceiling of an upload bucket: what it grants within one second. The burst is meant to be the allowed overshoot
of the rate, but it is never below 4 KiB. -/

namespace TypeBit.RateLimit
namespace TokenBucket

/-- One `consume`: how many bytes, and when. -/
structure Call where
  want : Nat
  now : Nat
  deriving DecidableEq, Repr

def grants : List Call → TokenBucket → List (Nat × Nat)
  | [], _ => []
  | c :: tail, b => (c.now, (b.consume c.want c.now).1) :: grants tail (b.consume c.want c.now).2

def window (start : Nat) (granted : List (Nat × Nat)) : Nat :=
  ((granted.filter (fun g => decide (start ≤ g.1 ∧ g.1 ≤ start + 1000))).map Prod.snd).sum

/-- Every second stays within the rate and its tolerance. -/
def KeepsCeiling (b : TokenBucket) (calls : List Call) : Prop :=
  ∀ start, window start (grants calls b) ≤ b.rateBps + b.rateBps * uploadToleranceHalfPct b.rateBps / 200

section Window
variable {b : TokenBucket}

theorem rateBps_consume (b : TokenBucket) (want now : Nat) : (b.consume want now).2.rateBps = b.rateBps := by
  unfold consume
  split
  · rfl
  · exact rateBps_refill b now

theorem capacity_consume (b : TokenBucket) (want now : Nat) : (b.consume want now).2.capacity = b.capacity := by
  unfold consume
  split
  · rfl
  · exact capacity_refill b now

theorem consume_spends (sized : Sized b) (limited : 0 < b.rateBps) (want now : Nat) :
    (b.consume want now).1 + (b.consume want now).2.tokens ≤ b.tokens + min b.capacity (b.earned now) := by
  have refilled := tokens_refill sized limited now
  have filled := sized.filled
  rw [consume_eq limited]
  dsimp only
  omega

theorem last_consume (limited : 0 < b.rateBps) (want now : Nat) : (b.consume want now).2.last = max b.last now := by
  rw [consume_eq limited]
  exact last_refill limited now

/-- Every refill loses at least `loss` thousandths of a token: to the floor, or because the bucket is full. -/
def Loses (b : TokenBucket) (loss : Nat) : Prop :=
  ∀ gap, 0 < gap → 1000 * min b.capacity (gap * b.rateBps / 1000) + loss ≤ gap * b.rateBps

theorem loses_nothing (b : TokenBucket) : Loses b 0 := by
  intro gap _
  omega

theorem call_of_grant {calls : List Call} {g : Nat × Nat} (member : g ∈ grants calls b) : ∃ c ∈ calls, g.1 = c.now := by
  induction calls generalizing b with
  | nil => cases member
  | cons c tail ih =>
    rcases List.mem_cons.mp member with rfl | later
    · exact ⟨c, List.mem_cons_self, rfl⟩
    · obtain ⟨d, among, same⟩ := ih later
      exact ⟨d, List.mem_cons_of_mem c among, same⟩

theorem granted_le {calls : List Call} {loss : Nat} (loses : Loses b loss) (sized : Sized b) (limited : 0 < b.rateBps)
    (ordered : calls.Pairwise (·.now ≤ ·.now)) (stop : Nat) :
    (((grants calls b).filter (fun g => decide (g.1 ≤ stop))).map Prod.snd).sum ≤
      b.tokens + ((stop - b.last) * b.rateBps - loss) / 1000 := by
  induction calls generalizing b with
  | nil => exact Nat.zero_le _
  | cons c tail ih =>
    obtain ⟨first, rest⟩ := List.pairwise_cons.mp ordered
    have still : Loses (b.consume c.want c.now).2 loss := by
      unfold Loses
      rw [capacity_consume, rateBps_consume]
      exact loses
    have later := ih still (sized.consume c.want c.now) (rateBps_consume b c.want c.now ▸ limited) rest
    rw [rateBps_consume, last_consume limited] at later
    rw [grants]
    by_cases inside : c.now ≤ stop
    · have spent := consume_spends sized limited c.want c.now
      have cut : b.earned c.now ≤ (c.now - b.last) * b.rateBps / 1000 := Nat.div_le_div_right (min_le_left _ _)
      have whole : (c.now - b.last) * b.rateBps + (stop - max b.last c.now) * b.rateBps = (stop - b.last) * b.rateBps := by
        rw [← Nat.add_mul]
        congr 1
        omega
      have lost : 0 < c.now - b.last →
          1000 * min b.capacity ((c.now - b.last) * b.rateBps / 1000) + loss ≤ (c.now - b.last) * b.rateBps :=
        loses (c.now - b.last)
      rw [List.filter_cons_of_pos (by simpa using inside), List.map_cons, List.sum_cons]
      rcases Nat.eq_zero_or_pos (c.now - b.last) with none | some
      · rw [none] at cut whole
        omega
      · have lost := loses (c.now - b.last) some
        omega
    · have none : (grants tail (b.consume c.want c.now).2).filter (fun g => decide (g.1 ≤ stop)) = [] := by
        rw [List.filter_eq_nil_iff]
        intro g member
        obtain ⟨d, among, same⟩ := call_of_grant member
        have after := first d among
        simp only [decide_eq_true_eq]
        omega
      rw [List.filter_cons_of_neg (by simpa using inside), none]
      exact Nat.zero_le _

theorem consume_refill (limited : 0 < b.rateBps) (want now : Nat) : (b.refill now).consume want now = b.consume want now := by
  have again : (b.refill now).refill now = b.refill now := by
    refine if_pos (Or.inr ?_)
    rw [last_refill limited]
    exact le_max_right _ _
  rw [consume_eq limited, consume_eq (rateBps_refill b now ▸ limited), again]

theorem window_le {calls : List Call} {loss : Nat} (loses : Loses b loss) (sized : Sized b) (limited : 0 < b.rateBps)
    (ordered : calls.Pairwise (·.now ≤ ·.now)) (start : Nat) :
    window start (grants calls b) ≤ b.capacity + (1000 * b.rateBps - loss) / 1000 := by
  induction calls generalizing b with
  | nil => exact Nat.zero_le _
  | cons c tail ih =>
    obtain ⟨first, rest⟩ := List.pairwise_cons.mp ordered
    by_cases begun : start ≤ c.now
    · -- the window opens with this call, which may find the bucket full
      have late : ∀ g ∈ grants (c :: tail) b, start ≤ g.1 := by
        intro g member
        obtain ⟨d, among, same⟩ := call_of_grant member
        rw [same]
        rcases List.mem_cons.mp among with rfl | later
        · exact begun
        · exact begun.trans (first d later)
      have upTo : window start (grants (c :: tail) b) =
          (((grants (c :: tail) b).filter (fun g => decide (g.1 ≤ start + 1000))).map Prod.snd).sum := by
        rw [window, List.filter_congr fun g member => decide_eq_decide.mpr (and_iff_right (late g member))]
      have refilled : grants (c :: tail) b = grants (c :: tail) (b.refill c.now) := by
        rw [grants, grants, consume_refill limited]
      have still : Loses (b.refill c.now) loss := by
        unfold Loses
        rw [capacity_refill, rateBps_refill]
        exact loses
      have bound := granted_le still (sized.refill c.now) (rateBps_refill b c.now ▸ limited) ordered (start + 1000)
      rw [← refilled, ← upTo, rateBps_refill, last_refill limited] at bound
      have full := (sized.refill c.now).filled
      rw [capacity_refill] at full
      have second : (start + 1000 - max b.last c.now) * b.rateBps ≤ 1000 * b.rateBps :=
        Nat.mul_le_mul_right _ (by omega)
      omega
    · have still : Loses (b.consume c.want c.now).2 loss := by
        unfold Loses
        rw [capacity_consume, rateBps_consume]
        exact loses
      have later := ih still (sized.consume c.want c.now) (rateBps_consume b c.want c.now ▸ limited) rest
      rw [capacity_consume, rateBps_consume] at later
      have skipped : window start (grants (c :: tail) b) = window start (grants tail (b.consume c.want c.now).2) := by
        rw [window, grants, List.filter_cons_of_neg (by simpa using fun now => absurd now begun)]
        rfl
      exact skipped ▸ later

end Window

/-! ### The burst of an upload bucket -/

theorem burst_le_tolerance {rateBps : Nat} (enough : 40960 ≤ rateBps) :
    burstCapacity rateBps .uploadTight ≤ rateBps * uploadToleranceHalfPct rateBps / 200 := by
  have least : 819200 ≤ rateBps * uploadToleranceHalfPct rateBps := by
    unfold uploadToleranceHalfPct
    dsimp only
    split
    · omega
    next fast =>
      -- the tolerance is above 4 % until the rate reaches 750 KiB per second, and never below 1 %
      by_cases slow : rateBps / 1024 < 750
      · have high : 8 ≤ max (20 - (rateBps / 1024 - 100) / 50) 2 := by omega
        calc
          819200 = 102400 * 8 := rfl
          _ ≤ rateBps * _ := Nat.mul_le_mul (by omega) high
      · have floor : 2 ≤ max (20 - (rateBps / 1024 - 100) / 50) 2 := le_max_right _ _
        calc
          819200 ≤ 768000 * 2 := by decide
          _ ≤ rateBps * _ := Nat.mul_le_mul (by omega) floor
  have cut : satMul rateBps (uploadToleranceHalfPct rateBps) ≤ rateBps * uploadToleranceHalfPct rateBps := min_le_left _ _
  unfold burstCapacity
  rw [if_neg (by omega)]
  dsimp only
  unfold clamp
  omega

theorem tolerance_of_slow {rateBps : Nat} (slow : rateBps < 40960) : uploadToleranceHalfPct rateBps = 20 := if_pos (by omega)

theorem burst_of_slow {rateBps : Nat} (limited : 0 < rateBps) (slow : rateBps < 40960) :
    burstCapacity rateBps .uploadTight = 4096 := by
  have cut : satMul rateBps 20 = rateBps * 20 := min_eq_left (by unfold U64_MAX; omega)
  unfold burstCapacity
  rw [if_neg (by omega), tolerance_of_slow slow]
  dsimp only
  rw [cut]
  unfold clamp
  omega

theorem loses_of_odd {b : TokenBucket} (low : 40951 ≤ b.rateBps) (high : b.rateBps < 40960) (burst : b.capacity = 4096) :
    Loses b 1 := by
  intro gap positive
  rw [burst]
  by_cases short : gap ≤ 100
  · have inexact : ∀ r < 9, ∀ g < 101, 0 < g → g * (40951 + r) % 1000 ≠ 0 := by decide
    have cut := inexact (b.rateBps - 40951) (by omega) gap (by omega) positive
    rw [Nat.add_sub_cancel' low] at cut
    omega
  · have least : 101 * 40951 ≤ gap * b.rateBps := Nat.mul_le_mul (by omega) low
    omega

/-! ### Draining a slow bucket -/

def drainAfter (last : Nat) : List Nat → List Call
  | [] => []
  | gap :: tail => ⟨4096, last + gap⟩ :: drainAfter (last + gap) tail

def dry (rateBps last : Nat) : TokenBucket := ⟨4096, 0, rateBps, .uploadTight, last⟩

theorem grants_drainAfter {rateBps : Nat} (limited : 0 < rateBps) {elapsed : List Nat}
    (short : ∀ gap ∈ elapsed, 0 < gap ∧ gap * rateBps / 1000 ≤ 4096) (last : Nat) :
    ((grants (drainAfter last elapsed) (dry rateBps last)).map Prod.snd).sum =
      (elapsed.map (fun gap => gap * rateBps / 1000)).sum ∧
    ∀ g ∈ grants (drainAfter last elapsed) (dry rateBps last), g.1 ≤ last + elapsed.sum := by
  induction elapsed generalizing last with
  | nil => exact ⟨rfl, fun g member => by cases member⟩
  | cons gap tail ih =>
    obtain ⟨positive, fits⟩ := short gap List.mem_cons_self
    have small : gap * rateBps ≤ U64_MAX := by unfold U64_MAX; omega
    have refilled : (dry rateBps last).refill (last + gap) =
        { dry rateBps (last + gap) with tokens := gap * rateBps / 1000 } := by
      have whole : satAdd 0 (gap * rateBps / 1000) = gap * rateBps / 1000 := by
        unfold satAdd
        omega
      unfold refill
      rw [if_neg (by dsimp only [dry]; omega)]
      dsimp only [dry]
      rw [Nat.add_sub_cancel_left, satMul, min_eq_left small, whole, min_eq_right fits]
    have drained : (dry rateBps last).consume 4096 (last + gap) = (gap * rateBps / 1000, dry rateBps (last + gap)) := by
      rw [consume_eq limited, refilled]
      dsimp only
      rw [min_eq_right fits, Nat.sub_self]
      rfl
    obtain ⟨total, times⟩ := ih (fun g member => short g (List.mem_cons_of_mem gap member)) (last + gap)
    rw [drainAfter, grants]
    dsimp only
    rw [drained]
    refine ⟨?_, ?_⟩
    · rw [List.map_cons, List.sum_cons, List.map_cons, List.sum_cons, total]
    · intro g member
      rw [List.sum_cons]
      rcases List.mem_cons.mp member with rfl | later
      · exact Nat.add_le_add_left (Nat.le_add_right gap _) last
      · have before := times g later
        omega

theorem ordered_drainAfter (last : Nat) (elapsed : List Nat) :
    (∀ c ∈ drainAfter last elapsed, last ≤ c.now) ∧ (drainAfter last elapsed).Pairwise (·.now ≤ ·.now) := by
  induction elapsed generalizing last with
  | nil => exact ⟨(fun c member => nomatch member), List.Pairwise.nil⟩
  | cons gap tail ih =>
    obtain ⟨late, ordered⟩ := ih (last + gap)
    refine ⟨?_, List.pairwise_cons.mpr ⟨late, ordered⟩⟩
    intro c member
    rcases List.mem_cons.mp member with rfl | later
    · exact Nat.le_add_right last gap
    · exact (Nat.le_add_right last gap).trans (late c later)

theorem window_drained {rateBps : Nat} (limited : 0 < rateBps) (slow : rateBps < 40960) {elapsed : List Nat}
    (short : ∀ gap ∈ elapsed, 0 < gap ∧ gap * rateBps / 1000 ≤ 4096) (second : elapsed.sum ≤ 1000) :
    window 0 (grants (⟨4096, 0⟩ :: drainAfter 0 elapsed) (newUpload rateBps 0)) =
      4096 + (elapsed.map (fun gap => gap * rateBps / 1000)).sum := by
  have burst := burst_of_slow limited slow
  have first : (newUpload rateBps 0).consume 4096 0 = (4096, dry rateBps 0) := by
    have still : (newUpload rateBps 0).refill 0 = newUpload rateBps 0 := if_pos (Or.inr (le_refl 0))
    rw [consume_eq limited, still, newUpload, withPolicy, burst]
    dsimp only
    rw [min_self, Nat.sub_self]
    rfl
  obtain ⟨total, times⟩ := grants_drainAfter limited short 0
  rw [grants]
  dsimp only
  rw [first, window, List.filter_eq_self.mpr]
  · rw [List.map_cons, List.sum_cons, total]
  · intro g member
    rcases List.mem_cons.mp member with rfl | later
    · rfl
    · have before := times g later
      simp only [decide_eq_true_eq]
      omega

/-- Gaps that leave little of a second unused: tenths at most rates, and near 40 KiB per second gaps that end just
after a whole token was earned. -/
def drainGap (rateBps : Nat) : Nat := if rateBps < 40870 then 100 else 5000 / (41000 - rateBps)

def drainGaps (rateBps : Nat) : List Nat := List.replicate (1000 / drainGap rateBps) (drainGap rateBps) ++
  if 1000 % drainGap rateBps = 0 then [] else [1000 % drainGap rateBps]

theorem drainGaps_exceed {rateBps : Nat} (slow : rateBps ≤ 40950) :
    (drainGaps rateBps).sum ≤ 1000 ∧ (∀ gap ∈ drainGaps rateBps, 0 < gap ∧ gap * rateBps / 1000 ≤ 4096) ∧
      rateBps + rateBps * 20 / 200 < 4096 + ((drainGaps rateBps).map (fun gap => gap * rateBps / 1000)).sum := by
  by_cases tenths : rateBps < 40870
  · have gap : drainGaps rateBps = List.replicate 10 100 := by
      rw [drainGaps, drainGap, if_pos tenths]
      rfl
    rw [gap]
    refine ⟨by decide, fun g member => ?_, ?_⟩
    · rw [List.eq_of_mem_replicate member]
      omega
    · rw [List.map_replicate, List.sum_replicate_nat]
      omega
  · have near : ∀ r < 81, (drainGaps (40870 + r)).sum ≤ 1000 ∧
        (∀ gap ∈ drainGaps (40870 + r), 0 < gap ∧ gap * (40870 + r) / 1000 ≤ 4096) ∧
        40870 + r + (40870 + r) * 20 / 200 < 4096 + ((drainGaps (40870 + r)).map (fun gap => gap * (40870 + r) / 1000)).sum := by
      decide
    have here := near (rateBps - 40870) (by omega)
    rw [Nat.add_sub_cancel' (by omega)] at here
    exact here

/-! ### The ceiling -/

/-- Every upload bucket of a rate keeps the ceiling in every second exactly when the rate is at least 40951 bytes per
second. -/
theorem upload_ceiling_iff (rateBps : Nat) (limited : 0 < rateBps) :
    (∀ (b : TokenBucket) (calls : List Call), Made b → b.policy = .uploadTight → b.rateBps = rateBps →
        calls.Pairwise (·.now ≤ ·.now) → KeepsCeiling b calls) ↔ 40951 ≤ rateBps := by
  constructor
  · intro keeps
    by_contra slow
    have below : rateBps ≤ 40950 := by omega
    obtain ⟨second, short, exceed⟩ := drainGaps_exceed below
    obtain ⟨late, ordered⟩ := ordered_drainAfter 0 (drainGaps rateBps)
    have bound := keeps (newUpload rateBps 0) (⟨4096, 0⟩ :: drainAfter 0 (drainGaps rateBps)) (.withPolicy _ _ _) rfl rfl
      (List.pairwise_cons.mpr ⟨late, ordered⟩) 0
    rw [window_drained limited (by omega) short second, show (newUpload rateBps 0).rateBps = rateBps from rfl,
      tolerance_of_slow (by omega)] at bound
    omega
  · rintro enough b calls made tight rfl ordered start
    have sized := made.sized
    have capacity : b.capacity = burstCapacity b.rateBps .uploadTight := tight ▸ sized.capacity
    by_cases odd : b.rateBps < 40960
    · have burst : b.capacity = 4096 := capacity.trans (burst_of_slow limited odd)
      have bound := window_le (loses_of_odd enough odd burst) sized limited ordered start
      rw [tolerance_of_slow odd]
      omega
    · have bound := window_le (loses_nothing b) sized limited ordered start
      have burst := burst_le_tolerance (Nat.le_of_not_lt odd)
      omega

theorem upload_ceiling_iff_100KiB :
    (∀ (b : TokenBucket) (calls : List Call), Made b → b.policy = .uploadTight → b.rateBps = 102400 →
        calls.Pairwise (·.now ≤ ·.now) → KeepsCeiling b calls) ↔ 40951 ≤ 102400 :=
  upload_ceiling_iff 102400 (by decide)

/-- A bucket of 10 KiB per second gives 4 KiB at once and 1 KiB in each tenth of the second that follows. -/
theorem upload_ceiling_broken : ¬ ∀ (b : TokenBucket) (calls : List Call), Made b → b.policy = .uploadTight →
    0 < b.rateBps → calls.Pairwise (·.now ≤ ·.now) → KeepsCeiling b calls := by
  intro always
  have keeps := always (newUpload 10240 0) (⟨4096, 0⟩ :: drainAfter 0 (List.replicate 10 100)) (.withPolicy _ _ _) rfl
    (by decide) (by decide) 0
  exact absurd keeps (by decide)

end TokenBucket
end TypeBit.RateLimit
