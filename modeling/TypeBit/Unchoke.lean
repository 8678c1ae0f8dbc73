import Mathlib.Data.List.Sort
import TypeBit.Leech

/-! The choke scheduler of `leech.rs`: who is blocked for good, how a peer is scored, and which peers are unchoked.
Scores are 64-bit; plain additions and products wrap, as in a release build. -/

namespace TypeBit.Leech

/-- The choke policy: the part of `LeechConfig` that the scheduler reads. -/
structure ChokeConfig extends LeechConfig where
  seedingSlots : Nat
  leechingSlots : Nat
  corruptScorePenalty : Int
  snubScorePenalty : Int
  leechUploadWeight : Int
  seedReciprocityWeight : Int
  nonrecipPenalty : Int
  freeRidePenalty : Int
  minSharePermyriad : Nat
  freeRideFloorBytes : Nat
  clientLeechPenalty : Int
  blockLeechClients : Bool
  antiFlapThreshold : Int
  recipGraceMs : Nat
  maxReciprocityReward : Int
  idleSlotTimeoutMs : Nat
  idleSlotPenalty : Int
  deriving DecidableEq

def ChokeConfig.default : ChokeConfig where
  toLeechConfig := .default
  seedingSlots := 8
  leechingSlots := 8
  corruptScorePenalty := 2000000
  snubScorePenalty := 4000000
  leechUploadWeight := 64
  seedReciprocityWeight := 4
  nonrecipPenalty := 1000000
  freeRidePenalty := 2000000
  minSharePermyriad := 100
  freeRideFloorBytes := 1024 * 1024
  clientLeechPenalty := 200000
  blockLeechClients := true
  antiFlapThreshold := 16000
  recipGraceMs := 45000
  maxReciprocityReward := 1000000
  idleSlotTimeoutMs := 60000
  idleSlotPenalty := 1500000

structure PeerChokeView where
  id : ConnId
  source : DiscoverySource
  client : Option ClientId
  given : Nat
  taken : Nat
  rateUp : Nat
  corrupt : Nat
  snubbed : Bool
  interested : Bool
  ageMs : Nat
  idleMs : Nat
  servedRequests : Nat
  deriving DecidableEq

/-! ### The score of a peer -/

def I64_MAX : Int := 2 ^ 63 - 1
def I64_MIN : Int := -2 ^ 63

def wrap64 (x : Int) : Int := x.bmod (2 ^ 64)

def sat64 (x : Int) : Int := max I64_MIN (min x I64_MAX)

def permyriad (numer denom : Nat) : Nat :=
  if denom = 0 then 2 ^ 32 - 1 else min (min (numer * 10000) (2 ^ 64 - 1) / denom) (2 ^ 32 - 1)

def isLeech (v : PeerChokeView) : Bool :=
  match v.client with
  | some c => decide (c.cls = .leech)
  | none => false

def hardBlocked (cfg : ChokeConfig) (v : PeerChokeView) : Bool :=
  if !cfg.blockLeechClients then false
  else if !isLeech v then false
  else if v.source = .lsd then false
  else if v.ageMs < cfg.recipGraceMs then false
  else decide (v.given < cfg.freeRideFloorBytes)

def reciprocity (cfg : ChokeConfig) (seeding : Bool) (v : PeerChokeView) : Int :=
  let pastGrace := decide (cfg.recipGraceMs ≤ v.ageMs)
  if seeding then
    let rateTerm := (wrap64 (v.rateUp * cfg.seedReciprocityWeight)).tdiv 1024
    let recip := min (sat64 (sat64 ((v.given / 1024 : Nat) * cfg.seedReciprocityWeight) + rateTerm)) cfg.maxReciprocityReward
    let s := wrap64 (0 + recip)
    if pastGrace ∧ cfg.freeRideFloorBytes ≤ v.taken ∧ permyriad v.given v.taken < cfg.minSharePermyriad then
      wrap64 (s - cfg.freeRidePenalty)
    else s
  else
    let rateTerm := (wrap64 (v.rateUp * cfg.leechUploadWeight)).tdiv 1024
    let s := wrap64 (0 + min rateTerm cfg.maxReciprocityReward)
    if pastGrace ∧ cfg.freeRideFloorBytes ≤ v.taken ∧ v.given = 0 then wrap64 (s - cfg.nonrecipPenalty) else s

def chokeScore (cfg : ChokeConfig) (seeding : Bool) (v : PeerChokeView) : Int :=
  if hardBlocked cfg v then I64_MIN.tdiv 4
  else
    let s := reciprocity cfg seeding v
    let idle := decide (v.interested ∧ cfg.recipGraceMs ≤ v.ageMs ∧ v.servedRequests = 0 ∧ cfg.idleSlotTimeoutMs ≤ v.idleMs)
    let s := if idle then wrap64 (s - cfg.idleSlotPenalty) else s
    let s := wrap64 (s - wrap64 (v.corrupt * cfg.corruptScorePenalty))
    let s := if v.snubbed then wrap64 (s - cfg.snubScorePenalty) else s
    if isLeech v ∧ v.source ≠ .lsd then wrap64 (s - cfg.clientLeechPenalty) else s

/-! ### The selection -/

structure Cand where
  id : ConnId
  score : Int
  deriving DecidableEq

def Cand.Before (a b : Cand) : Prop := b.score < a.score ∨ a.score = b.score ∧ a.id ≤ b.id

instance : DecidableRel Cand.Before := fun _ _ => inferInstanceAs (Decidable (_ ∨ _))

def eligible (cfg : ChokeConfig) (seeding : Bool) (v : PeerChokeView) : Bool :=
  (v.interested || !seeding) && !hardBlocked cfg v

def PeerChokeView.cand (cfg : ChokeConfig) (seeding : Bool) (v : PeerChokeView) : Cand := ⟨v.id, chokeScore cfg seeding v⟩

def candidates (views : List PeerChokeView) (seeding : Bool) (cfg : ChokeConfig) : List Cand :=
  ((views.filter (eligible cfg seeding)).map (PeerChokeView.cand cfg seeding)).insertionSort Cand.Before

def slots (seeding : Bool) (cfg : ChokeConfig) : Nat := if seeding then cfg.seedingSlots else cfg.leechingSlots

def sound (views : List PeerChokeView) (cfg : ChokeConfig) (id : ConnId) : Bool :=
  match views.find? (fun v => decide (v.id = id)) with
  | some v => !v.snubbed && decide (v.corrupt < cfg.corruptBanThreshold)
  | none => false

def reserved (views : List PeerChokeView) (cfg : ChokeConfig) (cands : List Cand) (optimistic : Option ConnId) :
    List ConnId :=
  match optimistic with
  | some o => if cands.any (fun c => decide (c.id = o)) && sound views cfg o then [o] else []
  | none => []

section Passes
variable (slots : Nat) (threshold : Int) (current : ConnId → Bool) (optimistic : Option ConnId) (cands : List Cand)

def keepIncumbents : List Cand → List ConnId → List ConnId
  | [], result => result
  | c :: rest, result =>
      if slots ≤ result.length then result
      else
        keepIncumbents rest
          (if current c.id && decide (optimistic ≠ some c.id) && !result.contains c.id then result ++ [c.id] else result)

def scoreOf (id : ConnId) : Option Int := (cands.find? (fun c => decide (c.id = id))).map (·.score)

def weakest (result : List ConnId) : Option Int :=
  ((result.filter fun id => decide (optimistic ≠ some id)).filterMap (scoreOf cands)).min?

def beats (score w : Int) : Bool :=
  if 0 < threshold then decide (sat64 (w + threshold) ≤ score) else decide (w < score)

/-- Offer a slot to one more candidate: a free one, or that of the weakest holder if the candidate beats it. -/
def offer (result : List ConnId) (c : Cand) : List ConnId :=
  if result.contains c.id || current c.id then result
  else if result.length < slots then result ++ [c.id]
  else
    match weakest optimistic cands result with
    | none => result
    | some w =>
        if beats threshold c.score w then
          match result.find? (fun id => decide (optimistic ≠ some id) && decide ((scoreOf cands id).getD I64_MIN = w)) with
          | some wid => result.filter (fun id => decide (id ≠ wid)) ++ [c.id]
          | none => result
        else result

end Passes

def heldSlots (views : List PeerChokeView) (seeding : Bool) (cfg : ChokeConfig) (current : ConnId → Bool)
    (optimistic : Option ConnId) : List ConnId :=
  if slots seeding cfg = 0 ∨ views = [] then []
  else
    let cands := candidates views seeding cfg
    keepIncumbents (slots seeding cfg) current optimistic cands (reserved views cfg cands optimistic)

def selectUnchokeSet (views : List PeerChokeView) (seeding : Bool) (cfg : ChokeConfig) (current : ConnId → Bool)
    (optimistic : Option ConnId) : List ConnId :=
  if slots seeding cfg = 0 ∨ views = [] then []
  else
    let cands := candidates views seeding cfg
    cands.foldl (offer (slots seeding cfg) cfg.antiFlapThreshold current optimistic cands)
      (heldSlots views seeding cfg current optimistic)

/-! ### Scores are 64-bit -/

def InRange (x : Int) : Prop := I64_MIN ≤ x ∧ x ≤ I64_MAX

theorem inRange_wrap64 (x : Int) : InRange (wrap64 x) := by
  have low : -((2 ^ 64 : Nat) / 2 : Int) ≤ x.bmod (2 ^ 64) := Int.le_bmod (by decide)
  have high : x.bmod (2 ^ 64) < ((2 ^ 64 : Nat) + 1) / 2 := Int.bmod_lt (by decide)
  unfold InRange wrap64 I64_MIN I64_MAX
  omega

theorem inRange_chokeScore (cfg : ChokeConfig) (seeding : Bool) (v : PeerChokeView) : InRange (chokeScore cfg seeding v) := by
  unfold chokeScore
  split
  · exact ⟨by decide, by decide⟩
  dsimp only
  split
  · exact inRange_wrap64 _
  split
  · exact inRange_wrap64 _
  · exact inRange_wrap64 _

/-- Beating a score by the threshold, over the integers. -/
def BeatsBy (threshold score w : Int) : Prop := if 0 < threshold then w + threshold ≤ score else w < score

instance (threshold score w : Int) : Decidable (BeatsBy threshold score w) :=
  inferInstanceAs (Decidable (if 0 < threshold then w + threshold ≤ score else w < score))

theorem BeatsBy.lower {threshold score w lower : Int} (above : BeatsBy threshold score w) (le : lower ≤ w) :
    BeatsBy threshold score lower := by
  unfold BeatsBy at above ⊢
  split at above
  next positive =>
    rw [if_pos positive]
    omega
  next other =>
    rw [if_neg other]
    omega

theorem beats_of_beatsBy {threshold score w : Int} (above : BeatsBy threshold score w) (range : InRange w) :
    beats threshold score w = true := by
  obtain ⟨low, -⟩ := range
  unfold BeatsBy at above
  unfold beats sat64
  split at above
  next positive =>
    rw [if_pos positive, decide_eq_true_eq]
    omega
  next other =>
    rw [if_neg other, decide_eq_true_eq]
    omega

theorem le_of_beats {threshold score w : Int} (above : beats threshold score w = true) (range : InRange w) : w ≤ score := by
  obtain ⟨low, high⟩ := range
  unfold beats sat64 at above
  split at above
  · have reached := of_decide_eq_true above
    omega
  · have reached := of_decide_eq_true above
    omega

theorem not_beatsBy_of_le {threshold score w : Int} (le : score ≤ w) : ¬ BeatsBy threshold score w := by
  unfold BeatsBy
  split
  · omega
  · omega

/-! ### The passes over the candidates -/

section Selection
variable {slots : Nat} {threshold : Int} {current : ConnId → Bool} {optimistic : Option ConnId} {cands : List Cand}

variable {id : ConnId} {s : Int}

theorem scoreOf_eq_some (found : scoreOf cands id = some s) : ∃ c ∈ cands, c.id = id ∧ c.score = s := by
  obtain ⟨c, first, same⟩ := Option.map_eq_some_iff.mp found
  have matched := List.find?_some first
  exact ⟨c, List.mem_of_find?_eq_some first, of_decide_eq_true matched, same⟩

theorem scoreOf_isSome (known : id ∈ cands.map (·.id)) : ∃ s, scoreOf cands id = some s := by
  obtain ⟨c, listed, rfl⟩ := List.mem_map.mp known
  have found : (cands.find? (fun d => decide (d.id = c.id))).isSome = true := by
    rw [List.find?_isSome]
    exact ⟨c, listed, decide_eq_true rfl⟩
  obtain ⟨d, first⟩ := Option.isSome_iff_exists.mp found
  exact ⟨d.score, by rw [scoreOf, first]; rfl⟩

theorem scoreOf_cand (distinct : (cands.map (·.id)).Nodup) {c : Cand} (listed : c ∈ cands) :
    scoreOf cands c.id = some c.score := by
  obtain ⟨s, found⟩ := scoreOf_isSome (List.mem_map_of_mem listed)
  obtain ⟨d, there, sameId, sameScore⟩ := scoreOf_eq_some found
  have same := List.inj_on_of_nodup_map distinct there listed sameId
  rw [found, ← sameScore, same]

variable {result : List ConnId}

theorem mem_holderScores : s ∈ (result.filter fun id => decide (optimistic ≠ some id)).filterMap (scoreOf cands) ↔
      ∃ id ∈ result, optimistic ≠ some id ∧ scoreOf cands id = some s := by
  rw [List.mem_filterMap]
  constructor
  · intro ⟨id, kept, score⟩
    obtain ⟨listed, other⟩ := List.mem_filter.mp kept
    exact ⟨id, listed, of_decide_eq_true other, score⟩
  · intro ⟨id, listed, other, score⟩
    exact ⟨id, List.mem_filter.mpr ⟨listed, decide_eq_true other⟩, score⟩

theorem weakest_spec {w : Int} (lowest : weakest optimistic cands result = some w) :
    (∃ id ∈ result, optimistic ≠ some id ∧ scoreOf cands id = some w) ∧
      ∀ id ∈ result, optimistic ≠ some id → ∀ s, scoreOf cands id = some s → w ≤ s := by
  unfold weakest at lowest
  obtain ⟨attained, least⟩ := List.min?_eq_some_iff.mp lowest
  refine ⟨mem_holderScores.mp attained, ?_⟩
  intro id listed other s score
  exact least s (mem_holderScores.mpr ⟨id, listed, other, score⟩)

theorem weakest_none (lowest : weakest optimistic cands result = none)
    (listed : id ∈ result) (other : optimistic ≠ some id) : scoreOf cands id ≠ some s := by
  intro score
  have member := mem_holderScores.mpr ⟨id, listed, other, score⟩
  unfold weakest at lowest
  rw [List.min?_eq_none_iff.mp lowest] at member
  cases member

theorem offer_cases (known : ∀ id ∈ result, id ∈ cands.map (·.id)) (c : Cand) :
    (c.id ∈ result ∨ current c.id = true) ∧ offer slots threshold current optimistic cands result c = result ∨
    (c.id ∉ result ∧ current c.id = false) ∧
      (result.length < slots ∧ offer slots threshold current optimistic cands result c = result ++ [c.id] ∨
      slots ≤ result.length ∧ (∀ w, weakest optimistic cands result = some w → beats threshold c.score w = false) ∧
        offer slots threshold current optimistic cands result c = result ∨
      slots ≤ result.length ∧ ∃ w wid, weakest optimistic cands result = some w ∧ beats threshold c.score w = true ∧
        wid ∈ result ∧ optimistic ≠ some wid ∧ scoreOf cands wid = some w ∧
        offer slots threshold current optimistic cands result c = result.filter (fun id => decide (id ≠ wid)) ++ [c.id]) := by
  unfold offer
  split
  next skipped =>
    left
    refine ⟨?_, rfl⟩
    rcases Bool.or_eq_true_iff.mp skipped with holds | incumbent
    · exact Or.inl (List.contains_iff_mem.mp holds)
    · exact Or.inr incumbent
  next fresh =>
    right
    have fresh : c.id ∉ result ∧ current c.id = false := by simpa using fresh
    refine ⟨fresh, ?_⟩
    split
    next free => exact Or.inl ⟨free, rfl⟩
    next full =>
      right
      have full : slots ≤ result.length := Nat.le_of_not_lt full
      cases lowest : weakest optimistic cands result with
      | none =>
        left
        refine ⟨full, ?_, rfl⟩
        intro w wrong
        cases wrong
      | some w =>
        dsimp only
        split
        next above =>
          right
          obtain ⟨⟨id, listed, other, score⟩, -⟩ := weakest_spec lowest
          refine ⟨full, w, ?_⟩
          cases found : result.find? (fun id => decide (optimistic ≠ some id) && decide ((scoreOf cands id).getD I64_MIN = w)) with
          | none =>
            have missed := List.find?_eq_none.mp found id listed
            simp [other, score] at missed
          | some wid =>
            have there := List.mem_of_find?_eq_some found
            have matched := List.find?_some found
            obtain ⟨apart, same⟩ := Bool.and_eq_true_iff.mp matched
            obtain ⟨s, known⟩ := scoreOf_isSome (known wid there)
            have same := of_decide_eq_true same
            rw [known, Option.getD_some] at same
            exact ⟨wid, rfl, above, there, of_decide_eq_true apart, by rw [known, same], rfl⟩
        next below =>
          left
          refine ⟨full, ?_, rfl⟩
          intro v same
          cases same
          exact Bool.eq_false_of_not_eq_true below

theorem length_replace (distinct : result.Nodup) {wid : ConnId} (held : wid ∈ result) (id : ConnId) :
    (result.filter (fun id => decide (id ≠ wid)) ++ [id]).length = result.length := by
  have erased : result.filter (fun id => decide (id ≠ wid)) = result.erase wid := by
    rw [distinct.erase_eq_filter]
    apply List.filter_congr
    intro id _
    exact decide_not
  have positive := List.length_pos_of_mem held
  rw [erased, List.length_append, List.length_erase_of_mem held, List.length_singleton]
  omega

/-- The holders while the candidates are offered slots, after some of them have been. -/
structure Holding (slots : Nat) (threshold : Int) (current : ConnId → Bool) (optimistic : Option ConnId) (cands seen : List Cand)
    (result : List ConnId) : Prop where
  offered : ∀ c ∈ seen, c ∈ cands
  distinct : result.Nodup
  known : ∀ id ∈ result, id ∈ cands.map (·.id)
  room : result.length ≤ slots
  /-- A newcomer is left out only when the slots are full of peers that it does not beat. -/
  passed : ∀ c ∈ seen, current c.id = false → c.id ∉ result → result.length = slots ∧
    ∀ id ∈ result, optimistic ≠ some id → ∀ s, scoreOf cands id = some s → ¬ BeatsBy threshold c.score s

namespace Holding
variable {seen : List Cand} {result : List ConnId} {c : Cand}

theorem offered_snoc (holding : Holding slots threshold current optimistic cands seen result) (listed : c ∈ cands) :
    ∀ d ∈ seen ++ [c], d ∈ cands := by
  intro d member
  rcases List.mem_append.mp member with earlier | last
  · exact holding.offered d earlier
  · rw [List.mem_singleton.mp last]
    exact listed

theorem skip (holding : Holding slots threshold current optimistic cands seen result) (listed : c ∈ cands)
    (turned : current c.id = false → c.id ∉ result → result.length = slots ∧
      ∀ id ∈ result, optimistic ≠ some id → ∀ s, scoreOf cands id = some s → ¬ BeatsBy threshold c.score s) :
    Holding slots threshold current optimistic cands (seen ++ [c]) result where
  offered := holding.offered_snoc listed
  distinct := holding.distinct
  known := holding.known
  room := holding.room
  passed := by
    intro d member
    rcases List.mem_append.mp member with earlier | last
    · exact holding.passed d earlier
    · rw [List.mem_singleton.mp last]
      exact turned

theorem take (holding : Holding slots threshold current optimistic cands seen result) (listed : c ∈ cands)
    (fresh : c.id ∉ result) (free : result.length < slots) :
    Holding slots threshold current optimistic cands (seen ++ [c]) (result ++ [c.id]) where
  offered := holding.offered_snoc listed
  distinct := by
    rw [List.nodup_append]
    refine ⟨holding.distinct, List.nodup_singleton _, ?_⟩
    intro a held b last same
    rw [same, List.mem_singleton.mp last] at held
    exact fresh held
  known := by
    intro id member
    rcases List.mem_append.mp member with held | last
    · exact holding.known id held
    · rw [List.mem_singleton.mp last]
      exact List.mem_map_of_mem listed
  room := by
    rw [List.length_append, List.length_singleton]
    omega
  passed := by
    intro d member newcomer out
    rcases List.mem_append.mp member with earlier | last
    · have full := (holding.passed d earlier newcomer (fun held => out (List.mem_append_left _ held))).1
      omega
    · rw [List.mem_singleton.mp last] at out
      exact absurd (List.mem_append_right _ (List.mem_singleton.mpr rfl)) out

theorem displace (holding : Holding slots threshold current optimistic cands seen result)
    (unique : (cands.map (·.id)).Nodup) (listed : c ∈ cands) (fresh : c.id ∉ result) (full : slots ≤ result.length) {w : Int}
    {wid : ConnId} (held : wid ∈ result) (apart : optimistic ≠ some wid) (score : scoreOf cands wid = some w)
    (least : ∀ id ∈ result, optimistic ≠ some id → ∀ s, scoreOf cands id = some s → w ≤ s) (above : w ≤ c.score) :
    Holding slots threshold current optimistic cands (seen ++ [c])
      (result.filter (fun id => decide (id ≠ wid)) ++ [c.id]) where
  offered := holding.offered_snoc listed
  distinct := by
    rw [List.nodup_append]
    refine ⟨holding.distinct.filter _, List.nodup_singleton _, ?_⟩
    intro a kept b last same
    rw [same, List.mem_singleton.mp last] at kept
    exact fresh (List.mem_filter.mp kept).1
  known := by
    intro id member
    rcases List.mem_append.mp member with kept | last
    · exact holding.known id (List.mem_filter.mp kept).1
    · rw [List.mem_singleton.mp last]
      exact List.mem_map_of_mem listed
  room := by
    rw [length_replace holding.distinct held]
    exact holding.room
  passed := by
    intro d member newcomer out
    have room := holding.room
    refine ⟨by rw [length_replace holding.distinct held]; omega, ?_⟩
    have earlier : d ∈ seen := by
      rcases List.mem_append.mp member with earlier | last
      · exact earlier
      · rw [List.mem_singleton.mp last] at out
        exact absurd (List.mem_append_right _ (List.mem_singleton.mpr rfl)) out
    intro id inside other s scored
    -- The newcomer does not beat the lowest score, and every holder has that or more.
    have lowest : ¬ BeatsBy threshold d.score w := by
      by_cases stood : d.id ∈ result
      · have gave : d.id = wid := by
          by_contra different
          exact out (List.mem_append_left _ (List.mem_filter.mpr ⟨stood, decide_eq_true different⟩))
        have own := scoreOf_cand unique (holding.offered d earlier)
        rw [gave, score] at own
        exact not_beatsBy_of_le (Int.le_of_eq (Option.some.inj own).symm)
      · exact (holding.passed d earlier newcomer stood).2 wid held apart w score
    have atLeast : w ≤ s := by
      rcases List.mem_append.mp inside with kept | last
      · exact least id (List.mem_filter.mp kept).1 other s scored
      · rw [List.mem_singleton.mp last, scoreOf_cand unique listed] at scored
        rw [← Option.some.inj scored]
        exact above
    exact fun beaten => lowest (beaten.lower atLeast)

theorem offer (holding : Holding slots threshold current optimistic cands seen result)
    (unique : (cands.map (·.id)).Nodup) (range : ∀ c ∈ cands, InRange c.score) (listed : c ∈ cands) :
    Holding slots threshold current optimistic cands (seen ++ [c]) (offer slots threshold current optimistic cands result c) := by
  rcases offer_cases holding.known c with ⟨skipped, same⟩ | ⟨⟨fresh, newcomer⟩, taken | turned | displaced⟩
  · rw [same]
    apply holding.skip listed
    intro newcomer fresh
    rcases skipped with holds | incumbent
    · exact absurd holds fresh
    · cases newcomer.symm.trans incumbent
  · rw [taken.2]
    exact holding.take listed fresh taken.1
  · obtain ⟨full, below, same⟩ := turned
    rw [same]
    apply holding.skip listed
    intro _ _
    have room := holding.room
    refine ⟨by omega, ?_⟩
    intro id held other s score beaten
    cases lowest : weakest optimistic cands result with
    | none => exact weakest_none lowest held other score
    | some w =>
      obtain ⟨⟨j, -, -, attained⟩, least⟩ := weakest_spec lowest
      obtain ⟨d, there, -, rfl⟩ := scoreOf_eq_some attained
      have above := beats_of_beatsBy (beaten.lower (least id held other s score)) (range d there)
      rw [below _ lowest] at above
      cases above
  · obtain ⟨full, w, wid, lowest, above, held, apart, score, replaced⟩ := displaced
    obtain ⟨d, there, -, rfl⟩ := scoreOf_eq_some score
    rw [replaced]
    exact holding.displace unique listed fresh full held apart score (weakest_spec lowest).2 (le_of_beats above (range d there))

theorem foldl (rest : List Cand) (holding : Holding slots threshold current optimistic cands seen result)
    (unique : (cands.map (·.id)).Nodup) (range : ∀ c ∈ cands, InRange c.score) (listed : ∀ c ∈ rest, c ∈ cands) :
    Holding slots threshold current optimistic cands (seen ++ rest)
      (rest.foldl (Leech.offer slots threshold current optimistic cands) result) := by
  induction rest generalizing seen result with
  | nil =>
    rw [List.append_nil]
    exact holding
  | cons c rest ih =>
    have next := holding.offer unique range (listed c List.mem_cons_self)
    have later := ih next (fun d member => listed d (List.mem_cons_of_mem _ member))
    rw [List.append_assoc] at later
    exact later

end Holding

theorem subset_keepIncumbents (rest : List Cand) (held : id ∈ result) :
    id ∈ keepIncumbents slots current optimistic rest result := by
  induction rest generalizing result with
  | nil => exact held
  | cons c rest ih =>
    unfold keepIncumbents
    split
    · exact held
    · apply ih
      split
      · exact List.mem_append_left _ held
      · exact held

theorem Holding.keepIncumbents (rest : List Cand)
    (holding : Holding slots threshold current optimistic cands [] result) (listed : ∀ c ∈ rest, c ∈ cands) :
    Holding slots threshold current optimistic cands [] (keepIncumbents slots current optimistic rest result) := by
  induction rest generalizing result with
  | nil => exact holding
  | cons c rest ih =>
    have later := fun d member => listed d (List.mem_cons_of_mem c member)
    unfold Leech.keepIncumbents
    split
    · exact holding
    next free =>
      apply ih _ later
      split
      next kept =>
        have fresh : c.id ∉ result := by
          simp only [Bool.and_eq_true, Bool.not_eq_true', List.contains_eq_mem, decide_eq_false_iff_not] at kept
          exact kept.2
        have taken := holding.take (listed c List.mem_cons_self) fresh (Nat.lt_of_not_le free)
        exact ⟨fun _ none_yet => (List.not_mem_nil none_yet).elim, taken.distinct, taken.known, taken.room,
          fun _ none_yet => (List.not_mem_nil none_yet).elim⟩
      next => exact holding

theorem keepIncumbents_full (rest : List Cand) {c : Cand} (ranked : rest.Pairwise Cand.Before)
    (listed : c ∈ rest) (incumbent : current c.id = true) (other : optimistic ≠ some c.id)
    (inside : ∀ d ∈ rest, d ∈ cands) (out : c.id ∉ keepIncumbents slots current optimistic rest result)
    (ahead : ∀ id ∈ result, optimistic = some id ∨ current id = true ∧ ∃ d ∈ cands, d.id = id ∧ d.Before c ∧ d ≠ c) :
    slots ≤ (keepIncumbents slots current optimistic rest result).length ∧
      ∀ id ∈ keepIncumbents slots current optimistic rest result,
        optimistic = some id ∨ current id = true ∧ ∃ d ∈ cands, d.id = id ∧ d.Before c ∧ d ≠ c := by
  induction rest generalizing result with
  | nil => cases listed
  | cons d rest ih =>
    obtain ⟨first, ranked⟩ := List.pairwise_cons.mp ranked
    unfold keepIncumbents at out ⊢
    split at out
    next full =>
      rw [if_pos full]
      exact ⟨full, ahead⟩
    next free =>
      rw [if_neg free]
      by_cases same : d = c
      · -- The incumbent itself would have been kept.
        subst same
        refine absurd (subset_keepIncumbents rest ?_) out
        split
        · exact List.mem_append_right _ (List.mem_singleton.mpr rfl)
        next passed =>
          simp only [incumbent, other, ne_eq, not_false_eq_true, decide_true, Bool.and_true, Bool.true_and,
            Bool.not_eq_true', List.contains_eq_mem, decide_eq_false_iff_not, not_not] at passed
          exact passed
      · have later := (List.mem_cons.mp listed).resolve_left (fun eq => same eq.symm)
        refine ih ranked later (fun e member => inside e (List.mem_cons_of_mem _ member)) out ?_
        intro id held
        split at held
        next kept =>
          rcases List.mem_append.mp held with before | last
          · exact ahead id before
          · have now : current d.id = true := by
              simp only [Bool.and_eq_true] at kept
              exact kept.1.1
            rw [List.mem_singleton.mp last]
            exact Or.inr ⟨now, d, inside d List.mem_cons_self, rfl, first c later, same⟩
        next => exact ahead id held

theorem optimistic_foldl (rest : List Cand) {seen : List Cand}
    (holding : Holding slots threshold current optimistic cands seen result) (unique : (cands.map (·.id)).Nodup)
    (range : ∀ c ∈ cands, InRange c.score) (listed : ∀ c ∈ rest, c ∈ cands) {o : ConnId} (same : optimistic = some o)
    (held : o ∈ result) : o ∈ rest.foldl (offer slots threshold current optimistic cands) result := by
  induction rest generalizing seen result with
  | nil => exact held
  | cons c rest ih =>
    have next := holding.offer unique range (listed c List.mem_cons_self)
    refine ih next (fun d member => listed d (List.mem_cons_of_mem _ member)) ?_
    rcases offer_cases holding.known c with ⟨-, kept⟩ | ⟨-, ⟨-, kept⟩ | ⟨-, -, kept⟩ | ⟨-, w, wid, -, -, -, apart, -, kept⟩⟩
    · rw [kept]
      exact held
    · rw [kept]
      exact List.mem_append_left _ held
    · rw [kept]
      exact held
    · rw [kept]
      refine List.mem_append_left _ (List.mem_filter.mpr ⟨held, decide_eq_true ?_⟩)
      intro gone
      rw [gone] at same
      exact apart same

theorem displaced_foldl (rest : List Cand) {seen : List Cand}
    (holding : Holding slots threshold current optimistic cands seen result) (unique : (cands.map (·.id)).Nodup)
    (range : ∀ c ∈ cands, InRange c.score) (listed : ∀ c ∈ rest, c ∈ cands) (held : id ∈ result)
    (out : id ∉ rest.foldl (offer slots threshold current optimistic cands) result) :
    ∃ front n back, rest = front ++ n :: back ∧ current n.id = false ∧
      (∃ s, scoreOf cands id = some s ∧ beats threshold n.score s = true) ∧
      id ∈ front.foldl (offer slots threshold current optimistic cands) result ∧
      (front ++ [n]).foldl (offer slots threshold current optimistic cands) result =
        (front.foldl (offer slots threshold current optimistic cands) result).filter (fun j => decide (j ≠ id)) ++ [n.id] := by
  induction rest generalizing seen result with
  | nil => exact absurd held out
  | cons c rest ih =>
    by_cases stays : id ∈ offer slots threshold current optimistic cands result c
    · have next := holding.offer unique range (listed c List.mem_cons_self)
      obtain ⟨front, n, back, rfl, newcomer, beaten, there, gone⟩ :=
        ih next (fun d member => listed d (List.mem_cons_of_mem _ member)) stays out
      exact ⟨c :: front, n, back, rfl, newcomer, beaten, there, gone⟩
    · rcases offer_cases holding.known c with ⟨-, kept⟩ | ⟨⟨-, newcomer⟩, ⟨-, kept⟩ | ⟨-, -, kept⟩ | displaced⟩
      · rw [kept] at stays
        exact absurd held stays
      · rw [kept] at stays
        exact absurd (List.mem_append_left _ held) stays
      · rw [kept] at stays
        exact absurd held stays
      · obtain ⟨-, w, wid, -, above, -, -, score, replaced⟩ := displaced
        have gone : id = wid := by
          by_contra different
          rw [replaced] at stays
          exact stays (List.mem_append_left _ (List.mem_filter.mpr ⟨held, decide_eq_true different⟩))
        subst gone
        exact ⟨[], c, rest, rfl, newcomer, ⟨w, score, above⟩, held, replaced⟩

end Selection

/-! ### The candidates -/

section Candidates
variable {views : List PeerChokeView} {seeding : Bool} {cfg : ChokeConfig}

instance : Std.Total Cand.Before where
  total a b := by
    rcases lt_trichotomy a.score b.score with less | same | more
    · exact Or.inr (Or.inl less)
    · rcases Nat.le_total a.id b.id with le | ge
      · exact Or.inl (Or.inr ⟨same, le⟩)
      · exact Or.inr (Or.inr ⟨same.symm, ge⟩)
    · exact Or.inl (Or.inl more)

instance : IsTrans Cand Cand.Before where
  trans a b c first second := by
    rcases first with more | ⟨same, le⟩
    · rcases second with again | ⟨equal, -⟩
      · exact Or.inl (again.trans more)
      · exact Or.inl (equal ▸ more)
    · rcases second with more | ⟨equal, again⟩
      · exact Or.inl (same ▸ more)
      · exact Or.inr ⟨same.trans equal, Nat.le_trans le again⟩

theorem mem_candidates {c : Cand} :
    c ∈ candidates views seeding cfg ↔ ∃ v ∈ views, eligible cfg seeding v = true ∧ v.cand cfg seeding = c := by
  unfold candidates
  rw [List.mem_insertionSort, List.mem_map]
  constructor
  · intro ⟨v, kept, same⟩
    obtain ⟨listed, fit⟩ := List.mem_filter.mp kept
    exact ⟨v, listed, fit, same⟩
  · intro ⟨v, listed, fit, same⟩
    exact ⟨v, List.mem_filter.mpr ⟨listed, fit⟩, same⟩

theorem cand_mem {v : PeerChokeView} (listed : v ∈ views) (fit : eligible cfg seeding v = true) :
    v.cand cfg seeding ∈ candidates views seeding cfg := mem_candidates.mpr ⟨v, listed, fit, rfl⟩

theorem candidates_unique (distinct : (views.map (·.id)).Nodup) : ((candidates views seeding cfg).map (·.id)).Nodup := by
  have sorted := List.perm_insertionSort Cand.Before ((views.filter (eligible cfg seeding)).map (PeerChokeView.cand cfg seeding))
  have ids : (((views.filter (eligible cfg seeding)).map (PeerChokeView.cand cfg seeding)).map (·.id)).Nodup := by
    rw [List.map_map]
    exact distinct.sublist (List.filter_sublist.map _)
  exact ((sorted.map _).nodup_iff).mpr ids

theorem candidates_inRange : ∀ c ∈ candidates views seeding cfg, InRange c.score := by
  intro c listed
  obtain ⟨v, -, -, rfl⟩ := mem_candidates.mp listed
  exact inRange_chokeScore cfg seeding v

theorem candidates_ranked : (candidates views seeding cfg).Pairwise Cand.Before := List.pairwise_insertionSort _ _

end Candidates

/-! ### What the selection guarantees -/

section Fair
variable (views : List PeerChokeView) (seeding : Bool) (cfg : ChokeConfig) (current : ConnId → Bool)
  (optimistic : Option ConnId)

def offered (front : List Cand) : List ConnId :=
  front.foldl (offer (slots seeding cfg) cfg.antiFlapThreshold current optimistic (candidates views seeding cfg))
    (heldSlots views seeding cfg current optimistic)

/-- The pass over the incumbents fills the slots with the optimistic peer and incumbents ranked before this one. -/
def Filled (v : PeerChokeView) : Prop :=
  (heldSlots views seeding cfg current optimistic).length = slots seeding cfg ∧
    ∀ id ∈ heldSlots views seeding cfg current optimistic, optimistic = some id ∨
      current id = true ∧ ∃ d ∈ candidates views seeding cfg, d.id = id ∧ d.Before (v.cand cfg seeding) ∧ d ≠ v.cand cfg seeding

def Displaced (v : PeerChokeView) : Prop :=
  ∃ front n back, candidates views seeding cfg = front ++ n :: back ∧ current n.id = false ∧
    beats cfg.antiFlapThreshold n.score (chokeScore cfg seeding v) = true ∧
    v.id ∈ offered views seeding cfg current optimistic front ∧
    offered views seeding cfg current optimistic (front ++ [n]) =
      (offered views seeding cfg current optimistic front).filter (fun id => decide (id ≠ v.id)) ++ [n.id]

structure FairSelection (result : List ConnId) : Prop where
  distinct : result.Nodup
  room : result.length ≤ slots seeding cfg
  fit : ∀ id ∈ result, ∃ v ∈ views, v.id = id ∧ (seeding = true → v.interested = true) ∧ hardBlocked cfg v = false
  reserved : 0 < slots seeding cfg → ∀ v ∈ views, optimistic = some v.id → eligible cfg seeding v = true →
    v.snubbed = false → v.corrupt < cfg.corruptBanThreshold → v.id ∈ result
  newcomers : ∀ v ∈ views, eligible cfg seeding v = true → current v.id = false → v.id ∉ result →
    result.length = slots seeding cfg ∧ ∀ w, weakest optimistic (candidates views seeding cfg) result = some w →
      ¬ BeatsBy cfg.antiFlapThreshold (chokeScore cfg seeding v) w
  incumbents : ∀ v ∈ views, eligible cfg seeding v = true → current v.id = true → optimistic ≠ some v.id → v.id ∉ result →
    Filled views seeding cfg current optimistic v ∨ Displaced views seeding cfg current optimistic v

variable {views seeding cfg current optimistic}

theorem holding_reserved (some_slot : slots seeding cfg ≠ 0) :
    Holding (slots seeding cfg) cfg.antiFlapThreshold current optimistic (candidates views seeding cfg) []
      (reserved views cfg (candidates views seeding cfg) optimistic) := by
  have nothing : Holding (slots seeding cfg) cfg.antiFlapThreshold current optimistic (candidates views seeding cfg) [] [] :=
    ⟨by simp, List.nodup_nil, by simp, Nat.zero_le _, by simp⟩
  unfold reserved
  cases optimistic with
  | none => exact nothing
  | some o =>
    dsimp only
    split
    next fit =>
      obtain ⟨c, listed, same⟩ := List.any_eq_true.mp (Bool.and_eq_true_iff.mp fit).1
      refine ⟨by simp, List.nodup_singleton _, ?_, Nat.one_le_iff_ne_zero.mpr some_slot, by simp⟩
      intro id only
      rw [List.mem_singleton.mp only, ← of_decide_eq_true same]
      exact List.mem_map_of_mem listed
    next => exact nothing

theorem reserved_mem (distinct : (views.map (·.id)).Nodup) {v : PeerChokeView} (listed : v ∈ views)
    (chosen : optimistic = some v.id) (fit : eligible cfg seeding v = true) (steady : v.snubbed = false)
    (clean : v.corrupt < cfg.corruptBanThreshold) :
    v.id ∈ reserved views cfg (candidates views seeding cfg) optimistic := by
  have first : views.find? (fun u => decide (u.id = v.id)) = some v := by
    have found : (views.find? (fun u => decide (u.id = v.id))).isSome = true := by
      rw [List.find?_isSome]
      exact ⟨v, listed, decide_eq_true rfl⟩
    obtain ⟨u, first⟩ := Option.isSome_iff_exists.mp found
    have matched := List.find?_some first
    rw [first, List.inj_on_of_nodup_map distinct (List.mem_of_find?_eq_some first) listed (of_decide_eq_true matched)]
  have known : (candidates views seeding cfg).any (fun c => decide (c.id = v.id)) = true :=
    List.any_eq_true.mpr ⟨_, cand_mem listed fit, decide_eq_true rfl⟩
  have good : sound views cfg v.id = true := by
    rw [sound, first]
    simp [steady, clean]
  rw [chosen, reserved, known, good]
  exact List.mem_singleton.mpr rfl

theorem holding_held (some_slot : slots seeding cfg ≠ 0) (some_view : views ≠ []) :
    Holding (slots seeding cfg) cfg.antiFlapThreshold current optimistic (candidates views seeding cfg) []
      (heldSlots views seeding cfg current optimistic) := by
  unfold heldSlots
  rw [if_neg (not_or.mpr ⟨some_slot, some_view⟩)]
  exact (holding_reserved some_slot).keepIncumbents _ (fun _ listed => listed)

theorem filled_of_passed (some_slot : slots seeding cfg ≠ 0) (some_view : views ≠ []) {v : PeerChokeView} (listed : v ∈ views)
    (fit : eligible cfg seeding v = true) (incumbent : current v.id = true) (other : optimistic ≠ some v.id)
    (out : v.id ∉ heldSlots views seeding cfg current optimistic) : Filled views seeding cfg current optimistic v := by
  have holding : Holding (slots seeding cfg) cfg.antiFlapThreshold current optimistic (candidates views seeding cfg) []
    (heldSlots views seeding cfg current optimistic) := holding_held some_slot some_view
  have room := holding.room
  have ahead : ∀ id ∈ reserved views cfg (candidates views seeding cfg) optimistic, optimistic = some id ∨
      current id = true ∧ ∃ d ∈ candidates views seeding cfg, d.id = id ∧ d.Before (v.cand cfg seeding) ∧
        d ≠ v.cand cfg seeding := by
    intro id held
    left
    unfold reserved at held
    cases optimistic with
    | none => cases held
    | some o =>
      dsimp only at held
      split at held
      · rw [List.mem_singleton.mp held]
      · cases held
  unfold Filled
  unfold heldSlots at out room ⊢
  rw [if_neg (not_or.mpr ⟨some_slot, some_view⟩)] at out room ⊢
  obtain ⟨full, all⟩ := keepIncumbents_full _ candidates_ranked (cand_mem listed fit) incumbent other (fun _ member => member) out
    ahead
  exact ⟨Nat.le_antisymm room full, all⟩

/-- For all peers with distinct ids, the selection is fair and stable: the chosen are distinct candidates within the
slots; the optimistic peer has one of them; no newcomer is left out that beats a chosen peer; and an incumbent is left
out for better incumbents or for a newcomer that beats it. -/
theorem selectUnchokeSet_fair (distinct : (views.map (·.id)).Nodup) :
    FairSelection views seeding cfg current optimistic (selectUnchokeSet views seeding cfg current optimistic) := by
  by_cases early : slots seeding cfg = 0 ∨ views = []
  · have nothing : selectUnchokeSet views seeding cfg current optimistic = [] := by rw [selectUnchokeSet, if_pos early]
    have unheld : heldSlots views seeding cfg current optimistic = [] := by rw [heldSlots, if_pos early]
    rw [nothing]
    have none_slot : ∀ v ∈ views, slots seeding cfg = 0 := by
      intro v listed
      rcases early with none_slot | none_view
      · exact none_slot
      · rw [none_view] at listed
        cases listed
    refine ⟨List.nodup_nil, Nat.zero_le _, by simp, ?_, ?_, ?_⟩
    · intro some_slot v listed
      exact absurd (none_slot v listed) (Nat.ne_of_gt some_slot)
    · intro v listed _ _ _
      exact ⟨(none_slot v listed).symm, fun w lowest => by cases lowest⟩
    · intro v listed _ _ _ _
      left
      unfold Filled
      rw [unheld]
      exact ⟨(none_slot v listed).symm, by simp⟩
  · obtain ⟨some_slot, some_view⟩ := not_or.mp early
    have unique : ((candidates views seeding cfg).map (·.id)).Nodup := candidates_unique distinct
    have range : ∀ c ∈ candidates views seeding cfg, InRange c.score := candidates_inRange
    have held : Holding (slots seeding cfg) cfg.antiFlapThreshold current optimistic (candidates views seeding cfg) []
      (heldSlots views seeding cfg current optimistic) := holding_held some_slot some_view
    have every : ∀ c ∈ candidates views seeding cfg, c ∈ candidates views seeding cfg := fun _ listed => listed
    have whole : selectUnchokeSet views seeding cfg current optimistic =
        offered views seeding cfg current optimistic (candidates views seeding cfg) := by
      rw [selectUnchokeSet, if_neg early]
      rfl
    have final : Holding (slots seeding cfg) cfg.antiFlapThreshold current optimistic (candidates views seeding cfg)
        (candidates views seeding cfg) (offered views seeding cfg current optimistic (candidates views seeding cfg)) :=
      held.foldl _ unique range every
    rw [whole]
    refine ⟨final.distinct, final.room, ?_, ?_, ?_, ?_⟩
    · intro id chosen
      obtain ⟨c, listed, rfl⟩ := List.mem_map.mp (final.known id chosen)
      obtain ⟨v, there, fit, rfl⟩ := mem_candidates.mp listed
      simp only [eligible, Bool.and_eq_true, Bool.or_eq_true, Bool.not_eq_true'] at fit
      refine ⟨v, there, rfl, ?_, fit.2⟩
      intro serving
      rcases fit.1 with interested | leeching
      · exact interested
      · cases serving.symm.trans leeching
    · intro _ v listed chosen fit steady clean
      apply optimistic_foldl _ held unique range every chosen
      unfold heldSlots
      rw [if_neg early]
      exact subset_keepIncumbents _ (reserved_mem distinct listed chosen fit steady clean)
    · intro v listed fit newcomer out
      obtain ⟨full, unbeaten⟩ := final.passed _ (cand_mem listed fit) newcomer out
      refine ⟨full, ?_⟩
      intro w lowest
      obtain ⟨⟨id, chosen, other, score⟩, -⟩ := weakest_spec lowest
      exact unbeaten id chosen other w score
    · intro v listed fit incumbent other out
      by_cases kept : v.id ∈ heldSlots views seeding cfg current optimistic
      · right
        obtain ⟨front, n, back, split_at, newcomer, ⟨s, score, beaten⟩, there, gone⟩ :=
          displaced_foldl _ held unique range every kept out
        have own : scoreOf (candidates views seeding cfg) v.id = some (chokeScore cfg seeding v) :=
          scoreOf_cand unique (cand_mem listed fit)
        cases own.symm.trans score
        exact ⟨front, n, back, split_at, newcomer, beaten, there, gone⟩
      · exact Or.inl (filled_of_passed some_slot some_view listed fit incumbent other kept)

def fresh (id : ConnId) : PeerChokeView := ⟨id, .tracker, none, 0, 0, 100, 0, false, true, 0, 0, 0⟩

theorem selectUnchokeSet_fair_pair : ([fresh 1, fresh 2].map (·.id)).Nodup ∧
    FairSelection [fresh 1, fresh 2] false .default (fun id => decide (id = 2)) (some 1)
      (selectUnchokeSet [fresh 1, fresh 2] false .default (fun id => decide (id = 2)) (some 1)) :=
  ⟨by decide, selectUnchokeSet_fair (by decide)⟩

def giver (id : ConnId) (corrupt : Nat) : PeerChokeView := ⟨id, .tracker, none, 1024, 0, 0, corrupt, false, true, 0, 0, 0⟩

def generous : ChokeConfig :=
  { ChokeConfig.default with
    seedingSlots := 1
    seedReciprocityWeight := I64_MAX
    maxReciprocityReward := I64_MAX
    corruptScorePenalty := 5 }

/-- With no slots nobody is unchoked, not even the optimistic peer. At the end of the 64-bit range the saturating
margin differs from the threshold both ways: a newcomer is left out that reaches the margin of the lowest score, and
an incumbent gives way to a newcomer that does not beat it by the threshold. -/
theorem unfair_without_slots_and_at_saturation :
    (¬ ∀ (views : List PeerChokeView) (seeding : Bool) (cfg : ChokeConfig) (current : ConnId → Bool)
      (optimistic : Option ConnId), (views.map (·.id)).Nodup →
      ∀ v ∈ views, optimistic = some v.id → eligible cfg seeding v = true → v.snubbed = false →
        v.corrupt < cfg.corruptBanThreshold → v.id ∈ selectUnchokeSet views seeding cfg current optimistic) ∧
    (¬ ∀ (views : List PeerChokeView) (seeding : Bool) (cfg : ChokeConfig) (current : ConnId → Bool)
      (optimistic : Option ConnId), (views.map (·.id)).Nodup →
      ∀ v ∈ views, eligible cfg seeding v = true → current v.id = false →
        v.id ∉ selectUnchokeSet views seeding cfg current optimistic → ∀ w, weakest optimistic (candidates views seeding cfg)
          (selectUnchokeSet views seeding cfg current optimistic) = some w →
        beats cfg.antiFlapThreshold (chokeScore cfg seeding v) w = false) ∧
    ¬ ∀ (views : List PeerChokeView) (seeding : Bool) (cfg : ChokeConfig) (current : ConnId → Bool)
      (optimistic : Option ConnId), (views.map (·.id)).Nodup →
      ∀ v ∈ views, eligible cfg seeding v = true → current v.id = true → optimistic ≠ some v.id →
        v.id ∈ heldSlots views seeding cfg current optimistic →
        v.id ∉ selectUnchokeSet views seeding cfg current optimistic →
        ∃ u ∈ views, BeatsBy cfg.antiFlapThreshold (chokeScore cfg seeding u) (chokeScore cfg seeding v) := by
  refine ⟨?_, ?_, ?_⟩
  · intro always
    have chosen := always [fresh 1] false { ChokeConfig.default with leechingSlots := 0 } (fun _ => false) (some 1) (by decide)
      (fresh 1) List.mem_cons_self rfl (by decide) rfl (by decide)
    exact absurd chosen (by decide)
  · intro always
    have turned := always [giver 1 0, giver 2 0] true generous (fun _ => false) none (by decide) (giver 1 0) List.mem_cons_self
      (by decide) rfl (by decide) I64_MAX (by decide)
    exact absurd turned (by decide)
  · intro always
    have beaten := always [giver 1 1, giver 2 0] true generous (fun id => decide (id = 1)) none (by decide) (giver 1 1)
      List.mem_cons_self (by decide) rfl (by decide) (by decide) (by decide)
    exact absurd beaten (by decide)

end Fair

end TypeBit.Leech
