import TypeBit.RateLimit.Cadence
import TypeBit.Session.Requests

/-! The download budget of a tick. The engine drains its download bucket into a budget that all sessions ask from and
that the next tick replaces, so what nobody asked for is lost. -/

namespace TypeBit.Session
open RateLimit OrdMap

/-- The engine's download bucket, and the cache that carries the budget to the sessions. -/
structure Purse where
  globalDown : TokenBucket
  cache : DiskCache.Cache

namespace Purse

/-- What concerns the budget: a tick of the engine, or a session that asks for a block. -/
inductive Step where
  | tick (now : Nat)
  | ask (len : Nat)

def tick (now : Nat) (s : Purse) : Purse :=
  let (downBudget, globalDown) := s.globalDown.consume U64_MAX now
  ⟨globalDown, s.cache.setTickDownBudget downBudget⟩

def ask (len : Nat) (s : Purse) : Nat × Purse :=
  if s.cache.tickDownBudget < len then (0, s) else (len, { s with cache := s.cache.tickDownConsume len })

def run : List Step → Purse → Nat × Purse
  | [], s => (0, s)
  | .tick now :: rest, s => run rest (s.tick now)
  | .ask len :: rest, s =>
      let (granted, left) := s.ask len
      (granted + (run rest left).1, (run rest left).2)

def spare (s : Purse) : Nat := s.globalDown.tokens + s.cache.tickDownBudget

def EveryTick (P : Nat → Purse → Prop) : List Step → Purse → Prop
  | [], _ => True
  | .tick now :: rest, s => P now s ∧ EveryTick P rest (s.tick now)
  | .ask len :: rest, s => EveryTick P rest (s.ask len).2

def Keeps (now : Nat) (s : Purse) : Prop :=
  min s.globalDown.capacity (s.spare + s.globalDown.earned now) ≤ (s.tick now).spare

def Hungry (_ : Nat) (s : Purse) : Prop := s.spare < BLOCK_LEN

/-- What the rate comes to over the ticks of a run; a tick that comes too late is paid what the burst holds besides
a block. -/
def owed : List Step → Purse → Nat
  | [], _ => 0
  | .tick now :: rest, s =>
      min (s.globalDown.earned now) (s.globalDown.capacity - BLOCK_LEN) + owed rest (s.tick now)
  | .ask len :: rest, s => owed rest (s.ask len).2

/-- The budget is conserved: no tick loses a spare token, and sessions that always ask are granted the rate, but for
less than one block. -/
structure Conserves (steps : List Step) (s : Purse) : Prop where
  kept : EveryTick Keeps steps s
  paid : EveryTick Hungry steps s → (run steps s).2.spare < BLOCK_LEN → owed steps s < (run steps s).1 + BLOCK_LEN

def Spent (now : Nat) (s : Purse) : Prop :=
  s.cache.tickDownBudget = 0 ∨ s.globalDown.capacity ≤ s.globalDown.tokens + s.globalDown.earned now

structure Limited (s : Purse) : Prop where
  sized : s.globalDown.Sized
  limited : 0 < s.globalDown.rateBps
  standard : s.globalDown.policy = .standard

section Steps
variable {s : Purse}

theorem Limited.block_le (limited : s.Limited) : BLOCK_LEN ≤ s.globalDown.capacity := by
  have rate : s.globalDown.rateBps ≠ 0 := Nat.pos_iff_ne_zero.mp limited.limited
  rw [limited.sized.capacity, limited.standard, burstCapacity, if_neg rate]
  exact le_trans (by decide) (le_max_left _ _)

theorem tick_eq (limited : s.Limited) (now : Nat) :
    (s.tick now).globalDown.tokens = 0 ∧ (s.tick now).cache.tickDownBudget =
      min s.globalDown.capacity (s.globalDown.tokens + s.globalDown.earned now) := by
  have small := burstCapacity_le limited.limited s.globalDown.policy
  rw [← limited.sized.capacity] at small
  have refilled := TokenBucket.tokens_refill limited.sized limited.limited now
  have all : min U64_MAX (s.globalDown.refill now).tokens = (s.globalDown.refill now).tokens := by
    have fits : 8 * 1024 * 1024 ≤ U64_MAX := by decide
    omega
  unfold tick
  rw [TokenBucket.consume_eq limited.limited, all]
  exact ⟨Nat.sub_self _, refilled⟩

theorem Limited.tick (limited : s.Limited) (now : Nat) : (s.tick now).Limited := by
  refine ⟨limited.sized.consume U64_MAX now, ?_, ?_⟩
  · unfold Purse.tick
    rw [TokenBucket.consume_eq limited.limited]
    exact (TokenBucket.rateBps_refill s.globalDown now).symm ▸ limited.limited
  · unfold Purse.tick
    rw [TokenBucket.consume_eq limited.limited]
    exact (TokenBucket.policy_refill s.globalDown now).trans limited.standard

theorem Limited.ask (limited : s.Limited) (len : Nat) : (s.ask len).2.Limited := by
  unfold Purse.ask
  split
  · exact limited
  · exact ⟨limited.sized, limited.limited, limited.standard⟩

theorem spare_ask (s : Purse) (len : Nat) : (s.ask len).1 + (s.ask len).2.spare = s.spare := by
  unfold ask
  split
  · exact Nat.zero_add _
  · change len + (s.globalDown.tokens + (s.cache.tickDownBudget - len)) = s.globalDown.tokens + s.cache.tickDownBudget
    omega

theorem keeps_iff (limited : s.Limited) (now : Nat) : s.Keeps now ↔ s.Spent now := by
  obtain ⟨drained, budget⟩ := tick_eq limited now
  unfold Keeps Spent spare
  rw [drained, budget]
  omega

/-! ### Runs -/

theorem everyTick_congr {P Q : Nat → Purse → Prop} (same : ∀ now s, s.Limited → (P now s ↔ Q now s)) (steps : List Step)
    (limited : s.Limited) : EveryTick P steps s ↔ EveryTick Q steps s := by
  induction steps generalizing s with
  | nil => exact Iff.rfl
  | cons step rest ih =>
    cases step with
    | tick now => exact and_congr (same now s limited) (ih (limited.tick now))
    | ask len => exact ih (limited.ask len)

theorem owed_le (steps : List Step) (limited : s.Limited) (kept : EveryTick Keeps steps s)
    (hungry : EveryTick Hungry steps s) : s.spare + owed steps s ≤ (run steps s).1 + (run steps s).2.spare := by
  induction steps generalizing s with
  | nil => exact Nat.le_of_eq (Nat.add_comm _ _)
  | cons step rest ih =>
    cases step with
    | tick now =>
      have later := ih (limited.tick now) kept.2 hungry.2
      have keeps : min s.globalDown.capacity (s.spare + s.globalDown.earned now) ≤ (s.tick now).spare := kept.1
      have asked : s.spare < BLOCK_LEN := hungry.1
      have room := limited.block_le
      rw [owed, run]
      omega
    | ask len =>
      have later := ih (limited.ask len) kept hungry
      have paid := spare_ask s len
      rw [owed, run]
      dsimp only
      omega

/-- The budget is conserved exactly in the runs of which every tick finds it spent, or fills the bucket. -/
theorem budget_conserved_iff (steps : List Step) (s : Purse) (made : s.globalDown.Made) (limited : 0 < s.globalDown.rateBps)
    (standard : s.globalDown.policy = .standard) : Conserves steps s ↔ EveryTick Spent steps s := by
  have bounded : s.Limited := ⟨made.sized, limited, standard⟩
  have each := everyTick_congr (fun now s limited => keeps_iff limited now) steps bounded
  constructor
  · intro conserves
    exact each.mp conserves.kept
  · intro spent
    refine ⟨each.mpr spent, ?_⟩
    intro hungry left
    have granted := owed_le steps bounded (each.mpr spent) hungry
    omega

def slow : Purse := ⟨TokenBucket.new 10000 0, DiskCache.Cache.new 0⟩

/-- The sessions spend the burst before the next tick. -/
def burst : List Step := [.tick 0, .ask 16384, .ask 16384, .ask 16384, .ask 16384, .tick 1000]

theorem budget_conserved_iff_burst : (run burst slow).1 = 65536 ∧ Conserves burst slow := by
  have spent : EveryTick Spent burst slow := ⟨.inl rfl, .inl (by decide), trivial⟩
  exact ⟨by decide, (budget_conserved_iff burst slow (.withPolicy 10000 .standard 0) (by decide) rfl).mpr spent⟩

/-- Ticks a second apart never add up to a block. -/
theorem budget_lost : ¬ ∀ (steps : List Step) (s : Purse), s.globalDown.Made → 0 < s.globalDown.rateBps →
    s.globalDown.policy = .standard → Conserves steps s := by
  intro always
  have conserves := always (burst ++ [.ask 16384, .tick 2000]) slow (.withPolicy 10000 .standard 0) (by decide) rfl
  have second : 20000 ≤ 10000 := conserves.kept.2.2.1
  exact absurd second (by decide)

/-! ### The sessions -/

theorem run_asks (lens : List Nat) (fits : lens.sum ≤ s.cache.tickDownBudget) :
    (run (lens.map .ask) s).1 = lens.sum ∧
      (run (lens.map .ask) s).2.cache.tickDownBudget = s.cache.tickDownBudget - lens.sum := by
  induction lens generalizing s with
  | nil => exact ⟨rfl, rfl⟩
  | cons len tail ih =>
    rw [List.sum_cons] at fits ⊢
    have taken : s.ask len = (len, { s with cache := s.cache.tickDownConsume len }) := if_neg (by omega)
    have left : tail.sum ≤ (s.cache.tickDownConsume len).tickDownBudget := by
      change tail.sum ≤ s.cache.tickDownBudget - len
      omega
    obtain ⟨granted, budget⟩ := ih (s := { s with cache := s.cache.tickDownConsume len }) left
    rw [List.map_cons, run, taken]
    dsimp only
    rw [granted, budget]
    exact ⟨rfl, Nat.sub_sub _ _ _⟩

end Steps
end Purse

section Fill
variable {H : Type} (env : Env) (conn : ConnId)

def requestOf (r : Nat × Nat × Nat) : Wire.Message := .request r.1 r.2.1 r.2.2

/-- From `w` to `v` the peer was asked for blocks: the requests are on its wire, and the budget of the tick paid for them. -/
structure Draws (w v : World H) (requests : List (Nat × Nat × Nat)) : Prop where
  small : ∀ r ∈ requests, r.2.2 ≤ BLOCK_LEN
  paid : (requests.map fun r => r.2.2).sum + v.io.cache.tickDownBudget = w.io.cache.tickDownBudget
  wire : (v.sess.peers.get? conn).map (fun p => (p.out, p.requestsInFlight, p.maxPipeline)) =
    (w.sess.peers.get? conn).map fun p =>
      (p.out ++ requests.flatMap fun r => (requestOf r).encode, p.requestsInFlight + requests.length, p.maxPipeline)
  room : requests = [] ∨ ∃ p, w.sess.peers.get? conn = some p ∧ p.requestsInFlight + requests.length ≤ p.maxPipeline
  others : ∀ c ≠ conn, v.sess.peers.get? c = w.sess.peers.get? c

variable {conn}

theorem Draws.refl (w : World H) : Draws conn w w [] := by
  constructor <;> simp

theorem Draws.trans {w v u : World H} {first second : List (Nat × Nat × Nat)} (before : Draws conn w v first)
    (after : Draws conn v u second) : Draws conn w u (first ++ second) := by
  constructor
  · exact List.forall_mem_append.mpr ⟨before.small, after.small⟩
  · rw [List.map_append, List.sum_append, ← before.paid, ← after.paid]
    omega
  · have same := before.wire
    rw [after.wire]
    cases old : w.sess.peers.get? conn with
    | none =>
      rw [old] at same
      rw [Option.map_eq_none_iff.mp same]
      rfl
    | some p =>
      rw [old] at same
      obtain ⟨q, found, fields⟩ := Option.map_eq_some_iff.mp same
      simp only [Prod.mk.injEq] at fields
      simp [found, fields, Nat.add_assoc]
  · rcases after.room with none | ⟨q, found, fits⟩
    · rw [none, List.append_nil]
      exact before.room
    · right
      have same := before.wire
      rw [found] at same
      obtain ⟨p, old, fields⟩ := Option.map_eq_some_iff.mp same.symm
      simp only [Prod.mk.injEq] at fields
      refine ⟨p, old, ?_⟩
      rw [List.length_append]
      omega
  · exact fun c other => (after.others c other).trans (before.others c other)

/-- A change that leaves the budget and the peer's wire alone asks for nothing. -/
theorem Draws.of_mapPeer (w : World H) {f : Peer → Peer}
    (same : ∀ p, ((f p).out, (f p).requestsInFlight, (f p).maxPipeline) = (p.out, p.requestsInFlight, p.maxPipeline)) :
    Draws conn w (w.mapPeer conn f) [] := by
  constructor
  · simp
  · exact Nat.zero_add _
  · change ((w.sess.peers.modify conn f).get? conn).map _ = _
    rw [get?_modify, if_pos rfl, Option.map_map]
    simp [Function.comp_def, same]
  · exact Or.inl rfl
  · intro c other
    exact (get?_modify ..).trans (if_neg (Ne.symm other))

theorem draws_issueRequest {w : World H} {p : Peer} (present : w.sess.peers.get? conn = some p)
    (free : p.requestsInFlight < p.maxPipeline) (piece block totalBlocks : Nat) {len : Nat} (small : len ≤ BLOCK_LEN)
    (fits : ¬ w.io.cache.tickDownBudget < len) :
    Draws conn w (issueRequest env conn piece block totalBlocks len w) [(piece, block * BLOCK_LEN, len)] := by
  constructor
  · simpa using small
  · change len + 0 + (w.io.cache.tickDownBudget - len) = w.io.cache.tickDownBudget
    omega
  · change ((w.sess.peers.modify conn _).get? conn).map _ = _
    rw [get?_modify, if_pos rfl, present]
    simp [Peer.send, Peer.sendRaw, requestOf]
  · exact Or.inr ⟨p, present, free⟩
  · intro c other
    exact (get?_modify ..).trans (if_neg (Ne.symm other))

theorem draws_fillLoop (guard : Nat) (w : World H) : ∃ requests, Draws conn w (fillLoop env conn guard w) requests := by
  induction guard generalizing w with
  | zero => exact ⟨[], .refl w⟩
  | succ guard ih =>
    have onwards : ∀ {v : World H} {requests}, Draws conn w v requests →
        ∃ requests, Draws conn w (fillLoop env conn guard v) requests := by
      intro v requests asked
      obtain ⟨more, later⟩ := ih v
      exact ⟨_, asked.trans later⟩
    rw [fillLoop]
    split
    · exact ⟨[], .refl w⟩
    next p present =>
      split
      · exact ⟨[], .refl w⟩
      next idle =>
      split
      · exact ⟨[], .refl w⟩
      next piece _ =>
        have pledged : Draws conn w (if (committed w.sess p).isSome then w
            else w.mapPeer conn (fun p => { p with currentPiece := some piece })) [] := by
          split
          · exact .refl w
          · exact .of_mapPeer w fun _ => rfl
        generalize (if (committed w.sess p).isSome then w
          else w.mapPeer conn (fun p => { p with currentPiece := some piece })) = v at pledged
        have released : Draws conn v (v.mapPeer conn (fun p => { p with currentPiece := none })) [] := .of_mapPeer v fun _ => rfl
        dsimp only
        split
        · exact onwards (pledged.trans released)
        split
        · exact onwards (pledged.trans released)
        have polled : Draws conn v (v.map (fun s => { s with downloadLimit := (v.sess.downloadLimit.available env.now).2 })) [] :=
          ⟨by simp, Nat.zero_add _, by simp [World.map], Or.inl rfl, fun _ _ => rfl⟩
        split
        · exact ⟨[], pledged.trans polled⟩
        split
        · exact ⟨[], pledged.trans polled⟩
        next covered =>
          split
          · exact ⟨[], pledged.trans polled⟩
          · have kept := (pledged.trans polled).wire
            rw [present] at kept
            obtain ⟨q, found, fields⟩ := Option.map_eq_some_iff.mp kept
            simp only [Prod.mk.injEq, List.append_nil, List.length_nil, Nat.add_zero] at fields
            have free : q.requestsInFlight < q.maxPipeline := by
              simp only [Bool.not_eq_true', Bool.not_eq_false, Bool.and_eq_true, decide_eq_true_eq] at idle
              omega
            exact onwards ((pledged.trans polled).trans
              (draws_issueRequest env found free _ _ _ (min_le_left _ _) covered))

/-- The fills of a tick, each of a peer of a session: the peer, and the world before and after. -/
def fills : List (Env × ConnId × TorrentSession) → DiskCache.State H → List (ConnId × World H × World H) × DiskCache.State H
  | [], io => ([], io)
  | (env, conn, s) :: rest, io =>
      let v := fillPipeline env conn ⟨s, io, []⟩
      let (later, left) := fills rest v.io
      ((conn, ⟨s, io, []⟩, v) :: later, left)

end Fill

/-- Whichever peers of whichever sessions are filled in a tick: what the requests on their wires ask for adds up to what
the budget of the tick lost, as in a run of the purse, and no peer's pipeline is filled beyond its size. -/
theorem fills_within_budget {H : Type} (plan : List (Env × ConnId × TorrentSession)) (io : DiskCache.State H)
    (globalDown : TokenBucket) :
    ∃ asked : List (List (Nat × Nat × Nat)),
      List.Forall₂ (fun m requests => Draws m.1 m.2.1 m.2.2 requests) (fills plan io).1 asked ∧
      (asked.flatten.map fun r => r.2.2).sum + (fills plan io).2.cache.tickDownBudget = io.cache.tickDownBudget ∧
      let purse := Purse.run ((asked.flatten.map fun r => r.2.2).map .ask) ⟨globalDown, io.cache⟩
      purse.1 = (asked.flatten.map fun r => r.2.2).sum ∧
        purse.2.cache.tickDownBudget = (fills plan io).2.cache.tickDownBudget := by
  have spent : ∃ asked : List (List (Nat × Nat × Nat)),
      List.Forall₂ (fun m requests => Draws m.1 m.2.1 m.2.2 requests) (fills plan io).1 asked ∧
      (asked.flatten.map fun r => r.2.2).sum + (fills plan io).2.cache.tickDownBudget = io.cache.tickDownBudget := by
    induction plan generalizing io with
    | nil => exact ⟨[], .nil, Nat.zero_add _⟩
    | cons first rest ih =>
      obtain ⟨env, conn, s⟩ := first
      obtain ⟨requests, asked⟩ := draws_fillLoop env 512 ⟨s, io, []⟩
      obtain ⟨later, wires, left⟩ := ih (fillPipeline env conn ⟨s, io, []⟩).io
      refine ⟨requests :: later, .cons asked wires, ?_⟩
      have paid := asked.paid
      rw [List.flatten_cons, List.map_append, List.sum_append]
      unfold fills
      dsimp only [fillPipeline] at *
      omega
  obtain ⟨asked, wires, paid⟩ := spent
  obtain ⟨granted, left⟩ := Purse.run_asks (s := ⟨globalDown, io.cache⟩) (asked.flatten.map fun r => r.2.2)
    (by dsimp only; omega)
  refine ⟨asked, wires, paid, granted, ?_⟩
  rw [left]
  dsimp only
  omega

end TypeBit.Session
