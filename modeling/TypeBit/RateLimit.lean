import TypeBit.Basic

/-! Token-bucket byte rate limiting (`ratelimit.rs`). -/

namespace TypeBit.RateLimit

inductive BurstPolicy where
  | standard
  | uploadTight
  deriving DecidableEq, Repr

structure TokenBucket where
  capacity : Nat
  tokens : Nat
  rateBps : Nat
  policy : BurstPolicy
  last : Nat
  deriving DecidableEq, Repr

def U64_MAX : Nat := 2 ^ 64 - 1

def satMul (a b : Nat) : Nat := min (a * b) U64_MAX

def clamp (x lo hi : Nat) : Nat := max lo (min x hi)

def uploadToleranceHalfPct (rateBps : Nat) : Nat :=
  let kb := rateBps / 1024
  if kb < 100 then 20 else max (20 - (kb - 100) / 50) 2

def burstCapacity (rateBps : Nat) (policy : BurstPolicy) : Nat :=
  if rateBps = 0 then U64_MAX
  else match policy with
    | .standard => clamp rateBps (64 * 1024) (8 * 1024 * 1024)
    | .uploadTight => clamp (satMul rateBps (uploadToleranceHalfPct rateBps) / 200) (4 * 1024) (1024 * 1024)

namespace TokenBucket

def withPolicy (rateBps : Nat) (policy : BurstPolicy) (now : Nat) : TokenBucket where
  capacity := burstCapacity rateBps policy
  tokens := burstCapacity rateBps policy
  rateBps := rateBps
  policy := policy
  last := now

def new (rateBps now : Nat) : TokenBucket := withPolicy rateBps .standard now

def newUpload (rateBps now : Nat) : TokenBucket := withPolicy rateBps .uploadTight now

def refill (b : TokenBucket) (now : Nat) : TokenBucket :=
  if b.rateBps = 0 ∨ now ≤ b.last then b
  else
    let add := satMul (now - b.last) b.rateBps / 1000
    { b with tokens := min b.capacity (satAdd b.tokens add), last := now }

def setRate (b : TokenBucket) (rateBps now : Nat) : TokenBucket :=
  let b := b.refill now
  let capacity := burstCapacity rateBps b.policy
  { b with capacity := capacity, tokens := min b.tokens capacity, rateBps := rateBps }

def available (b : TokenBucket) (now : Nat) : Nat × TokenBucket :=
  if b.rateBps = 0 then (U64_MAX, b) else ((b.refill now).tokens, b.refill now)

def consume (b : TokenBucket) (want now : Nat) : Nat × TokenBucket :=
  if b.rateBps = 0 then (want, b)
  else
    let b := b.refill now
    (min want b.tokens, { b with tokens := b.tokens - min want b.tokens })

end TokenBucket

/-- The three throttles one peer's upload passes: its session's bucket and share of the tick, and
the engine's bucket. -/
structure UploadLimits where
  uploadLimit : TokenBucket
  tickUpAllowance : Nat
  globalUp : TokenBucket
  deriving DecidableEq, Repr

namespace UploadLimits

def allowance (now : Nat) (l : UploadLimits) : Nat × UploadLimits :=
  let (own, uploadLimit) := l.uploadLimit.available now
  let share := min l.tickUpAllowance own
  let (pool, globalUp) := l.globalUp.available now
  (min share pool, { l with uploadLimit := uploadLimit, globalUp := globalUp })

def spend (now n : Nat) (l : UploadLimits) : UploadLimits where
  uploadLimit := (l.uploadLimit.consume n now).2
  tickUpAllowance := l.tickUpAllowance - n
  globalUp := (l.globalUp.consume n now).2

end UploadLimits
end TypeBit.RateLimit
