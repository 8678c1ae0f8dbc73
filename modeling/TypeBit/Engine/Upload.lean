import TypeBit.RateLimit

/-! The send loop of `Engine::pump_connection` over any source of rate allowances and any
transport. `sent` and `queued` record what the transport accepted and what was put in the peer's
out buffer; the loop keeps `sent ++ out = queued` except when it truncates a chunk to the
allowance and the transport then pushes back. -/

namespace TypeBit.Engine
open RateLimit

/-- Where the allowance of an iteration comes from, and how sent bytes are charged. -/
structure Limiter (L : Type) where
  allowance : L → Nat × L
  spend : Nat → L → L

def bucketLimiter (now : Nat) : Limiter UploadLimits where
  allowance := UploadLimits.allowance now
  spend := UploadLimits.spend now

structure Link (L T : Type) where
  out : Bytes
  limits : L
  transport : T
  attached : Bool
  sent : Bytes
  queued : Bytes

def SEND_CHUNK : Nat := 16 * 1024

inductive Reply where
  | accepted (n : Nat)
  | pushback
  | failed

def replyOf : Result Nat → Reply
  | .ok n => .accepted n
  | .error .wouldBlock => .pushback
  | .error .notFound => .pushback
  | .error _ => .failed

section Loop
variable {L T : Type} (limiter : Limiter L) (send : T → Bytes → Result Nat × T)

/-- One iteration's view: the allowance, the chunk, and the transport's reply to the truncated chunk. -/
structure Attempt (L T : Type) where
  allowance : Nat
  chunk : Bytes
  limits : L
  transport : T
  reply : Reply

def attempt (s : Link L T) : Attempt L T :=
  let (allowance, limits) := limiter.allowance s.limits
  let chunk := s.out.take SEND_CHUNK
  let (result, transport) := send s.transport (chunk.take allowance)
  ⟨allowance, chunk, limits, transport, replyOf result⟩

def accept (s : Link L T) (a : Attempt L T) (k : Nat) : Link L T :=
  { s with
    limits := limiter.spend k a.limits
    transport := a.transport
    sent := s.sent ++ (a.chunk.take a.allowance).take k
    out := a.chunk.drop k ++ s.out.drop a.chunk.length }

def sendLoop : Nat → Link L T → Link L T
  | 0, s => s
  | n + 1, s =>
      let a := attempt limiter send s
      if a.allowance = 0 ∨ s.out = [] then { s with limits := a.limits }
      else match a.reply with
        | .accepted k =>
            if k < a.chunk.length then accept limiter s a k else sendLoop n (accept limiter s a k)
        | .pushback =>
            { s with
              limits := a.limits
              transport := a.transport
              out := a.chunk.take a.allowance ++ s.out.drop a.chunk.length }
        | .failed =>
            { s with
              limits := a.limits
              transport := a.transport
              out := s.out.drop a.chunk.length
              attached := false }

def SmoothLoop : Nat → Link L T → Prop
  | 0, _ => True
  | n + 1, s =>
      let a := attempt limiter send s
      a.allowance = 0 ∨ s.out = [] ∨
        match a.reply with
        | .accepted k => k < a.chunk.length ∨ SmoothLoop n (accept limiter s a k)
        | .pushback => a.chunk.length ≤ a.allowance
        | .failed => True

end Loop

def pumpSend {L T : Type} (limiter : Limiter L) (send : T → Bytes → Result Nat × T) (s : Link L T) : Link L T :=
  if s.attached = true ∧ s.out ≠ [] then sendLoop limiter send (s.out.length + 1) s else s

/-- What happens to a link between and at the calls: bytes are queued, the throttles are reset,
the transport changes, or the connection is pumped at some time. -/
inductive Event (L T : Type) where
  | queue (b : Bytes)
  | relimit (l : L)
  | network (t : T)
  | pump (now : Nat)

section Runs
variable {L T : Type} (limiter : Nat → Limiter L) (send : T → Bytes → Result Nat × T)

def stepLink (s : Link L T) : Event L T → Link L T
  | .queue b => { s with out := s.out ++ b, queued := s.queued ++ b }
  | .relimit l => { s with limits := l }
  | .network t => { s with transport := t }
  | .pump now => pumpSend (limiter now) send s

def runLink (s : Link L T) (events : List (Event L T)) : Link L T := events.foldl (stepLink limiter send) s

/-- No pump of the run is pushed back in the middle of a truncated chunk. -/
def SmoothRun (s : Link L T) : List (Event L T) → Prop
  | [] => True
  | e :: tail =>
      (match e with
        | .pump now => s.attached = true → s.out ≠ [] → SmoothLoop (limiter now) send (s.out.length + 1) s
        | _ => True) ∧ SmoothRun (stepLink limiter send s e) tail

end Runs

def Link.start {L T : Type} (out : Bytes) (limits : L) (transport : T) : Link L T :=
  ⟨out, limits, transport, true, [], out⟩

/-- What was accepted followed by what is still buffered is what was queued. -/
def Conserved {L T : Type} (s : Link L T) : Prop := s.sent ++ s.out = s.queued

def Short {L T : Type} (s : Link L T) : Prop := s.sent.length + s.out.length < s.queued.length

theorem Conserved.not_short {L T : Type} {s : Link L T} (conserved : Conserved s) : ¬ Short s := by
  have lengths := congrArg List.length conserved
  rw [List.length_append] at lengths
  unfold Short
  omega

section Proofs
variable {L T : Type} {limiter : Limiter L} {send : T → Bytes → Result Nat × T}

theorem chunk_append_rest (limiter : Limiter L) (send : T → Bytes → Result Nat × T) (s : Link L T) :
    (attempt limiter send s).chunk ++ s.out.drop (attempt limiter send s).chunk.length = s.out := by
  have chunk : (attempt limiter send s).chunk = s.out.take SEND_CHUNK := rfl
  rw [chunk, List.length_take]
  by_cases long : SEND_CHUNK ≤ s.out.length
  · rw [min_eq_left long, List.take_append_drop]
  · rw [min_eq_right (by omega), List.take_of_length_le (by omega), List.drop_length, List.append_nil]

variable {s : Link L T} {k : Nat}

theorem accept_conserved (bound : k ≤ (attempt limiter send s).allowance)
    (conserved : Conserved s) : Conserved (accept limiter s (attempt limiter send s) k) := by
  have split := chunk_append_rest limiter send s
  unfold Conserved accept at *
  rw [List.take_take, min_eq_left bound, List.append_assoc, ← List.append_assoc (List.take k _),
    List.take_append_drop, split, conserved]

theorem accept_short (short : Short s) : Short (accept limiter s (attempt limiter send s) k) := by
  have split := congrArg List.length (chunk_append_rest limiter send s)
  unfold Short accept at *
  simp only [List.length_append, List.length_take, List.length_drop] at split ⊢
  omega

theorem attempt_allowance_bound (bounded : ∀ t b n t', send t b = (.ok n, t') → n ≤ b.length)
    (reply : (attempt limiter send s).reply = .accepted k) : k ≤ (attempt limiter send s).allowance := by
  unfold attempt at reply ⊢
  simp only at reply ⊢
  rcases sent : send s.transport ((s.out.take SEND_CHUNK).take (limiter.allowance s.limits).1) with ⟨_ | n, t⟩
  · rw [sent] at reply
    cases ‹Error› <;> cases reply
  · rw [sent] at reply
    cases reply
    have bound := bounded _ _ _ _ sent
    rw [List.length_take] at bound
    exact bound.trans (min_le_left _ _)

theorem sendLoop_short (n : Nat) (short : Short s) : Short (sendLoop limiter send n s) := by
  induction n generalizing s with
  | zero => exact short
  | succ n ih =>
    have split := congrArg List.length (chunk_append_rest limiter send s)
    rw [List.length_append] at split
    unfold sendLoop
    dsimp only
    split_ifs
    · exact short
    · split
      · split_ifs
        · exact accept_short short
        · exact ih (accept_short short)
      · unfold Short at *
        simp only [List.length_append, List.length_take, List.length_drop] at split ⊢
        omega
      · unfold Short at *
        simp only [List.length_drop] at split ⊢
        omega

theorem sendLoop_conserved_iff (bounded : ∀ t b n t', send t b = (.ok n, t') → n ≤ b.length) (n : Nat)
    (conserved : Conserved s) (attached : (sendLoop limiter send n s).attached = true) :
    (SmoothLoop limiter send n s → Conserved (sendLoop limiter send n s)) ∧
      (¬ SmoothLoop limiter send n s → Short (sendLoop limiter send n s)) := by
  induction n generalizing s with
  | zero => exact ⟨fun _ => conserved, fun rough => absurd trivial rough⟩
  | succ n ih =>
    have split := chunk_append_rest limiter send s
    unfold sendLoop at attached ⊢
    unfold SmoothLoop
    dsimp only at attached ⊢
    by_cases idle : (attempt limiter send s).allowance = 0 ∨ s.out = []
    · rw [if_pos idle]
      exact ⟨fun _ => conserved, fun rough => absurd (idle.imp_right Or.inl) rough⟩
    · rw [if_neg idle] at attached ⊢
      rw [not_or] at idle
      cases reply : (attempt limiter send s).reply with
      | accepted k =>
        simp only [reply] at attached ⊢
        have kept := accept_conserved (attempt_allowance_bound bounded reply) conserved
        by_cases partly : k < (attempt limiter send s).chunk.length
        · rw [if_pos partly]
          exact ⟨fun _ => kept, fun rough => absurd (Or.inr (Or.inr (Or.inl partly))) rough⟩
        · rw [if_neg partly] at attached ⊢
          have rest := ih kept attached
          constructor
          · intro smooth
            exact rest.1 (((smooth.resolve_left idle.1).resolve_left idle.2).resolve_left partly)
          · intro rough
            exact rest.2 (fun smooth => rough (Or.inr (Or.inr (Or.inr smooth))))
      | pushback =>
        dsimp only
        constructor
        · intro smooth
          have whole := (smooth.resolve_left idle.1).resolve_left idle.2
          unfold Conserved at *
          simp only
          rw [List.take_of_length_le whole, split, conserved]
        · intro rough
          have truncated : (attempt limiter send s).allowance < (attempt limiter send s).chunk.length := by
            by_contra fits
            exact rough (Or.inr (Or.inr (by omega)))
          have total := congrArg List.length conserved
          have lengths := congrArg List.length split
          unfold Short
          simp only [List.length_append, List.length_take, List.length_drop] at *
          omega
      | failed => simp [reply] at attached

end Proofs

section Runs
variable {L T : Type} {limiter : Nat → Limiter L} {send : T → Bytes → Result Nat × T}

variable {s : Link L T}

theorem stepLink_short (e : Event L T) (short : Short s) : Short (stepLink limiter send s e) := by
  cases e with
  | queue b =>
    unfold Short stepLink at *
    simp only [List.length_append]
    omega
  | relimit l => exact short
  | network t => exact short
  | pump now =>
    unfold stepLink pumpSend
    split_ifs
    · exact sendLoop_short _ short
    · exact short

theorem runLink_short (events : List (Event L T)) (short : Short s) : Short (runLink limiter send s events) := by
  induction events generalizing s with
  | nil => exact short
  | cons e tail ih => exact ih (stepLink_short e short)

theorem sendLoop_detached (n : Nat) {limiter : Limiter L} (detached : s.attached = false) :
    (sendLoop limiter send n s).attached = false := by
  induction n generalizing s with
  | zero => exact detached
  | succ n ih =>
    unfold sendLoop
    dsimp only
    split_ifs
    · exact detached
    · split
      · split_ifs
        · exact detached
        · exact ih detached
      · exact detached
      · rfl

theorem stepLink_detached (e : Event L T) (detached : s.attached = false) : (stepLink limiter send s e).attached = false := by
  cases e with
  | queue b => exact detached
  | relimit l => exact detached
  | network t => exact detached
  | pump now =>
    unfold stepLink pumpSend
    split_ifs
    · exact sendLoop_detached _ detached
    · exact detached

theorem runLink_detached (events : List (Event L T)) (detached : s.attached = false) :
    (runLink limiter send s events).attached = false := by
  induction events generalizing s with
  | nil => exact detached
  | cons e tail ih => exact ih (stepLink_detached e detached)

theorem stepLink_conserved_iff (bounded : ∀ t b n t', send t b = (.ok n, t') → n ≤ b.length)
    (e : Event L T) (conserved : Conserved s) (attached : (stepLink limiter send s e).attached = true) :
    (SmoothRun limiter send s [e] → Conserved (stepLink limiter send s e)) ∧
      (¬ SmoothRun limiter send s [e] → Short (stepLink limiter send s e)) := by
  cases e with
  | queue b =>
    refine ⟨fun _ => ?_, fun rough => absurd ⟨trivial, trivial⟩ rough⟩
    unfold Conserved stepLink at *
    rw [← List.append_assoc, conserved]
  | relimit l => exact ⟨fun _ => conserved, fun rough => absurd ⟨trivial, trivial⟩ rough⟩
  | network t => exact ⟨fun _ => conserved, fun rough => absurd ⟨trivial, trivial⟩ rough⟩
  | pump now =>
    unfold stepLink pumpSend at *
    unfold SmoothRun SmoothRun
    split_ifs at attached ⊢ with ready
    · have loop := sendLoop_conserved_iff bounded _ conserved attached
      constructor
      · intro smooth
        exact loop.1 (smooth.1 ready.1 ready.2)
      · intro rough
        exact loop.2 (fun smooth => rough ⟨fun _ _ => smooth, trivial⟩)
    · refine ⟨fun _ => conserved, fun rough => absurd ⟨?_, trivial⟩ rough⟩
      intro here waiting
      exact absurd ⟨here, waiting⟩ ready

/-- Over any run that leaves the peer attached, the bytes accepted followed by the bytes still
buffered are the bytes queued exactly when no iteration is pushed back with a truncated chunk. -/
theorem upload_conserved_iff (bounded : ∀ t b n t', send t b = (.ok n, t') → n ≤ b.length) (out : Bytes)
    (limits : L) (transport : T) (events : List (Event L T))
    (attached : (runLink limiter send (Link.start out limits transport) events).attached = true) :
    Conserved (runLink limiter send (Link.start out limits transport) events) ↔
      SmoothRun limiter send (Link.start out limits transport) events := by
  have general : ∀ s : Link L T, Conserved s → (runLink limiter send s events).attached = true →
      (Conserved (runLink limiter send s events) ↔ SmoothRun limiter send s events) := by
    clear attached
    induction events with
    | nil => exact fun s conserved _ => ⟨fun _ => trivial, fun _ => conserved⟩
    | cons e tail ih =>
      intro s conserved attached
      have still : (stepLink limiter send s e).attached = true := by
        by_contra gone
        have detached : (runLink limiter send (stepLink limiter send s e) tail).attached = false :=
          runLink_detached tail (by simpa using gone)
        exact absurd attached (by rw [runLink, List.foldl_cons]; exact detached ▸ Bool.false_ne_true)
      obtain ⟨keeps, loses⟩ := stepLink_conserved_iff bounded e conserved still
      by_cases smooth : SmoothRun limiter send s [e]
      · have rest := ih _ (keeps smooth) attached
        exact ⟨fun kept => ⟨smooth.1, rest.mp kept⟩, fun run => rest.mpr run.2⟩
      · have short : Short (runLink limiter send s (e :: tail)) := runLink_short tail (loses smooth)
        exact ⟨fun kept => absurd short kept.not_short, fun run => absurd ⟨run.1, trivial⟩ smooth⟩
  exact general _ rfl attached

end Runs

def scripted : List (Result Nat) → Bytes → Result Nat × List (Result Nat)
  | [], _ => (.error .wouldBlock, [])
  | .ok n :: tail, b => (.ok (min n b.length), tail)
  | .error e :: tail, _ => (.error e, tail)

theorem scripted_bounded : ∀ t b n t', scripted t b = (.ok n, t') → n ≤ b.length := by
  intro t b n t' sent
  rcases t with _ | ⟨_ | k, tail⟩
  · cases sent
  · cases sent
  · cases sent
    exact min_le_right _ _

def shareLimits (share : Nat) : UploadLimits := ⟨TokenBucket.newUpload 0 0, share, TokenBucket.newUpload 0 0⟩

theorem upload_conserved_two_pumps :
    Conserved (runLink bucketLimiter scripted (.start [1, 2, 3] (shareLimits 8) [.ok 2]) [.pump 0, .pump 1]) ↔
      SmoothRun bucketLimiter scripted (.start [1, 2, 3] (shareLimits 8) [.ok 2]) [.pump 0, .pump 1] :=
  upload_conserved_iff scripted_bounded [1, 2, 3] (shareLimits 8) [.ok 2] [.pump 0, .pump 1] (by decide)

/-- A two-byte share of a four-byte chunk and a blocked socket lose the other two bytes. -/
theorem truncated_chunk_lost : ¬ ∀ (T : Type) (send : T → Bytes → Result Nat × T),
    (∀ t b n t', send t b = (.ok n, t') → n ≤ b.length) →
    ∀ (out : Bytes) (limits : UploadLimits) (transport : T) (events : List (Event UploadLimits T)),
      (runLink bucketLimiter send (.start out limits transport) events).attached = true →
      Conserved (runLink bucketLimiter send (.start out limits transport) events) := by
  intro always
  have kept := always _ scripted scripted_bounded [1, 2, 3, 4] (shareLimits 2) [] [.pump 0] (by decide)
  exact absurd kept (by unfold Conserved; decide)

end TypeBit.Engine
