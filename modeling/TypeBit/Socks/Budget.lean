import TypeBit.Socks.Handshake

/-! What one call of `pump` costs when the proxy decides every result: the call one socket operation at a time, the work
that is left at each of them, and that the operations of `pump` are these. -/

namespace TypeBit.Socks

/-! ### A call, one operation at a time -/

/-- What a call does next. Within a pass it remembers what has been moved and the phase that the pass began in. -/
inductive Point where
  | sending (sentAny : Bool) (phaseBefore : SocksPhase)
  | receiving (readBudget : Nat) (recvAny sentAny : Bool) (phaseBefore : SocksPhase)
  | returned (r : Result SocksStatus)

/-- A call that is under way, with the number of times that it has used the socket. -/
structure Call (H : Type) where
  point : Point
  client : Socks5Client
  host : H
  calls : Nat

section Machine
variable {H : Type} (socket : Socket H) (now : Nat)

def loopHead (c : Socks5Client) : Point := if c.timedOut now then .returned (.error .timeout) else .sending false c.phase

def afterSending (sentAny : Bool) (phaseBefore : SocksPhase) (c : Socks5Client) (h : H) (calls : Nat) : Call H :=
  if c.out ≠ [] ∧ c.out.length ≤ c.outOff then
    match c.afterSend.consumeFrame with
    | .error e => ⟨.returned (.error e), c.afterSend, h, calls⟩
    | .ok (true, c) => ⟨.returned (.ok .done), c, h, calls⟩
    | .ok (false, c) => ⟨.receiving MAX_SOCKS_READ_PER_PUMP false sentAny phaseBefore, c, h, calls⟩
  else ⟨.receiving MAX_SOCKS_READ_PER_PUMP false sentAny phaseBefore, c, h, calls⟩

def endPass (recvAny sentAny : Bool) (phaseBefore : SocksPhase) (c : Socks5Client) (h : H) (calls : Nat) : Call H :=
  if sentAny = false ∧ recvAny = false ∧ c.phase = phaseBefore then ⟨.returned (.ok .inProgress), c, h, calls⟩
  else if c.done then ⟨.returned (.ok .done), c, h, calls⟩
  else ⟨loopHead now c, c, h, calls⟩

/-- The bytes of a read are buffered, up to the cap, and a reply is taken off them. -/
def received (b : Bytes) (budget : Nat) (sentAny : Bool) (phaseBefore : SocksPhase) (c : Socks5Client) (h : H)
    (calls : Nat) : Call H :=
  if MAX_SOCKS_FRAME < c.rx.length + b.length then ⟨.returned (.error .protocol), c, h, calls⟩
  else match { c with rx := c.rx ++ b }.consumeFrame with
    | .error e => ⟨.returned (.error e), { c with rx := c.rx ++ b }, h, calls⟩
    | .ok (true, c) => ⟨.returned (.ok .done), c, h, calls⟩
    | .ok (false, c) => ⟨.receiving (budget - b.length) true sentAny phaseBefore, c, h, calls⟩

def step : Call H → Call H
  | ⟨.sending sentAny phaseBefore, c, h, calls⟩ =>
      if c.outOff < c.out.length then
        match socket.tcpSend (c.out.drop c.outOff) h with
        | (.ok 0, h) => afterSending sentAny phaseBefore c h (calls + 1)
        | (.error .wouldBlock, h) => afterSending sentAny phaseBefore c h (calls + 1)
        | (.ok n, h) => ⟨.sending true phaseBefore, { c with outOff := c.outOff + n }, h, calls + 1⟩
        | (.error e, h) => ⟨.returned (.error e), c, h, calls + 1⟩
      else afterSending sentAny phaseBefore c h calls
  | ⟨.receiving readBudget recvAny sentAny phaseBefore, c, h, calls⟩ =>
      if 0 < readBudget then
        match socket.tcpRecv (min 512 readBudget) h with
        | (.ok [], h) => endPass now recvAny sentAny phaseBefore c h (calls + 1)
        | (.ok b, h) => received b readBudget sentAny phaseBefore c h (calls + 1)
        | (.error .wouldBlock, h) => endPass now recvAny sentAny phaseBefore c h (calls + 1)
        | (.error e, h) => ⟨.returned (.error e), c, h, calls + 1⟩
      else endPass now recvAny sentAny phaseBefore c h calls
  | ⟨.returned r, c, h, calls⟩ => ⟨.returned r, c, h, calls⟩

def begin_ (c : Socks5Client) (h : H) : Call H := ⟨if c.done then .returned (.ok .done) else loopHead now c, c, h, 0⟩

def callAfter (c : Socks5Client) (h : H) (n : Nat) : Call H := (step socket now)^[n] (begin_ now c h)

end Machine

/-- The socket reports at most the length of the slice it was given. -/
structure Socket.Bounded {H : Type} (socket : Socket H) : Prop where
  sent_le {b : Bytes} {n : Nat} {h h' : H} : socket.tcpSend b h = (.ok n, h') → n ≤ b.length
  recv_le {want : Nat} {b : Bytes} {h h' : H} : socket.tcpRecv want h = (.ok b, h') → b.length ≤ want

/-- The clients there are: made by `new`, or left behind by a call at some step of it. -/
inductive Socks5Client.Reached : Socks5Client → Prop where
  | new (target : SocksTarget) (cfg : ProxyConfig) (now : Nat) : Reached (.new target cfg now)
  | call {c : Socks5Client} {H : Type} {socket : Socket H} (now : Nat) (h : H) (n : Nat) : Reached c → socket.Bounded →
      Reached (callAfter socket now c h n).client

/-! ### The work that is left -/

/-- No frame is longer than the one with a name and a password of 255 bytes, and nothing is buffered beyond the cap. -/
structure Socks5Client.Sized (c : Socks5Client) : Prop where
  rx : c.rx.length ≤ MAX_SOCKS_FRAME
  off : c.outOff ≤ c.out.length
  out : c.out.length ≤ 513

/-- The phases to come weigh more than the bytes of any frame; then come the bytes left to send and the room to receive. -/
def workLeft (c : Socks5Client) : Nat :=
  (6 - rank c.phase) * 1024 + (c.out.length - c.outOff) + (MAX_SOCKS_FRAME - c.rx.length)

def Call.weight {H : Type} (x : Call H) : Nat :=
  match x.point with
  | .sending sentAny before => 4 * workLeft x.client + (if sentAny ∨ x.client.phase ≠ before then 3 else 0) + 2
  | .receiving _ recvAny sentAny before =>
      4 * workLeft x.client + (if recvAny ∨ sentAny ∨ x.client.phase ≠ before then 3 else 0) + 1
  | .returned _ => 0

section Frames

theorem length_greeting (cfg : ProxyConfig) : (greeting cfg).length ≤ 513 := by
  unfold greeting
  split_ifs <;> decide

theorem length_authFrame (cfg : ProxyConfig) : (authFrame cfg).length ≤ 513 := by
  unfold authFrame
  simp only [List.length_append, List.length_cons, List.length_nil, List.length_take]
  omega

theorem length_connectFrame (target : SocksTarget) : (connectFrame target).length ≤ 513 := by
  cases target with
  | ip addr =>
    cases addr with
    | v4 ip port => simp [connectFrame, portBytes, ip.property]
    | v6 ip port => simp [connectFrame, portBytes, ip.property]
  | domain host port =>
    simp only [connectFrame, portBytes, List.length_append, List.length_cons, List.length_nil, List.length_take]
    omega

end Frames

section Client
variable {c c' : Socks5Client}

theorem sized_new (target : SocksTarget) (cfg : ProxyConfig) (now : Nat) : (Socks5Client.new target cfg now).Sized :=
  ⟨Nat.zero_le _, Nat.zero_le _, length_greeting cfg⟩

theorem next_frame {c' : Socks5Client} (sized : c.Sized) (later : rank c.phase < rank c'.phase) (frame : c'.out.length ≤ 513)
    (start : c'.outOff = 0) (taken : c.rx.length ≤ c'.rx.length + 2) (fits : c'.rx.length ≤ c.rx.length) :
    c'.Sized ∧ workLeft c' < workLeft c := by
  have few : rank c'.phase ≤ 6 := by cases c'.phase <;> decide
  have room := sized.rx
  refine ⟨⟨fits.trans room, by omega, frame⟩, ?_⟩
  unfold workLeft MAX_SOCKS_FRAME at *
  omega

theorem consumeFrame_work {d : Bool} (sized : c.Sized) (consumed : c.consumeFrame = .ok (d, c')) :
    c'.Sized ∧ (c' = c ∨ d = true ∨ workLeft c' < workLeft c) := by
  have same : c' = c → c'.Sized ∧ (c' = c ∨ d = true ∨ workLeft c' < workLeft c) := by
    rintro rfl
    exact ⟨sized, .inl rfl⟩
  have next : rank c.phase < rank c'.phase → c'.out.length ≤ 513 → c'.outOff = 0 → c.rx.length = c'.rx.length + 2 →
      c'.Sized ∧ (c' = c ∨ d = true ∨ workLeft c' < workLeft c) := by
    intro later frame start taken
    obtain ⟨fits, less⟩ := next_frame sized later frame start (by omega) (by omega)
    exact ⟨fits, .inr (.inr less)⟩
  obtain ⟨target, cfg, phase, out, outOff, rx, deadline⟩ := c
  cases phase with
  | sendGreeting | sendAuth | sendConnect | done =>
    simp only [Socks5Client.consumeFrame, Except.ok.injEq, Prod.mk.injEq] at consumed
    exact same consumed.2.symm
  | recvMethod =>
    rcases rx with _ | ⟨version, _ | ⟨method, rest⟩⟩
    · simp only [Socks5Client.consumeFrame, Except.ok.injEq, Prod.mk.injEq] at consumed
      exact same consumed.2.symm
    · simp only [Socks5Client.consumeFrame, Except.ok.injEq, Prod.mk.injEq] at consumed
      exact same consumed.2.symm
    · simp only [Socks5Client.consumeFrame] at consumed
      split_ifs at consumed with bad plain login
      · cases consumed
        exact next (by decide : 1 < 4) (length_connectFrame target) rfl rfl
      · cases consumed
        exact next (by decide : 1 < 2) (length_authFrame cfg) rfl rfl
  | recvAuth =>
    rcases rx with _ | ⟨version, _ | ⟨status, rest⟩⟩
    · simp only [Socks5Client.consumeFrame, Except.ok.injEq, Prod.mk.injEq] at consumed
      exact same consumed.2.symm
    · simp only [Socks5Client.consumeFrame, Except.ok.injEq, Prod.mk.injEq] at consumed
      exact same consumed.2.symm
    · simp only [Socks5Client.consumeFrame] at consumed
      split_ifs at consumed with bad
      cases consumed
      exact next (by decide : 3 < 4) (length_connectFrame target) rfl rfl
  | recvReply =>
    rcases rx with _ | ⟨version, _ | ⟨code, _ | ⟨rsv, _ | ⟨atyp, addr⟩⟩⟩⟩
    · simp only [Socks5Client.consumeFrame, Except.ok.injEq, Prod.mk.injEq] at consumed
      exact same consumed.2.symm
    · simp only [Socks5Client.consumeFrame, Except.ok.injEq, Prod.mk.injEq] at consumed
      exact same consumed.2.symm
    · simp only [Socks5Client.consumeFrame, Except.ok.injEq, Prod.mk.injEq] at consumed
      exact same consumed.2.symm
    · simp only [Socks5Client.consumeFrame, Except.ok.injEq, Prod.mk.injEq] at consumed
      exact same consumed.2.symm
    · simp only [Socks5Client.consumeFrame] at consumed
      split_ifs at consumed with bad refused
      cases extra : replyExtra atyp addr with
      | error e =>
        rw [extra] at consumed
        cases consumed
      | ok known =>
        rw [extra] at consumed
        cases known with
        | none =>
          simp only [Except.ok.injEq, Prod.mk.injEq] at consumed
          exact same consumed.2.symm
        | some n =>
          dsimp only at consumed
          split_ifs at consumed with short
          · simp only [Except.ok.injEq, Prod.mk.injEq] at consumed
            exact same consumed.2.symm
          · simp only [Except.ok.injEq, Prod.mk.injEq] at consumed
            obtain ⟨rfl, rfl⟩ := consumed
            refine ⟨⟨?_, sized.off, sized.out⟩, .inr (.inl rfl)⟩
            have room := sized.rx
            simp only [List.length_cons, List.length_drop] at room ⊢
            omega

theorem sized_afterSend (sized : c.Sized) : c.afterSend.Sized := ⟨sized.rx, Nat.le_refl 0, Nat.zero_le 513⟩

theorem afterSend_work (sent : c.out.length ≤ c.outOff) :
    c.afterSend.phase = c.phase ∧ workLeft c.afterSend ≤ workLeft c ∨ workLeft c.afterSend < workLeft c := by
  obtain ⟨target, cfg, phase, out, outOff, rx, deadline⟩ := c
  dsimp only at sent
  cases phase <;> simp [Socks5Client.afterSend, workLeft, rank] <;> omega

end Client

section Weight
variable {H : Type} {socket : Socket H} {now : Nat}

def Lighter (x y : Call H) : Prop := y.client.Sized ∧ y.weight < x.weight

variable {before : SocksPhase} {c : Socks5Client} {h h' : H} {calls calls' : Nat}

theorem afterSending_lighter {sentAny : Bool} (sized : c.Sized) :
    Lighter ⟨.sending sentAny before, c, h', calls'⟩ (afterSending sentAny before c h calls) := by
  unfold afterSending
  split_ifs with sent
  · cases consumed : c.afterSend.consumeFrame with
    | error e => exact ⟨sized_afterSend sized, by simp [Call.weight]⟩
    | ok p =>
      obtain ⟨d, c'⟩ := p
      obtain ⟨fits, work⟩ := consumeFrame_work (sized_afterSend sized) consumed
      have flushed := afterSend_work sent.2
      cases d with
      | true => exact ⟨fits, by simp [Call.weight]⟩
      | false =>
        refine ⟨fits, ?_⟩
        unfold Call.weight
        dsimp only
        have less : c'.phase = c.phase ∧ workLeft c' ≤ workLeft c ∨ workLeft c' < workLeft c := by
          rcases work with rfl | ended | less
          · exact flushed
          · cases ended
          · right
            omega
        rcases less with ⟨phase, less⟩ | less
        · simp only [phase, Bool.false_eq_true, false_or]
          omega
        · split_ifs <;> omega
  · refine ⟨sized, ?_⟩
    simp only [Call.weight, Bool.false_eq_true, false_or]
    omega

theorem endPass_lighter {recvAny sentAny : Bool} {budget : Nat} (sized : c.Sized) :
    Lighter ⟨.receiving budget recvAny sentAny before, c, h', calls'⟩ (endPass now recvAny sentAny before c h calls) := by
  unfold endPass
  split_ifs with still done
  · exact ⟨sized, by simp [Call.weight]⟩
  · exact ⟨sized, by simp [Call.weight]⟩
  · have moved : recvAny ∨ sentAny ∨ c.phase ≠ before := by
      by_contra none
      simp only [not_or, Bool.not_eq_true, not_not] at none
      exact still ⟨none.2.1, none.1, none.2.2⟩
    refine ⟨sized, ?_⟩
    unfold loopHead
    split_ifs with late
    · simp [Call.weight]
    · unfold Call.weight
      dsimp only
      rw [if_pos moved]
      simp

theorem received_lighter {b : Bytes} {budget : Nat} {recvAny sentAny : Bool} (sized : c.Sized) (some_ : b ≠ []) :
    Lighter ⟨.receiving budget recvAny sentAny before, c, h', calls'⟩ (received b budget sentAny before c h calls) := by
  have taken := List.length_pos_iff.mpr some_
  unfold received
  split_ifs with full
  · exact ⟨sized, by simp [Call.weight]⟩
  · have room : (c.rx ++ b).length ≤ MAX_SOCKS_FRAME := by
      rw [List.length_append]
      omega
    have fits : Socks5Client.Sized { c with rx := c.rx ++ b } := ⟨room, sized.off, sized.out⟩
    have buffered : workLeft { c with rx := c.rx ++ b } < workLeft c := by
      unfold workLeft
      rw [List.length_append] at *
      dsimp only
      omega
    cases consumed : Socks5Client.consumeFrame { c with rx := c.rx ++ b } with
    | error e => exact ⟨fits, by simp [Call.weight]⟩
    | ok p =>
      obtain ⟨d, c'⟩ := p
      obtain ⟨fits', work⟩ := consumeFrame_work fits consumed
      cases d with
      | true => exact ⟨fits', by simp [Call.weight]⟩
      | false =>
        have less : workLeft c' < workLeft c := by
          rcases work with rfl | ended | less
          · exact buffered
          · cases ended
          · exact less.trans buffered
        refine ⟨fits', ?_⟩
        unfold Call.weight
        dsimp only
        split_ifs <;> omega

variable {x : Call H}

theorem step_lighter (now : Nat) (bounded : socket.Bounded) (sized : x.client.Sized) (open_ : ∀ r, x.point ≠ .returned r) :
    Lighter x (step socket now x) := by
  obtain ⟨point, c, h, calls⟩ := x
  cases point with
  | returned r => exact absurd rfl (open_ r)
  | sending sentAny before =>
    rw [step]
    split_ifs with more
    · cases answer : socket.tcpSend (c.out.drop c.outOff) h with
      | mk r h' =>
        rcases r with e | n
        · cases e <;> first | exact afterSending_lighter sized | exact ⟨sized, by simp [Call.weight]⟩
        · cases n with
          | zero => exact afterSending_lighter sized
          | succ n =>
            have within := bounded.sent_le answer
            rw [List.length_drop] at within
            show Lighter _ ⟨.sending true before, { c with outOff := c.outOff + (n + 1) }, h', calls + 1⟩
            refine ⟨⟨sized.rx, ?_, sized.out⟩, ?_⟩
            · show c.outOff + (n + 1) ≤ c.out.length
              omega
            · unfold Call.weight workLeft
              dsimp only
              split_ifs <;> omega
    · exact afterSending_lighter sized
  | receiving budget recvAny sentAny before =>
    rw [step]
    split_ifs with more
    · cases answer : socket.tcpRecv (min 512 budget) h with
      | mk r h' =>
        rcases r with e | b
        · cases e <;> first | exact endPass_lighter sized | exact ⟨sized, by simp [Call.weight]⟩
        · cases b with
          | nil => exact endPass_lighter sized
          | cons a b => exact received_lighter sized (List.cons_ne_nil a b)
    · exact endPass_lighter sized

theorem step_returned {r : Result SocksStatus} (ended : x.point = .returned r) : step socket now x = x := by
  obtain ⟨point, c, h, calls⟩ := x
  dsimp only at ended
  rw [ended]
  rfl

theorem step_sized (bounded : socket.Bounded) (sized : x.client.Sized) : (step socket now x).client.Sized := by
  by_cases ended : ∃ r, x.point = .returned r
  · obtain ⟨r, ended⟩ := ended
    rwa [step_returned ended]
  · exact (step_lighter now bounded sized (not_exists.mp ended)).1

@[simp] theorem calls_afterSending (sentAny : Bool) (before : SocksPhase) (c : Socks5Client) (h : H) (calls : Nat) :
    (afterSending sentAny before c h calls).calls = calls := by
  unfold afterSending
  split_ifs
  · cases c.afterSend.consumeFrame with
    | error e => rfl
    | ok p =>
      obtain ⟨d, c'⟩ := p
      cases d <;> rfl
  · rfl

@[simp] theorem calls_endPass (recvAny sentAny : Bool) (before : SocksPhase) (c : Socks5Client) (h : H) (calls : Nat) :
    (endPass now recvAny sentAny before c h calls).calls = calls := by
  unfold endPass
  split_ifs <;> rfl

@[simp] theorem calls_received (b : Bytes) (budget : Nat) (sentAny : Bool) (before : SocksPhase) (c : Socks5Client) (h : H)
    (calls : Nat) : (received b budget sentAny before c h calls).calls = calls := by
  unfold received
  split_ifs
  · rfl
  · cases Socks5Client.consumeFrame { c with rx := c.rx ++ b } with
    | error e => rfl
    | ok p =>
      obtain ⟨d, c'⟩ := p
      cases d <;> rfl

theorem step_calls (x : Call H) : (step socket now x).calls ≤ x.calls + 1 := by
  obtain ⟨point, c, h, calls⟩ := x
  cases point with
  | returned r => exact Nat.le_succ calls
  | sending sentAny before =>
    rw [step]
    split_ifs
    · split <;> simp
    · simp
  | receiving budget recvAny sentAny before =>
    rw [step]
    split_ifs
    · split <;> simp
    · simp

theorem iterate_calls (x : Call H) (n : Nat) : ((step socket now)^[n] x).calls ≤ x.calls + n := by
  induction n with
  | zero => exact Nat.le_refl _
  | succ n ih =>
    rw [Function.iterate_succ_apply']
    have one := @step_calls H socket now ((step socket now)^[n] x)
    omega

theorem iterate_sized (now : Nat) (bounded : socket.Bounded) {x : Call H} (sized : x.client.Sized) (n : Nat) :
    ((step socket now)^[n] x).client.Sized := by
  induction n with
  | zero => exact sized
  | succ n ih =>
    rw [Function.iterate_succ_apply']
    exact step_sized bounded ih

theorem iterate_returned {r : Result SocksStatus} (ended : x.point = .returned r) (n : Nat) : (step socket now)^[n] x = x :=
  Function.iterate_fixed (step_returned ended) n

theorem iterate_weight (now : Nat) (bounded : socket.Bounded) {x : Call H} (sized : x.client.Sized) {n : Nat}
    (enough : x.weight ≤ n) :
    ∃ r, ((step socket now)^[n] x).point = .returned r := by
  induction n generalizing x with
  | zero =>
    by_contra open_
    have less := (step_lighter now bounded sized (not_exists.mp open_)).2
    omega
  | succ n ih =>
    by_cases ended : ∃ r, x.point = .returned r
    · obtain ⟨r, ended⟩ := ended
      rw [iterate_returned ended]
      exact ⟨r, ended⟩
    · obtain ⟨fits, less⟩ := step_lighter now bounded sized (not_exists.mp ended)
      rw [Function.iterate_succ_apply]
      exact ih fits (by omega)

end Weight

theorem Socks5Client.Reached.sized {c : Socks5Client} (reached : c.Reached) : c.Sized := by
  induction reached with
  | new target cfg now => exact sized_new target cfg now
  | call now h n _ bounded ih => exact iterate_sized now bounded ih n

/-- The most steps that a call takes, whoever answers. -/
def MAX_STEPS : Nat := 4 * (6 * 1024 + 513 + MAX_SOCKS_FRAME) + 2

theorem weight_begin {H : Type} (now : Nat) {c : Socks5Client} (sized : c.Sized) (h : H) :
    (begin_ now c h).weight ≤ MAX_STEPS := by
  have out := sized.out
  unfold begin_ loopHead MAX_STEPS
  split_ifs
  · exact Nat.zero_le _
  · exact Nat.zero_le _
  · simp only [Call.weight, workLeft, Bool.false_eq_true, false_or, ne_eq, not_true_eq_false, if_false]
    omega

/-! ### The loops of `pump` -/

section Loops
variable {H : Type} {socket : Socket H} {now : Nat}

def Leads (socket : Socket H) (now : Nat) (x y : Call H) : Prop := ∃ k, (step socket now)^[k + 1] x = y

theorem Leads.once (socket : Socket H) (now : Nat) (x : Call H) : Leads socket now x (step socket now x) := ⟨0, rfl⟩

theorem Leads.trans {x y z : Call H} (first : Leads socket now x y) (second : Leads socket now y z) : Leads socket now x z := by
  obtain ⟨k, rfl⟩ := first
  obtain ⟨m, rfl⟩ := second
  exact ⟨m + 1 + k, Function.iterate_add_apply _ (m + 1) (k + 1) x⟩

theorem Leads.next {x y : Call H} (rest : Leads socket now (step socket now x) y) : Leads socket now x y :=
  (Leads.once socket now x).trans rest

variable {x y : Call H}

theorem Leads.lighter (bounded : socket.Bounded) (leads : Leads socket now x y) (sized : x.client.Sized)
    (open_ : ∀ r, y.point ≠ .returned r) : Lighter x y := by
  obtain ⟨k, rfl⟩ := leads
  induction k with
  | zero =>
    apply step_lighter now bounded sized
    intro r ended
    apply open_ r
    rw [Function.iterate_one, step_returned ended, ended]
  | succ k ih =>
    rw [Function.iterate_succ_apply'] at open_ ⊢
    have before : ∀ r, ((step socket now)^[k + 1] x).point ≠ .returned r := by
      intro r ended
      apply open_ r
      rw [step_returned ended, ended]
    obtain ⟨fits, less⟩ := ih before
    obtain ⟨fits', less'⟩ := step_lighter now bounded fits before
    exact ⟨fits', less'.trans less⟩

def SentTo (socket : Socket H) (now : Nat) (x : Call H) (before : SocksPhase) : Result Bool × Socks5Client × H → Prop
  | (.error e, c, h) => ∃ calls, Leads socket now x ⟨.returned (.error e), c, h, calls⟩
  | (.ok sentAny, c, h) => ∃ calls, Leads socket now x (afterSending sentAny before c h calls)

theorem SentTo.next {x : Call H} {before : SocksPhase} {r : Result Bool × Socks5Client × H}
    (rest : SentTo socket now (step socket now x) before r) : SentTo socket now x before r := by
  obtain ⟨r, c, h⟩ := r
  cases r with
  | error e =>
    obtain ⟨calls, leads⟩ := rest
    exact ⟨calls, leads.next⟩
  | ok sentAny =>
    obtain ⟨calls, leads⟩ := rest
    exact ⟨calls, leads.next⟩

theorem sendLoop_leads (n : Nat) {sentAny : Bool} {before : SocksPhase} {c : Socks5Client} {h : H} {calls : Nat}
    (enough : c.out.length - c.outOff ≤ n) :
    SentTo socket now ⟨.sending sentAny before, c, h, calls⟩ before (sendLoop socket n sentAny c h) := by
  induction n generalizing sentAny c h calls with
  | zero =>
    have all : ¬ c.outOff < c.out.length := by omega
    have one := Leads.once socket now ⟨.sending sentAny before, c, h, calls⟩
    rw [step, if_neg all] at one
    exact ⟨calls, one⟩
  | succ n ih =>
    have one := Leads.once socket now ⟨.sending sentAny before, c, h, calls⟩
    rw [sendLoop]
    by_cases more : c.outOff < c.out.length
    · rw [step, if_pos more] at one
      rw [if_pos more]
      cases answer : socket.tcpSend (c.out.drop c.outOff) h with
      | mk r h' =>
        rw [answer] at one
        rcases r with e | k
        · cases e <;> exact ⟨calls + 1, one⟩
        · cases k with
          | zero => exact ⟨calls + 1, one⟩
          | succ k =>
            apply SentTo.next
            rw [step, if_pos more, answer]
            apply ih
            show c.out.length - (c.outOff + (k + 1)) ≤ n
            omega
    · rw [step, if_neg more] at one
      rw [if_neg more]
      exact ⟨calls, one⟩

def ReceivedTo (socket : Socket H) (now : Nat) (x : Call H) (sentAny : Bool) (before : SocksPhase) :
    Result Progress × Socks5Client × H → Prop
  | (.error e, _, h) => ∃ c calls, Leads socket now x ⟨.returned (.error e), c, h, calls⟩
  | (.ok .done, c, h) => ∃ calls, Leads socket now x ⟨.returned (.ok .done), c, h, calls⟩
  | (.ok .idle, c, h) => ∃ calls, Leads socket now x (endPass now false sentAny before c h calls)
  | (.ok .moved, c, h) => ∃ calls, Leads socket now x (endPass now true sentAny before c h calls)

theorem ReceivedTo.next {x : Call H} {sentAny : Bool} {before : SocksPhase} {r : Result Progress × Socks5Client × H}
    (rest : ReceivedTo socket now (step socket now x) sentAny before r) : ReceivedTo socket now x sentAny before r := by
  obtain ⟨r, c, h⟩ := r
  cases r with
  | error e =>
    obtain ⟨c, calls, leads⟩ := rest
    exact ⟨c, calls, leads.next⟩
  | ok progress =>
    cases progress <;> (obtain ⟨calls, leads⟩ := rest; exact ⟨calls, leads.next⟩)

def progressOf (recvAny : Bool) : Progress := if recvAny then .moved else .idle

variable {c : Socks5Client} {h : H}

theorem recvLoop_ended {recvAny sentAny : Bool} {before : SocksPhase} {calls : Nat}
    (leads : Leads socket now x (endPass now recvAny sentAny before c h calls)) :
    ReceivedTo socket now x sentAny before (.ok (progressOf recvAny), c, h) := by
  cases recvAny with
  | false => exact ⟨calls, leads⟩
  | true => exact ⟨calls, leads⟩

theorem recvLoop_leads (n : Nat) {budget : Nat} {recvAny sentAny : Bool} {before : SocksPhase} {c : Socks5Client} {h : H}
    {calls : Nat} (enough : budget ≤ n) :
    ReceivedTo socket now ⟨.receiving budget recvAny sentAny before, c, h, calls⟩ sentAny before
      (recvLoop socket n budget (progressOf recvAny) c h) := by
  induction n generalizing budget recvAny c h calls with
  | zero =>
    have spent : ¬ 0 < budget := by omega
    have one := Leads.once socket now ⟨.receiving budget recvAny sentAny before, c, h, calls⟩
    rw [step, if_neg spent] at one
    exact recvLoop_ended one
  | succ n ih =>
    have one := Leads.once socket now ⟨.receiving budget recvAny sentAny before, c, h, calls⟩
    rw [recvLoop]
    by_cases more : 0 < budget
    · rw [step, if_pos more] at one
      rw [if_pos more]
      cases answer : socket.tcpRecv (min 512 budget) h with
      | mk r h' =>
        rw [answer] at one
        rcases r with e | b
        · cases e <;> first | exact recvLoop_ended one | exact ⟨c, calls + 1, one⟩
        · rcases b with _ | ⟨a, b⟩
          · exact recvLoop_ended one
          · dsimp only at one ⊢
            rw [received] at one
            by_cases full : MAX_SOCKS_FRAME < c.rx.length + (a :: b).length
            · rw [if_pos full] at one ⊢
              exact ⟨c, calls + 1, one⟩
            · rw [if_neg full] at one ⊢
              cases consumed : Socks5Client.consumeFrame { c with rx := c.rx ++ (a :: b) } with
              | error e =>
                rw [consumed] at one
                exact ⟨_, calls + 1, one⟩
              | ok p =>
                obtain ⟨d, c'⟩ := p
                rw [consumed] at one
                cases d with
                | true => exact ⟨calls + 1, one⟩
                | false =>
                  apply ReceivedTo.next
                  rw [step, if_pos more, answer]
                  dsimp only
                  rw [received, if_neg full, consumed]
                  apply @ih _ true
                  rw [List.length_cons]
                  omega
    · rw [step, if_neg more] at one
      rw [if_neg more]
      exact recvLoop_ended one

def PassedTo (socket : Socket H) (now : Nat) (x : Call H) : Result Progress × Socks5Client × H → Prop
  | (.error e, _, h) => ∃ c calls, Leads socket now x ⟨.returned (.error e), c, h, calls⟩
  | (.ok .done, c, h) => ∃ calls, Leads socket now x ⟨.returned (.ok .done), c, h, calls⟩
  | (.ok .idle, c, h) => ∃ calls, Leads socket now x ⟨.returned (.ok .inProgress), c, h, calls⟩
  | (.ok .moved, c, h) => ∃ calls, Leads socket now x
      (if c.done then ⟨.returned (.ok .done), c, h, calls⟩ else ⟨loopHead now c, c, h, calls⟩)

theorem afterSending_error {e : Error} (flushed : c.flushed = .error e) (sentAny : Bool) (before : SocksPhase)
    (h : H) (calls : Nat) : ∃ c', afterSending sentAny before c h calls = ⟨.returned (.error e), c', h, calls⟩ := by
  unfold Socks5Client.flushed at flushed
  unfold afterSending
  split_ifs at flushed ⊢ with sent
  refine ⟨c.afterSend, ?_⟩
  rw [flushed]

theorem afterSending_ok {c c' : Socks5Client} {d : Bool} (flushed : c.flushed = .ok (d, c')) (sentAny : Bool)
    (before : SocksPhase) (h : H) (calls : Nat) : afterSending sentAny before c h calls =
      ⟨if d then .returned (.ok .done) else .receiving MAX_SOCKS_READ_PER_PUMP false sentAny before, c', h, calls⟩ := by
  unfold Socks5Client.flushed at flushed
  unfold afterSending
  by_cases sent : c.out ≠ [] ∧ c.out.length ≤ c.outOff
  · rw [if_pos sent] at flushed ⊢
    rw [flushed]
    cases d <;> rfl
  · rw [if_neg sent] at flushed ⊢
    obtain ⟨rfl, rfl⟩ := Prod.mk.inj (Except.ok.inj flushed)
    rfl

theorem ReceivedTo.after {sentAny : Bool} {before : SocksPhase} {r : Result Progress × Socks5Client × H}
    (first : Leads socket now x y) (rest : ReceivedTo socket now y sentAny before r) :
    ReceivedTo socket now x sentAny before r := by
  obtain ⟨r, c, h⟩ := r
  cases r with
  | error e =>
    obtain ⟨c, calls, leads⟩ := rest
    exact ⟨c, calls, first.trans leads⟩
  | ok progress =>
    cases progress <;> (obtain ⟨calls, leads⟩ := rest; exact ⟨calls, first.trans leads⟩)

theorem pass_leads (c : Socks5Client) (h : H) (calls : Nat) :
    PassedTo socket now ⟨.sending false c.phase, c, h, calls⟩ (pass socket c h) := by
  have sending := @sendLoop_leads H socket now (c.out.length - c.outOff) false c.phase c h calls (le_refl _)
  unfold pass
  generalize sendLoop socket (c.out.length - c.outOff) false c h = r at sending
  obtain ⟨r, sent, h⟩ := r
  cases r with
  | error e =>
    obtain ⟨calls, leads⟩ := sending
    exact ⟨sent, calls, leads⟩
  | ok sentAny =>
    obtain ⟨calls, leads⟩ := sending
    dsimp only
    cases flushed : sent.flushed with
    | error e =>
      obtain ⟨c', ended⟩ := afterSending_error flushed sentAny c.phase h calls
      rw [ended] at leads
      exact ⟨c', calls, leads⟩
    | ok p =>
      obtain ⟨d, told⟩ := p
      rw [afterSending_ok flushed] at leads
      cases d with
      | true => exact ⟨calls, leads⟩
      | false =>
        have receiving := ReceivedTo.after leads (@recvLoop_leads H socket now MAX_SOCKS_READ_PER_PUMP
          MAX_SOCKS_READ_PER_PUMP false sentAny c.phase told h calls (le_refl _))
        dsimp only
        change ReceivedTo socket now _ sentAny c.phase (recvLoop socket _ _ .idle told h) at receiving
        generalize recvLoop socket MAX_SOCKS_READ_PER_PUMP MAX_SOCKS_READ_PER_PUMP .idle told h = r at receiving
        obtain ⟨r, last, h⟩ := r
        rcases r with e | progress
        · exact receiving
        · cases progress with
          | done => exact receiving
          | idle =>
            obtain ⟨calls, leads⟩ := receiving
            unfold endPass at leads
            dsimp only
            by_cases still : sentAny = false ∧ last.phase = c.phase
            · rw [if_pos ⟨still.1, rfl, still.2⟩] at leads
              rw [if_pos still]
              exact ⟨calls, leads⟩
            · rw [if_neg (fun all => still ⟨all.1, all.2.2⟩)] at leads
              rw [if_neg still]
              exact ⟨calls, leads⟩
          | moved =>
            obtain ⟨calls, leads⟩ := receiving
            unfold endPass at leads
            rw [if_neg (fun all => Bool.noConfusion all.2.1)] at leads
            exact ⟨calls, leads⟩

def Ends (socket : Socket H) (now : Nat) (x : Call H) (r : Result SocksStatus) (c : Socks5Client) (h : H) : Prop :=
  ∃ k c' calls, (step socket now)^[k] x = ⟨.returned r, c', h, calls⟩ ∧ ∀ st, r = .ok st → c' = c

theorem Leads.ends {r : Result SocksStatus} (first : Leads socket now x y)
    (rest : Ends socket now y r c h) : Ends socket now x r c h := by
  obtain ⟨m, rfl⟩ := first
  obtain ⟨k, c', calls, ended, client⟩ := rest
  refine ⟨k + (m + 1), c', calls, ?_, client⟩
  rw [Function.iterate_add_apply]
  exact ended

theorem pumpLoop_ends (bounded : socket.Bounded) (n : Nat) {calls : Nat} (sized : c.Sized)
    (enough : Call.weight ⟨loopHead now c, c, h, calls⟩ < n) :
    ∃ r c' h', pumpLoop socket now n c h = some (r, c', h') ∧ Ends socket now ⟨loopHead now c, c, h, calls⟩ r c' h' := by
  induction n generalizing c h calls with
  | zero => exact absurd enough (Nat.not_lt_zero _)
  | succ n ih =>
    rw [pumpLoop]
    by_cases late : c.timedOut now = true
    · have head : loopHead now c = .returned (.error .timeout) := if_pos late
      rw [if_pos late, head]
      exact ⟨.error .timeout, c, h, rfl, 0, c, calls, rfl, fun _ _ => rfl⟩
    · have head : loopHead now c = .sending false c.phase := if_neg late
      have passing := @pass_leads H socket now c h calls
      rw [if_neg late]
      rw [head] at enough ⊢
      generalize pass socket c h = r at passing
      obtain ⟨r, c', h'⟩ := r
      rcases r with e | progress
      · obtain ⟨c'', calls', leads⟩ := passing
        exact ⟨.error e, c', h', rfl, leads.ends ⟨0, c'', calls', rfl, fun st ok => absurd ok (by simp)⟩⟩
      · cases progress with
        | done =>
          obtain ⟨calls', leads⟩ := passing
          exact ⟨.ok .done, c', h', rfl, leads.ends ⟨0, c', calls', rfl, fun _ _ => rfl⟩⟩
        | idle =>
          obtain ⟨calls', leads⟩ := passing
          exact ⟨.ok .inProgress, c', h', rfl, leads.ends ⟨0, c', calls', rfl, fun _ _ => rfl⟩⟩
        | moved =>
          obtain ⟨calls', leads⟩ := passing
          dsimp only
          by_cases done : c'.done = true
          · rw [if_pos done] at leads ⊢
            exact ⟨.ok .done, c', h', rfl, leads.ends ⟨0, c', calls', rfl, fun _ _ => rfl⟩⟩
          · rw [if_neg done] at leads ⊢
            have fits : c'.Sized := by
              obtain ⟨k, after⟩ := leads
              have sized' := @iterate_sized H socket now bounded ⟨.sending false c.phase, c, h, calls⟩ sized (k + 1)
              rw [after] at sized'
              exact sized'
            have less : Call.weight ⟨loopHead now c', c', h', calls'⟩ < n := by
              by_cases late' : c'.timedOut now = true
              · have none : Call.weight ⟨loopHead now c', c', h', calls'⟩ = 0 := by
                  rw [loopHead, if_pos late']
                  rfl
                have some_ : 2 ≤ Call.weight ⟨.sending false c.phase, c, h, calls⟩ := Nat.le_add_left 2 _
                omega
              · have lighter := (leads.lighter bounded sized (by
                  intro r ended
                  rw [loopHead, if_neg late'] at ended
                  cases ended)).2
                omega
            obtain ⟨r, c'', h'', looped, ends⟩ := ih fits less
            exact ⟨r, c'', h'', looped, leads.ends ends⟩

end Loops

section Pump
variable {H : Type} {socket : Socket H}

theorem returned_unique {now m n : Nat} {x : Call H} {r r' : Result SocksStatus}
    (first : ((step socket now)^[m] x).point = .returned r) (second : ((step socket now)^[n] x).point = .returned r') :
    (step socket now)^[m] x = (step socket now)^[n] x := by
  rcases Nat.le_total m n with before | before
  · obtain ⟨k, rfl⟩ := Nat.exists_eq_add_of_le' before
    rw [Function.iterate_add_apply, iterate_returned first]
  · obtain ⟨k, rfl⟩ := Nat.exists_eq_add_of_le' before
    rw [Function.iterate_add_apply, iterate_returned second]

theorem pump_ends (bounded : socket.Bounded) {c : Socks5Client} (sized : c.Sized) {now : Nat} {h : H} {fuel : Nat}
    (enough : (begin_ now c h).weight < fuel) :
    ∃ r c' h', pump socket fuel now c h = some (r, c', h') ∧ Ends socket now (begin_ now c h) r c' h' := by
  unfold pump begin_ at *
  by_cases done : c.done = true
  · rw [if_pos done] at enough ⊢
    rw [if_pos done]
    exact ⟨.ok .done, c, h, rfl, 0, c, 0, rfl, fun _ _ => rfl⟩
  · rw [if_neg done] at enough ⊢
    rw [if_neg done]
    by_cases late : c.timedOut now = true
    · rw [if_pos late, loopHead, if_pos late]
      exact ⟨.error .timeout, c, h, rfl, 0, c, 0, rfl, fun _ _ => rfl⟩
    · rw [if_neg late]
      exact pumpLoop_ends bounded fuel sized enough

/-- Whoever answers, a call of `pump` returns after a bounded number of operations on the socket, and never buffers more
than the cap. -/
theorem pump_bounded (bounded : socket.Bounded) {c : Socks5Client} (reached : c.Reached) (now : Nat) (h : H) :
    (∀ n, (callAfter socket now c h n).client.rx.length ≤ MAX_SOCKS_FRAME) ∧
      ∃ r, (callAfter socket now c h MAX_STEPS).point = .returned r ∧
        (callAfter socket now c h MAX_STEPS).calls ≤ MAX_STEPS ∧ ∀ fuel, MAX_STEPS < fuel →
          ∃ c', pump socket fuel now c h = some (r, c', (callAfter socket now c h MAX_STEPS).host) ∧
            ∀ st, r = .ok st → (callAfter socket now c h MAX_STEPS).client = c' := by
  have sized := reached.sized
  have light := weight_begin now sized h
  obtain ⟨r, ended⟩ := @iterate_weight H socket now bounded (begin_ now c h) sized _ light
  have calls := @iterate_calls H socket now (begin_ now c h) MAX_STEPS
  have none : (begin_ now c h).calls = 0 := rfl
  rw [none, Nat.zero_add] at calls
  refine ⟨fun n => (iterate_sized now bounded sized n).rx, r, ended, calls, ?_⟩
  intro fuel enough
  obtain ⟨r', c', h', pumped, k, c'', calls', after, client⟩ := pump_ends bounded sized (light.trans_lt enough)
  have same : callAfter socket now c h MAX_STEPS = ⟨.returned r', c'', h', calls'⟩ := by
    rw [← after]
    apply returned_unique ended
    rw [after]
  have result : r' = r := by
    change (callAfter socket now c h MAX_STEPS).point = .returned r at ended
    rw [same] at ended
    exact Point.returned.inj ended
  rw [same, ← result]
  exact ⟨c', pumped, client⟩

def flood : Socket Unit where
  tcpSend _ h := (.error .wouldBlock, h)
  tcpRecv want h := (.ok (List.replicate want 0), h)

theorem flood_bounded : flood.Bounded where
  sent_le sent := by cases sent
  recv_le read := by
    cases read
    exact List.length_replicate.le

def anonymous : Socks5Client := .new (.domain [] 80) ⟨none, none, 30000⟩ 0

set_option maxRecDepth 8192 in
/-- Two blocks fill the buffer, and the third is turned away. -/
theorem pump_bounded_flood : (∀ n, (callAfter flood 0 anonymous () n).client.rx.length ≤ MAX_SOCKS_FRAME) ∧
    (callAfter flood 0 anonymous () 3).client.rx.length = MAX_SOCKS_FRAME ∧
    (callAfter flood 0 anonymous () 4).point = .returned (.error .protocol) := by
  have bounded := pump_bounded flood_bounded (.new (.domain [] 80) ⟨none, none, 30000⟩ 0) 0 ()
  exact ⟨bounded.1, rfl, rfl⟩

end Pump
end TypeBit.Socks
