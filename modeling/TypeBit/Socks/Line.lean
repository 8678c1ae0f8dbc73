import TypeBit.Socks.Handshake

/-! A connection to a proxy by a script: how much each send may take, how much each receive may give, and how much of the
answers is there once so many bytes were sent. However the script cuts and stalls, repeated calls finish the handshake, and
what was sent is the greeting, the authentication if the proxy chose it, and the CONNECT request. -/

namespace TypeBit.Socks

/-- `none` pushes back; the numbers are bounds. -/
structure Script where
  sends : Nat → Option Nat
  recvs : Nat → Option Nat
  ready : Nat → Nat

/-- What the connection took and gave, and how often it was asked. -/
structure Line where
  sent : Bytes
  reads : List Bytes
  sendCalls : Nat
  recvCalls : Nat

def Line.fresh : Line := ⟨[], [], 0, 0⟩

namespace Script
variable (script : Script) (stream : Bytes)

def chunk (want n : Nat) (l : Line) : Bytes :=
  (stream.drop l.reads.flatten.length).take (min (min n want) (script.ready l.sent.length - l.reads.flatten.length))

def socket : Socket Line where
  tcpSend data l :=
    match script.sends l.sendCalls with
    | none => (.error .wouldBlock, { l with sendCalls := l.sendCalls + 1 })
    | some n =>
        let k := min n data.length
        (.ok k, { l with sent := l.sent ++ data.take k, sendCalls := l.sendCalls + 1 })
  tcpRecv want l :=
    match script.recvs l.recvCalls with
    | none => (.error .wouldBlock, { l with recvCalls := l.recvCalls + 1 })
    | some n =>
        let b := script.chunk stream want n l
        (.ok b, { l with reads := l.reads ++ [b], recvCalls := l.recvCalls + 1 })

variable {script stream}

theorem tcpSend_none {l : Line} (said : script.sends l.sendCalls = none) (data : Bytes) :
    (script.socket stream).tcpSend data l = (.error .wouldBlock, { l with sendCalls := l.sendCalls + 1 }) := by
  simp [socket, said]

theorem tcpSend_some {l : Line} {n : Nat} (said : script.sends l.sendCalls = some n) (data : Bytes) :
    (script.socket stream).tcpSend data l =
      (.ok (min n data.length), { l with sent := l.sent ++ data.take (min n data.length), sendCalls := l.sendCalls + 1 }) := by
  simp [socket, said]

theorem tcpRecv_none {l : Line} (said : script.recvs l.recvCalls = none) (want : Nat) :
    (script.socket stream).tcpRecv want l = (.error .wouldBlock, { l with recvCalls := l.recvCalls + 1 }) := by
  simp [socket, said]

theorem tcpRecv_some {l : Line} {n : Nat} (said : script.recvs l.recvCalls = some n) (want : Nat) :
    (script.socket stream).tcpRecv want l =
      (.ok (script.chunk stream want n l), { l with reads := l.reads ++ [script.chunk stream want n l], recvCalls := l.recvCalls + 1 }) := by
  simp [socket, said]

variable (script stream)

theorem chunk_prefix {want n : Nat} {l : Line} (part : l.reads.flatten <+: stream) :
    l.reads.flatten ++ script.chunk stream want n l <+: stream := by
  unfold chunk
  obtain ⟨rest, split⟩ := part
  have left : stream.drop l.reads.flatten.length = rest := by rw [← split, List.drop_left]
  rw [left, ← split]
  exact (List.prefix_append_right_inj _).mpr (List.take_prefix _ _)

def watch : Watch (script.socket stream) stream where
  sent := Line.sent
  reads := Line.reads
  takes := by
    intro data l k l' taken
    cases said : script.sends l.sendCalls with
    | none =>
      rw [tcpSend_none said] at taken
      cases taken
    | some n =>
      rw [tcpSend_some said] at taken
      cases taken
      exact ⟨Nat.min_le_right _ _, rfl, rfl⟩
  refuses := by
    intro data l e l' refused
    cases said : script.sends l.sendCalls with
    | none =>
      rw [tcpSend_none said] at refused
      cases refused
      exact ⟨rfl, rfl, rfl⟩
    | some n =>
      rw [tcpSend_some said] at refused
      cases refused
  gives := by
    intro want l b l' part given
    cases said : script.recvs l.recvCalls with
    | none =>
      rw [tcpRecv_none said] at given
      cases given
    | some n =>
      rw [tcpRecv_some said] at given
      cases given
      refine ⟨rfl, rfl, ?_⟩
      rw [List.flatten_append, List.flatten_singleton]
      exact script.chunk_prefix stream part
  stalls := by
    intro want l e l' stalled
    cases said : script.recvs l.recvCalls with
    | none =>
      rw [tcpRecv_none said] at stalled
      cases stalled
      exact ⟨rfl, rfl, rfl⟩
    | some n =>
      rw [tcpRecv_some said] at stalled
      cases stalled

/-- Sends and receives go on to succeed, and once the proxy has a request whole its answer is there. -/
structure Fair (t : Talk) : Prop where
  sends : ∀ n, ∃ k ≥ n, ∃ m, script.sends k = some (m + 1)
  recvs : ∀ n, ∃ k ≥ n, ∃ m, script.recvs k = some (m + 1)
  ready : ∀ s ∈ t.steps, (t.heard s ++ t.answer s).length ≤ script.ready (t.asked s ++ t.request s).length

end Script

/-! ### A call that gets nowhere -/

section Idle
variable {script : Script} {stream : Bytes} {c c' : Socks5Client} {l l' : Line}

theorem sendLoop_sent_le (n : Nat) {any : Bool} {r : Result Bool} (run : sendLoop (script.socket stream) n any c l = (r, c', l')) :
    l.sent.length ≤ l'.sent.length := by
  induction n generalizing any c l with
  | zero =>
    cases run
    exact Nat.le_refl _
  | succ n ih =>
    unfold sendLoop at run
    by_cases more : c.outOff < c.out.length
    · rw [if_pos more] at run
      rcases answer : (script.socket stream).tcpSend (c.out.drop c.outOff) l with ⟨e | k, l₁⟩
      · obtain ⟨rfl, sent, -⟩ := (script.watch stream).refuses answer
        rw [answer] at run
        cases run
        exact Nat.le_of_eq (congrArg List.length sent).symm
      · obtain ⟨-, sent, -⟩ := (script.watch stream).takes answer
        have grown : l.sent.length ≤ l₁.sent.length := by
          have length := congrArg List.length sent
          rw [List.length_append] at length
          exact Nat.le.intro length.symm
        rw [answer] at run
        cases k with
        | zero =>
          cases run
          exact grown
        | succ k => exact grown.trans (ih run)
    · rw [if_neg more] at run
      cases run
      exact Nat.le_refl _

theorem sendLoop_nothing {n : Nat} (more : c.outOff < c.out.length) {r : Result Bool}
    (run : sendLoop (script.socket stream) (n + 1) false c l = (r, c', l')) (same : l'.sent = l.sent) :
    c' = c ∧ l' = { l with sendCalls := l.sendCalls + 1 } ∧ ∀ m, script.sends l.sendCalls ≠ some (m + 1) := by
  unfold sendLoop at run
  rw [if_pos more] at run
  cases said : script.sends l.sendCalls with
  | none =>
    rw [Script.tcpSend_none said] at run
    cases run
    exact ⟨rfl, rfl, fun m hit => by cases hit⟩
  | some k =>
    rw [Script.tcpSend_some said] at run
    cases k with
    | zero =>
      rw [Nat.zero_min] at run
      cases run
      exact ⟨rfl, by simp, fun m hit => by cases hit⟩
    | succ k =>
      obtain ⟨j, taken⟩ : ∃ j, min (k + 1) (c.out.drop c.outOff).length = j + 1 := by
        refine ⟨min (k + 1) (c.out.drop c.outOff).length - 1, ?_⟩
        rw [List.length_drop]
        omega
      rw [taken] at run
      have grown := sendLoop_sent_le n run
      rw [same] at grown
      simp only [List.length_append, List.length_take, List.length_drop] at grown taken
      omega

theorem recvLoop_moved (n budget : Nat) : (recvLoop (script.socket stream) n budget .moved c l).1 ≠ .ok .idle := by
  induction n generalizing budget c l with
  | zero => exact fun same => by cases same
  | succ n ih =>
    unfold recvLoop
    by_cases room : 0 < budget
    · rw [if_pos room]
      rcases answer : (script.socket stream).tcpRecv (min 512 budget) l with ⟨e | b, l₁⟩
      · obtain ⟨rfl, -, -⟩ := (script.watch stream).stalls answer
        exact fun same => by cases same
      · cases b with
        | nil => exact fun same => by cases same
        | cons a tail =>
          dsimp only
          split_ifs with full
          · exact fun same => by cases same
          · rcases consumed : { c with rx := c.rx ++ a :: tail }.consumeFrame with e | ⟨done, c₁⟩
            · rw [consumed]
              exact fun same => by cases same
            · rw [consumed]
              cases done with
              | true => exact fun same => by cases same
              | false => exact ih _
    · rw [if_neg room]
      exact fun same => by cases same

theorem recvLoop_idle {n budget : Nat} (room : 0 < budget)
    (run : recvLoop (script.socket stream) (n + 1) budget .idle c l = (.ok .idle, c', l')) :
    c' = c ∧ l'.sendCalls = l.sendCalls ∧ l'.sent = l.sent ∧ l'.reads.flatten = l.reads.flatten ∧ l'.recvCalls = l.recvCalls + 1 ∧
      ∀ m, script.recvs l.recvCalls = some (m + 1) → script.chunk stream (min 512 budget) (m + 1) l = [] := by
  unfold recvLoop at run
  rw [if_pos room] at run
  cases said : script.recvs l.recvCalls with
  | none =>
    rw [Script.tcpRecv_none said] at run
    cases run
    exact ⟨rfl, rfl, rfl, rfl, rfl, fun m hit => by cases hit⟩
  | some k =>
    rw [Script.tcpRecv_some said] at run
    cases given : script.chunk stream (min 512 budget) k l with
    | nil =>
      rw [given] at run
      cases run
      refine ⟨rfl, rfl, rfl, by simp, rfl, ?_⟩
      intro m hit
      cases hit
      exact given
    | cons a tail =>
      rw [given] at run
      dsimp only at run
      split_ifs at run with full
      · cases run
      · rcases consumed : { c with rx := c.rx ++ a :: tail }.consumeFrame with e | ⟨done, c₁⟩
        · rw [consumed] at run
          cases run
        · rw [consumed] at run
          cases done with
          | true => cases run
          | false => exact absurd (congrArg Prod.fst run) (recvLoop_moved _ _)

end Idle

/-! ### Getting done -/

section Done
variable {script : Script} {t : Talk}

abbrev answering (script : Script) (t : Talk) : Watch (script.socket (t.answers ++ [])) (t.answers ++ []) :=
  script.watch (t.answers ++ [])

def tries (c : Socks5Client) (l : Line) : Nat := if c.out = [] then l.recvCalls else l.sendCalls

def Hit (script : Script) (c : Socks5Client) (k : Nat) : Prop :=
  if c.out = [] then ∃ m, script.recvs k = some (m + 1) else ∃ m, script.sends k = some (m + 1)

theorem pass_tail {c told c' : Socks5Client} {l l₁ l' : Line} {any : Bool} {stream : Bytes}
    (sent : sendLoop (script.socket stream) (c.out.length - c.outOff) false c l = (.ok any, told, l₁))
    (run : pass (script.socket stream) c l = (.ok .idle, c', l')) :
    any = false ∧ ∃ next, told.flushed = .ok (false, next) ∧
      recvLoop (script.socket stream) MAX_SOCKS_READ_PER_PUMP MAX_SOCKS_READ_PER_PUMP .idle next l₁ = (.ok .idle, c', l') := by
  unfold pass at run
  rw [sent] at run
  dsimp only at run
  rcases flushed : told.flushed with e | ⟨done, next⟩
  · rw [flushed] at run
    cases run
  · rw [flushed] at run
    cases done with
    | true => cases run
    | false =>
      dsimp only at run
      rcases received : recvLoop (script.socket stream) MAX_SOCKS_READ_PER_PUMP MAX_SOCKS_READ_PER_PUMP .idle next l₁ with ⟨r, last, l₂⟩
      rw [received] at run
      cases r with
      | error e => cases run
      | ok p =>
        cases p with
        | done => cases run
        | moved => cases run
        | idle =>
          dsimp only at run
          split_ifs at run with calm
          · cases run
            exact ⟨calm.1, next, rfl, received⟩
          · cases run

theorem pass_idle (fair : script.Fair t) {c c' : Socks5Client} {l l' : Line} (kept : Kept (answering script t) c l)
    (busy : c.phase ≠ .done) (run : pass (script.socket (t.answers ++ [])) c l = (.ok .idle, c', l')) :
    c' = c ∧ tries c l' = tries c l + 1 ∧ ¬ Hit script c (tries c l) := by
  have budget : MAX_SOCKS_READ_PER_PUMP = 8191 + 1 := rfl
  cases kept.standing with
  | asking s asking inside =>
    have filled : c.out ≠ [] := asking.out ▸ Talk.request_ne_nil s
    rw [← asking.out] at inside
    obtain ⟨n, left⟩ : ∃ n, c.out.length - c.outOff = n + 1 := ⟨c.out.length - c.outOff - 1, by omega⟩
    obtain ⟨any, told, l₁, sent, -, -, -, moved⟩ := sendLoop_asking (answering script t) _ false (Nat.le_refl _) asking
    by_cases same : l₁.sent = l.sent
    · rw [left] at sent
      obtain ⟨rfl, rfl, missed⟩ := sendLoop_nothing (by omega) sent same
      have unflushed : told.flushed = .ok (false, told) := by
        unfold Socks5Client.flushed
        rw [if_neg fun both => absurd both.2 (not_le.mpr (by omega))]
      obtain ⟨-, next, flushed, received⟩ := pass_tail (left ▸ sent) run
      rw [unflushed] at flushed
      cases flushed
      rw [budget] at received
      obtain ⟨rfl, calls, -, -, -, -⟩ := recvLoop_idle (by decide) received
      unfold tries Hit
      rw [if_neg filled, if_neg filled, if_neg filled]
      refine ⟨rfl, calls, ?_⟩
      intro hit
      obtain ⟨m, said⟩ := hit
      exact missed m said
    · obtain ⟨none, -⟩ := pass_tail sent run
      rcases moved with ⟨-, equal⟩ | ⟨yes, -⟩
      · exact absurd equal same
      · exact absurd (none.symm.trans yes) Bool.false_ne_true
  | waiting s waiting short =>
    have none : c.out.length - c.outOff = 0 := by simp [waiting.out]
    have unflushed : c.flushed = .ok (false, c) := by simp [Socks5Client.flushed, waiting.out]
    have sent : sendLoop (script.socket (t.answers ++ [])) (c.out.length - c.outOff) false c l = (.ok false, c, l) := by
      rw [none]
      rfl
    obtain ⟨-, next, flushed, received⟩ := pass_tail sent run
    rw [unflushed] at flushed
    cases flushed
    rw [budget] at received
    obtain ⟨rfl, -, -, -, calls, nothing⟩ := recvLoop_idle (by decide) received
    unfold tries Hit
    rw [if_pos waiting.out, if_pos waiting.out, if_pos waiting.out]
    refine ⟨rfl, calls, ?_⟩
    intro hit
    obtain ⟨m, said⟩ := hit
    have given := nothing m said
    have got : l.reads.flatten = t.heard s ++ c'.rx := waiting.heard
    have asked : l.sent = t.asked s ++ t.request s := waiting.sent
    have there := fair.ready s waiting.part
    have inside := (Talk.heard_prefix waiting.part).length_le
    rw [← asked, List.length_append] at there
    rw [List.length_append] at inside
    have length := congrArg List.length given
    simp only [Script.chunk, List.length_take, List.length_drop, got, List.length_append, List.length_nil, Nat.add_zero] at length
    omega
  | finished finished => exact absurd finished.phase busy

variable {c : Socks5Client} {l : Line}

theorem pump_moves (fair : script.Fair t) {fuel now : Nat} (early : now ≤ t.deadline) (enough : work t [] < fuel)
    (kept : Kept (answering script t) c l) (busy : c.phase ≠ .done) :
    ∃ st c' l', pump (script.socket (t.answers ++ [])) fuel now c l = some (.ok st, c', l') ∧
      Kept (answering script t) c' l' ∧ (st = .done ↔ c'.phase = .done) ∧
      (score (answering script t) c l < score (answering script t) c' l' ∨
        c' = c ∧ score (answering script t) c l = score (answering script t) c' l' ∧ tries c l' = tries c l + 1 ∧
          ¬ Hit script c (tries c l)) := by
  have short : ¬ MAX_SOCKS_FRAME < (t.answers ++ []).length := by
    have few := t.length_answers_le
    rw [List.append_nil]
    unfold MAX_SOCKS_FRAME
    omega
  have opened : c.done = false := decide_eq_false busy
  obtain ⟨n, rfl⟩ : ∃ n, fuel = n + 1 := ⟨fuel - 1, by omega⟩
  obtain ⟨r, c', l', run, outcome, grows⟩ := pass_standing (answering script t) kept busy
  unfold pump
  rw [opened, if_neg Bool.false_ne_true, timely_of_early _ kept early, if_neg Bool.false_ne_true, pumpLoop,
    timely_of_early _ kept early, if_neg Bool.false_ne_true, run]
  cases r with
  | error e => exact absurd (outcome.failed e rfl).2 short
  | ok p =>
    have there := outcome.kept p rfl
    have phase := outcome.done p rfl
    have further := outcome.score_le
    cases p with
    | idle =>
      obtain ⟨same, calls, missed⟩ := pass_idle fair kept busy run
      have unfinished : c'.phase ≠ .done := fun done => absurd (phase.mpr done) (by decide)
      refine ⟨.inProgress, c', l', rfl, there, iff_of_false (by decide) unfinished, ?_⟩
      rcases Nat.lt_or_eq_of_le further with more | equal
      · exact .inl more
      · exact .inr ⟨same, equal, calls, missed⟩
    | done =>
      have finished := phase.mp rfl
      have last : rank c.phase < rank c'.phase := by
        rw [finished]
        cases stage : c.phase <;> first | decide | exact absurd stage busy
      have sent := outcome.sent _ rfl
      have heard := outcome.heard _ rfl
      refine ⟨.done, c', l', rfl, there, iff_of_true rfl finished, .inl ?_⟩
      unfold score
      omega
    | moved =>
      have grown := grows rfl
      have busy' : c'.phase ≠ .done := fun done => absurd (phase.mpr done) (by decide)
      have open' : c'.done = false := decide_eq_false busy'
      dsimp only
      rw [open', if_neg Bool.false_ne_true]
      obtain ⟨r, c'', l'', rest, after⟩ := pumpLoop_standing (answering script t) n early there busy' (by omega)
      cases r with
      | error e => exact absurd (after.failed e rfl).2 short
      | ok st =>
        exact ⟨st, c'', l'', rest, after.kept st rfl, after.done st rfl, .inl (grown.trans_le (after.further st rfl))⟩

variable {fuel : Nat} {clock : Nat → Nat} (fair : script.Fair t) (early : ∀ n, clock n ≤ t.deadline) (enough : work t [] < fuel)

/-- The client of a talk, on a connection not used before, after some calls. -/
abbrev calls (script : Script) (t : Talk) (fuel : Nat) (clock : Nat → Nat) (n : Nat) :
    Option (Result SocksStatus × Socks5Client × Line) :=
  pumps (script.socket (t.answers ++ [])) fuel clock n (Socks5Client.new t.target t.cfg t.start) Line.fresh

variable {n : Nat} {st : SocksStatus}

theorem calls_succ (run : calls script t fuel clock n = some (.ok st, c, l)) :
    calls script t fuel clock (n + 1) = pump (script.socket (t.answers ++ [])) fuel (clock n) c l := by
  unfold calls at run ⊢
  rw [pumps, run]

include early enough

theorem calls_standing (n : Nat) :
    ∃ st c l, calls script t fuel clock n = some (.ok st, c, l) ∧ Kept (answering script t) c l ∧ (st = .done → c.phase = .done) := by
  have short : ¬ MAX_SOCKS_FRAME < (t.answers ++ []).length := by
    have few := t.length_answers_le
    rw [List.append_nil]
    unfold MAX_SOCKS_FRAME
    omega
  obtain ⟨r, c, l, run, failed, there⟩ :=
    pumps_standing (answering script t) early enough (kept_new (answering script t) (h := Line.fresh) rfl rfl) n
  cases r with
  | error e => exact absurd (failed e rfl).2 short
  | ok st => exact ⟨st, c, l, run, there st rfl⟩

include fair

theorem calls_further (d : Nat) (run : calls script t fuel clock n = some (.ok st, c, l))
    (kept : Kept (answering script t) c l) (busy : c.phase ≠ .done) (hit : Hit script c (tries c l + d)) :
    ∃ m st' c' l', calls script t fuel clock m = some (.ok st', c', l') ∧ Kept (answering script t) c' l' ∧ (st' = .done ↔ c'.phase = .done) ∧
      score (answering script t) c l < score (answering script t) c' l' := by
  induction d generalizing n st c l with
  | zero =>
    obtain ⟨st', c', l', pumped, kept', done, grown | ⟨-, -, -, missed⟩⟩ := pump_moves fair (early n) enough kept busy
    · exact ⟨n + 1, st', c', l', (calls_succ run).trans pumped, kept', done, grown⟩
    · exact absurd hit missed
  | succ d ih =>
    obtain ⟨st', c', l', pumped, kept', done, grown | ⟨rfl, same, calls, -⟩⟩ := pump_moves fair (early n) enough kept busy
    · exact ⟨n + 1, st', c', l', (calls_succ run).trans pumped, kept', done, grown⟩
    · rw [same]
      apply ih ((calls_succ run).trans pumped) kept' busy
      rw [calls]
      have place : tries c' l + 1 + d = tries c' l + (d + 1) := by omega
      rwa [place]

theorem calls_finish (left : Nat) (run : calls script t fuel clock n = some (.ok st, c, l))
    (kept : Kept (answering script t) c l) (bound : work t [] ≤ score (answering script t) c l + left) :
    ∃ m c' l', calls script t fuel clock m = some (.ok .done, c', l') ∧ Finished t l'.sent l'.reads.flatten c' := by
  induction left using Nat.strong_induction_on generalizing n st c l with
  | _ left ih =>
    by_cases done : c.phase = .done
    · have complete : c.done = true := decide_eq_true done
      refine ⟨n + 1, c, l, ?_, kept.standing.finished_of_done done⟩
      rw [calls_succ run, pump, if_pos complete]
    · obtain ⟨k, later, hit⟩ : ∃ k ≥ tries c l, Hit script c k := by
        unfold Hit
        split_ifs
        · exact fair.recvs _
        · exact fair.sends _
      obtain ⟨d, rfl⟩ := Nat.exists_eq_add_of_le later
      obtain ⟨m, st', c', l', run', kept', -, further⟩ := calls_further fair early enough d run kept done hit
      have most := score_le (answering script t) kept'
      exact ih (left - 1) (by omega) run' kept' (by omega)

end Done

theorem Standing.sent_prefix {t : Talk} {sent heard : Bytes} {c : Socks5Client} (standing : Standing t sent heard c) :
    sent <+: t.requests := by
  cases standing with
  | asking s asking _ =>
    rw [asking.sent]
    exact ((List.prefix_append_right_inj _).mpr (List.take_prefix _ _)).trans (Talk.asked_prefix asking.part)
  | waiting s waiting _ => exact waiting.sent ▸ Talk.asked_prefix waiting.part
  | finished finished => exact finished.sent ▸ List.prefix_rfl

theorem Talk.requests_frames (t : Talk) :
    t.requests = greeting t.cfg ++ (if t.auth then authFrame t.cfg else []) ++ connectFrame t.target := by
  cases auth : t.auth <;> simp [requests, steps, before, request, auth]

/-- However sends and receives are cut and stalled, no call before the deadline fails, what was sent is at any time a beginning of
the frames, and some call finds the handshake done with every frame sent once and in order. -/
theorem handshake_completes (t : Talk) (script : Script) (fair : script.Fair t) (clock : Nat → Nat) (early : ∀ n, clock n ≤ t.deadline)
    (fuel : Nat) (enough : work t [] < fuel) :
    (∀ n, ∃ st c l, pumps (script.socket t.answers) fuel clock n (Socks5Client.new t.target t.cfg t.start) Line.fresh =
        some (.ok st, c, l) ∧ l.sent <+: greeting t.cfg ++ (if t.auth then authFrame t.cfg else []) ++ connectFrame t.target) ∧
      ∃ n c l, pumps (script.socket t.answers) fuel clock n (Socks5Client.new t.target t.cfg t.start) Line.fresh =
        some (.ok .done, c, l) ∧ c.done = true ∧
          l.sent = greeting t.cfg ++ (if t.auth then authFrame t.cfg else []) ++ connectFrame t.target := by
  rw [← t.requests_frames, ← List.append_nil t.answers]
  constructor
  · intro n
    obtain ⟨st, c, l, run, kept, -⟩ := calls_standing early enough n
    exact ⟨st, c, l, run, kept.standing.sent_prefix⟩
  · obtain ⟨st, c, l, run, kept, -⟩ := @calls_standing script t fuel clock early enough 0
    obtain ⟨n, c', l', finish, finished⟩ := calls_finish fair early enough (work t []) run kept (Nat.le_add_left _ _)
    exact ⟨n, c', l', finish, decide_eq_true finished.phase, finished.sent⟩

def sampleTalk : Talk where
  cfg := { username := some (ascii "alice"), password := some (ascii "s3cret"), handshakeTimeoutMs := 5000 }
  target := .domain (ascii "tracker.i2p") 80
  start := 0
  auth := true
  reply := [SOCKS5, 0, 0, ATYP_DOMAIN, 2] ++ [97, 98, 0, 80]
  offered := fun _ => rfl
  granted := .domain 0 2 rfl

/-- Every other call pushes back; sends take three bytes and receives give one, all of them there from the start. -/
def fragmenting : Script where
  sends n := if n % 2 = 0 then none else some 3
  recvs n := if n % 2 = 0 then none else some 1
  ready _ := 1000

theorem handshake_completes_fragmented :
    ∃ n c l, pumps (fragmenting.socket sampleTalk.answers) (work sampleTalk [] + 1) (fun _ => 5) n
      (Socks5Client.new sampleTalk.target sampleTalk.cfg sampleTalk.start) Line.fresh = some (.ok .done, c, l) ∧ c.done = true ∧
        l.sent = greeting sampleTalk.cfg ++ authFrame sampleTalk.cfg ++ connectFrame sampleTalk.target := by
  have odd (n : Nat) : (2 * n + 1) % 2 ≠ 0 := by omega
  have fair : fragmenting.Fair sampleTalk :=
    { sends := fun n => ⟨2 * n + 1, by omega, 2, if_neg (odd n)⟩
      recvs := fun n => ⟨2 * n + 1, by omega, 0, if_neg (odd n)⟩
      ready := by decide }
  exact (handshake_completes sampleTalk fragmenting fair (fun _ => 5) (fun _ => by decide) _ (Nat.lt_succ_self _)).2

end TypeBit.Socks
