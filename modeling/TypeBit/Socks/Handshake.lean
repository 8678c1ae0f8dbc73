import TypeBit.Socks.Client

/-! A SOCKS5 handshake with a proxy that grants the request: the frames asked and answered one after the other, where the
client stands between them, and that every pass over the socket leaves it standing, whatever the socket takes and gives. -/

namespace TypeBit.Socks

/-! ### The conversation -/

inductive Step where
  | greet
  | auth
  | connect
  deriving DecidableEq, Repr

def Step.asks : Step → SocksPhase
  | greet => .sendGreeting
  | auth => .sendAuth
  | connect => .sendConnect

def Step.waits : Step → SocksPhase
  | greet => .recvMethod
  | auth => .recvAuth
  | connect => .recvReply

inductive ConnectReply : Bytes → Prop where
  | ipv4 (rsv : UInt8) {addr : Bytes} : addr.length = 6 → ConnectReply ([SOCKS5, 0, rsv, ATYP_IPV4] ++ addr)
  | ipv6 (rsv : UInt8) {addr : Bytes} : addr.length = 18 → ConnectReply ([SOCKS5, 0, rsv, ATYP_IPV6] ++ addr)
  | domain (rsv n : UInt8) {addr : Bytes} : addr.length = n.toNat + 2 →
      ConnectReply ([SOCKS5, 0, rsv, ATYP_DOMAIN, n] ++ addr)

theorem ConnectReply.ne_nil {reply : Bytes} (granted : ConnectReply reply) : reply ≠ [] := by
  cases granted <;> simp

theorem ConnectReply.length_le {reply : Bytes} (granted : ConnectReply reply) : reply.length ≤ 262 := by
  cases granted with
  | ipv4 rsv six => simp [six]
  | ipv6 rsv eighteen => simp [eighteen]
  | domain rsv n whole =>
    have small := n.toNat_lt
    simp only [List.length_append, List.length_cons, List.length_nil, whole]
    omega

/-- A client's settings, when it was made, and what the proxy answers: the method it chooses among those offered, and its
reply. -/
structure Talk where
  cfg : ProxyConfig
  target : SocksTarget
  start : Nat
  auth : Bool
  reply : Bytes
  offered : auth = true → cfg.username.isSome = true
  granted : ConnectReply reply

namespace Talk
variable (t : Talk)

def request : Step → Bytes
  | .greet => greeting t.cfg
  | .auth => authFrame t.cfg
  | .connect => connectFrame t.target

def answer : Step → Bytes
  | .greet => [SOCKS5, if t.auth then METHOD_USERPASS else METHOD_NOAUTH]
  | .auth => [AUTH_VER, 0]
  | .connect => t.reply

def before : Step → List Step
  | .greet => []
  | .auth => [.greet]
  | .connect => if t.auth then [.greet, .auth] else [.greet]

def steps : List Step := t.before .connect ++ [.connect]

def asked (s : Step) : Bytes := (t.before s).flatMap t.request
def heard (s : Step) : Bytes := (t.before s).flatMap t.answer

def deadline : Nat := satAdd t.start t.cfg.handshakeTimeoutMs

def requests : Bytes := t.steps.flatMap t.request
def answers : Bytes := t.steps.flatMap t.answer

theorem requests_eq : t.requests = t.asked .connect ++ t.request .connect := by simp [requests, steps, asked]

theorem answers_eq : t.answers = t.heard .connect ++ t.answer .connect := by simp [answers, steps, heard]

def next : Step → Step
  | .greet => if t.auth then .auth else .connect
  | _ => .connect

variable {t}

theorem steps_split {s : Step} (part : s ∈ t.steps) : ∃ later, t.steps = t.before s ++ s :: later := by
  cases s with
  | greet => cases auth : t.auth <;> simp [steps, before, auth]
  | auth =>
    cases auth : t.auth with
    | true => simp [steps, before, auth]
    | false => simp [steps, before, auth] at part
  | connect => exact ⟨[], rfl⟩

theorem asked_prefix {s : Step} (part : s ∈ t.steps) : t.asked s ++ t.request s <+: t.requests := by
  obtain ⟨later, split⟩ := steps_split part
  unfold requests asked
  simp [split]

theorem heard_prefix {s : Step} (part : s ∈ t.steps) : t.heard s ++ t.answer s <+: t.answers := by
  obtain ⟨later, split⟩ := steps_split part
  unfold answers heard
  simp [split]

theorem next_part (s : Step) : t.next s ∈ t.steps := by
  cases s <;> cases auth : t.auth <;> simp [next, steps, before, auth]

theorem before_next {s : Step} (part : s ∈ t.steps) (more : s ≠ .connect) : t.before (t.next s) = t.before s ++ [s] := by
  cases s with
  | greet => cases auth : t.auth <;> simp [before, next, auth]
  | auth =>
    cases auth : t.auth with
    | true => simp [before, next, auth]
    | false => simp [steps, before, auth] at part
  | connect => exact absurd rfl more

theorem asked_next {s : Step} (part : s ∈ t.steps) (more : s ≠ .connect) : t.asked (t.next s) = t.asked s ++ t.request s := by
  unfold asked
  simp [before_next part more]

theorem heard_next {s : Step} (part : s ∈ t.steps) (more : s ≠ .connect) : t.heard (t.next s) = t.heard s ++ t.answer s := by
  unfold heard
  simp [before_next part more]

theorem request_ne_nil (s : Step) : t.request s ≠ [] := by
  cases s with
  | greet => simp [request, greeting]
  | auth => simp [request, authFrame]
  | connect =>
    cases target : t.target with
    | ip a => cases a <;> simp [request, connectFrame, target]
    | domain host port => simp [request, connectFrame, target]

theorem answer_ne_nil (s : Step) : t.answer s ≠ [] := by
  cases s with
  | greet => simp [answer]
  | auth => simp [answer]
  | connect => exact t.granted.ne_nil

theorem length_answers_le : t.answers.length ≤ 266 := by
  have reply := t.granted.length_le
  cases auth : t.auth <;> simp [answers, steps, before, answer, auth] <;> omega

end Talk

/-! ### Taking replies off -/

section Consume
variable {t : Talk} {c : Socks5Client}

theorem consume_asking {s : Step} (phase : c.phase = s.asks) : c.consumeFrame = .ok (false, c) := by
  unfold Socks5Client.consumeFrame
  rw [phase]
  cases s <;> rfl

theorem consume_pair_short (phase : c.phase = .recvMethod ∨ c.phase = .recvAuth) (short : c.rx.length < 2) :
    c.consumeFrame = .ok (false, c) := by
  unfold Socks5Client.consumeFrame
  rcases phase with phase | phase <;> rw [phase] <;> rcases rx : c.rx with _ | ⟨a, _ | ⟨b, tail⟩⟩
  all_goals first
    | rfl
    | exact absurd (rx ▸ short : (a :: b :: tail).length < 2) (by simp)

theorem consume_greet {rest : Bytes} (phase : c.phase = .recvMethod) (cfg : c.cfg = t.cfg) (rx : c.rx = t.answer .greet ++ rest) :
    c.consumeFrame = .ok (false, { (if t.auth then c.buildAuth else c.buildConnect) with rx := rest }) := by
  unfold Socks5Client.consumeFrame
  rw [phase, rx]
  cases auth : t.auth with
  | true =>
    have offered := t.offered auth
    rw [← cfg] at offered
    simp [Talk.answer, auth, METHOD_USERPASS, METHOD_NOAUTH, offered]
  | false => simp [Talk.answer, auth]

theorem consume_auth {rest : Bytes} (phase : c.phase = .recvAuth) (rx : c.rx = t.answer .auth ++ rest) :
    c.consumeFrame = .ok (false, { c.buildConnect with rx := rest }) := by
  unfold Socks5Client.consumeFrame
  rw [phase, rx]
  simp [Talk.answer]

theorem consume_reply_short (phase : c.phase = .recvReply) (part : c.rx <+: t.reply) (short : c.rx.length < t.reply.length) :
    c.consumeFrame = .ok (false, c) := by
  have granted := t.granted
  revert granted part short
  generalize t.reply = reply
  intro part short granted
  unfold Socks5Client.consumeFrame
  rw [phase]
  rcases rx : c.rx with _ | ⟨a, _ | ⟨b, _ | ⟨r, _ | ⟨y, addr⟩⟩⟩⟩
  · rfl
  · rfl
  · rfl
  · rfl
  · rw [rx] at part short
    cases granted with
    | @ipv4 rsv whole six =>
      simp only [List.cons_append, List.nil_append, List.cons_prefix_cons] at part
      obtain ⟨rfl, rfl, -, rfl, -⟩ := part
      have few : addr.length < 6 := by
        simp only [List.cons_append, List.nil_append, List.length_cons, six] at short
        omega
      simp [replyExtra, few]
    | @ipv6 rsv whole eighteen =>
      simp only [List.cons_append, List.nil_append, List.cons_prefix_cons] at part
      obtain ⟨rfl, rfl, -, rfl, -⟩ := part
      have few : addr.length < 18 := by
        simp only [List.cons_append, List.nil_append, List.length_cons, eighteen] at short
        omega
      simp [replyExtra, few, ATYP_IPV6, ATYP_IPV4]
    | @domain rsv n whole length =>
      simp only [List.cons_append, List.nil_append, List.cons_prefix_cons] at part
      obtain ⟨rfl, rfl, -, rfl, more⟩ := part
      cases addr with
      | nil => simp [replyExtra, ATYP_DOMAIN, ATYP_IPV6, ATYP_IPV4]
      | cons m tail =>
        obtain ⟨rfl, -⟩ := List.cons_prefix_cons.mp more
        have few : tail.length + 1 < 1 + m.toNat + 2 := by
          simp only [List.cons_append, List.nil_append, List.length_cons, length] at short
          omega
        simp [replyExtra, few, ATYP_DOMAIN, ATYP_IPV6, ATYP_IPV4]

theorem consume_reply {rest : Bytes} (phase : c.phase = .recvReply) (rx : c.rx = t.reply ++ rest) :
    c.consumeFrame = .ok (true, { c with rx := rest, phase := .done }) := by
  unfold Socks5Client.consumeFrame
  rw [phase, rx]
  have granted := t.granted
  revert granted
  generalize t.reply = reply
  intro granted
  cases granted with
  | @ipv4 rsv addr six =>
    simp [replyExtra, six]
  | @ipv6 rsv addr eighteen =>
    simp [replyExtra, eighteen, ATYP_IPV6, ATYP_IPV4]
  | @domain rsv n addr whole =>
    have enough : ¬ (n :: (addr ++ rest)).length < 1 + n.toNat + 2 := by
      rw [List.length_cons, List.length_append]
      omega
    have length : 1 + n.toNat + 2 = (n :: addr).length := by
      rw [List.length_cons, whole]
      omega
    have left : (n :: (addr ++ rest)).drop (1 + n.toNat + 2) = rest := by
      rw [length, ← List.cons_append, List.drop_left]
    have known : replyExtra ATYP_DOMAIN (n :: (addr ++ rest)) = .ok (some (1 + n.toNat + 2)) := rfl
    simp only [List.cons_append, List.nil_append, ne_eq, not_true_eq_false, if_false]
    rw [known]
    dsimp only
    rw [if_neg enough, left]

end Consume

/-! ### Where a client stands -/

structure Asking (t : Talk) (s : Step) (sent heard : Bytes) (c : Socks5Client) : Prop where
  part : s ∈ t.steps
  phase : c.phase = s.asks
  out : c.out = t.request s
  inside : c.outOff ≤ (t.request s).length
  sent : sent = t.asked s ++ (t.request s).take c.outOff
  heard : heard = t.heard s ++ c.rx

/-- A frame was sent and its answer is not there yet, or about to be taken off. -/
structure Waiting (t : Talk) (s : Step) (sent heard : Bytes) (c : Socks5Client) : Prop where
  part : s ∈ t.steps
  phase : c.phase = s.waits
  out : c.out = []
  cursor : c.outOff = 0
  sent : sent = t.asked s ++ t.request s
  heard : heard = t.heard s ++ c.rx

structure Finished (t : Talk) (sent heard : Bytes) (c : Socks5Client) : Prop where
  phase : c.phase = .done
  sent : sent = t.requests
  heard : heard = t.answers ++ c.rx

/-- Between passes a frame is not fully sent, an answer not fully received, or the handshake is done. -/
inductive Standing (t : Talk) (sent heard : Bytes) (c : Socks5Client) : Prop where
  | asking (s : Step) : Asking t s sent heard c → c.outOff < (t.request s).length → Standing t sent heard c
  | waiting (s : Step) : Waiting t s sent heard c → c.rx.length < (t.answer s).length → Standing t sent heard c
  | finished : Finished t sent heard c → Standing t sent heard c

def rank : SocksPhase → Nat
  | .sendGreeting => 0
  | .recvMethod => 1
  | .sendAuth => 2
  | .recvAuth => 3
  | .sendConnect => 4
  | .recvReply => 5
  | .done => 6

def Settled (t : Talk) (c : Socks5Client) : Prop := c.cfg = t.cfg ∧ c.target = t.target ∧ c.deadline = t.deadline

section Standing
variable {t : Talk} {sent heard stream : Bytes} {c : Socks5Client}

theorem Standing.rx_le (standing : Standing t sent heard c) : c.rx.length ≤ heard.length := by
  cases standing with
  | asking s asking _ => simp [asking.heard]
  | waiting s waiting _ => simp [waiting.heard]
  | finished finished => simp [finished.heard]

theorem Standing.finished_of_done (standing : Standing t sent heard c) (done : c.phase = .done) : Finished t sent heard c := by
  cases standing with
  | asking s asking _ => cases s <;> exact absurd (asking.phase.symm.trans done) (by decide)
  | waiting s waiting _ => cases s <;> exact absurd (waiting.phase.symm.trans done) (by decide)
  | finished finished => exact finished

theorem asking_next {s : Step} (part : s ∈ t.steps) (more : s ≠ .connect) (asked : sent = t.asked s ++ t.request s) {rest : Bytes}
    (got : heard = t.heard s ++ (t.answer s ++ rest)) {c : Socks5Client} (phase : c.phase = (t.next s).asks)
    (out : c.out = t.request (t.next s)) (cursor : c.outOff = 0) (rx : c.rx = rest) : Standing t sent heard c := by
  apply Standing.asking (t.next s)
  · exact
      { part := Talk.next_part s
        phase := phase
        out := out
        inside := by rw [cursor]; exact Nat.zero_le _
        sent := by rw [cursor, List.take_zero, List.append_nil, Talk.asked_next part more, asked]
        heard := by rw [Talk.heard_next part more, rx, got, List.append_assoc] }
  · rw [cursor]
    exact List.length_pos_iff.mpr (Talk.request_ne_nil _)

theorem Waiting.received {s : Step} {app : Bytes} (waiting : Waiting t s sent heard c) (part : heard <+: t.answers ++ app) :
    ∃ more, c.rx <+: t.answer s ++ more := by
  obtain ⟨later, split⟩ := Talk.heard_prefix waiting.part
  rw [waiting.heard, ← split, List.append_assoc, List.append_assoc] at part
  exact ⟨later ++ app, (List.prefix_append_right_inj _).mp part⟩

structure Consumed (t : Talk) (sent heard : Bytes) (c : Socks5Client) (done : Bool) (c' : Socks5Client) : Prop where
  standing : Standing t sent heard c'
  settled : Settled t c'
  done : done = true ↔ c'.phase = .done
  rank : rank c.phase ≤ rank c'.phase

theorem Waiting.consume {s : Step} {app : Bytes} (waiting : Waiting t s sent heard c) (settled : Settled t c)
    (part : heard <+: t.answers ++ app) : ∃ done c', c.consumeFrame = .ok (done, c') ∧ Consumed t sent heard c done c' := by
  obtain ⟨more, received⟩ := waiting.received part
  by_cases short : c.rx.length < (t.answer s).length
  · have begins : c.rx <+: t.answer s :=
      List.prefix_of_prefix_length_le received (List.prefix_append _ _) (Nat.le_of_lt short)
    have kept : c.consumeFrame = .ok (false, c) := by
      cases s with
      | greet => exact consume_pair_short (.inl waiting.phase) short
      | auth => exact consume_pair_short (.inr waiting.phase) short
      | connect => exact consume_reply_short waiting.phase begins short
    have still : c.phase ≠ .done := by
      rw [waiting.phase]
      cases s <;> decide
    exact ⟨false, c, kept, .waiting s waiting short, settled, iff_of_false Bool.false_ne_true still, Nat.le_refl _⟩
  · have begins : t.answer s <+: c.rx :=
      List.prefix_of_prefix_length_le (List.prefix_append _ _) received (not_lt.mp short)
    obtain ⟨rest, rx⟩ := begins
    have got : heard = t.heard s ++ (t.answer s ++ rest) := by rw [waiting.heard, rx]
    cases s with
    | greet =>
      refine ⟨false, _, consume_greet waiting.phase settled.1 rx.symm, ?_, ?_, ?_, ?_⟩
      · apply asking_next waiting.part (by decide) waiting.sent got <;> cases auth : t.auth <;>
          simp [Talk.next, auth, Socks5Client.buildAuth, Socks5Client.buildConnect, Step.asks, Talk.request, settled.1, settled.2.1]
      · cases auth : t.auth <;> exact settled
      · cases auth : t.auth <;> simp [Socks5Client.buildAuth, Socks5Client.buildConnect]
      · rw [waiting.phase]
        cases auth : t.auth with
        | true => exact (by decide : rank .recvMethod ≤ rank .sendAuth)
        | false => exact (by decide : rank .recvMethod ≤ rank .sendConnect)
    | auth =>
      refine ⟨false, _, consume_auth waiting.phase rx.symm, ?_, settled, ?_, ?_⟩
      · apply asking_next waiting.part (by decide) waiting.sent got <;>
          simp [Talk.next, Socks5Client.buildConnect, Step.asks, Talk.request, settled.2.1]
      · simp [Socks5Client.buildConnect]
      · rw [waiting.phase]
        exact (by decide : rank .recvAuth ≤ rank .sendConnect)
    | connect =>
      have last : rank c.phase ≤ 6 := by rw [waiting.phase]; decide
      refine ⟨true, _, consume_reply waiting.phase rx.symm, .finished ?_, settled, iff_of_true rfl rfl, last⟩
      exact
        { phase := rfl
          sent := by rw [waiting.sent, Talk.requests_eq]
          heard := by rw [got, Talk.answers_eq, List.append_assoc] }

theorem Standing.read {app b : Bytes} (standing : Standing t sent heard c) (busy : c.phase ≠ .done) (settled : Settled t c)
    (part : heard ++ b <+: t.answers ++ app) :
    ∃ done c', { c with rx := c.rx ++ b }.consumeFrame = .ok (done, c') ∧ Consumed t sent (heard ++ b) c done c' := by
  cases standing with
  | asking s asking inside =>
    have longer : Asking t s sent (heard ++ b) { c with rx := c.rx ++ b } :=
      { asking with heard := by rw [asking.heard, List.append_assoc] }
    exact ⟨false, _, consume_asking asking.phase, .asking s longer inside, settled, iff_of_false Bool.false_ne_true busy,
      Nat.le_refl _⟩
  | waiting s waiting _ =>
    have longer : Waiting t s sent (heard ++ b) { c with rx := c.rx ++ b } :=
      { waiting with heard := by rw [waiting.heard, List.append_assoc] }
    obtain ⟨done, c', consumed, after⟩ := longer.consume settled part
    exact ⟨done, c', consumed, after.standing, after.settled, after.done, after.rank⟩
  | finished finished => exact absurd finished.phase busy

theorem Asking.flushed {s : Step} {app : Bytes} (asking : Asking t s sent heard c) (settled : Settled t c)
    (part : heard <+: t.answers ++ app) : ∃ done c', c.flushed = .ok (done, c') ∧ Consumed t sent heard c done c' := by
  have busy : c.phase ≠ .done := by
    rw [asking.phase]
    cases s <;> decide
  unfold Socks5Client.flushed
  by_cases whole : c.out.length ≤ c.outOff
  · have filled : c.out ≠ [] := asking.out ▸ Talk.request_ne_nil s
    rw [if_pos ⟨filled, whole⟩]
    have all : c.outOff = (t.request s).length := Nat.le_antisymm asking.inside (asking.out ▸ whole)
    have waiting : Waiting t s sent heard c.afterSend :=
      { part := asking.part
        phase := by
          unfold Socks5Client.afterSend
          rw [asking.phase]
          cases s <;> rfl
        out := rfl
        cursor := rfl
        sent := by rw [asking.sent, all, List.take_length]
        heard := asking.heard }
    obtain ⟨done, c', consumed, after⟩ := waiting.consume settled part
    have further : rank c.phase ≤ rank c.afterSend.phase := by
      rw [asking.phase, waiting.phase]
      cases s <;> decide
    exact ⟨done, c', consumed, after.standing, after.settled, after.done, further.trans after.rank⟩
  · rw [if_neg fun both => whole both.2]
    exact ⟨false, c, rfl, .asking s asking (asking.out ▸ not_le.mp whole), settled, iff_of_false Bool.false_ne_true busy,
      Nat.le_refl _⟩

end Standing

/-! ### The socket watched -/

/-- A socket that takes what it says and gives the stream in order, with what it took and gave so far. Other failures than
pushing back do not happen. -/
structure Watch {H : Type} (socket : Socket H) (stream : Bytes) where
  sent : H → Bytes
  reads : H → List Bytes
  takes : ∀ {data h k h'}, socket.tcpSend data h = (.ok k, h') →
    k ≤ data.length ∧ sent h' = sent h ++ data.take k ∧ reads h' = reads h
  refuses : ∀ {data h e h'}, socket.tcpSend data h = (.error e, h') → e = .wouldBlock ∧ sent h' = sent h ∧ reads h' = reads h
  gives : ∀ {n h b h'}, (reads h).flatten <+: stream → socket.tcpRecv n h = (.ok b, h') →
    sent h' = sent h ∧ reads h' = reads h ++ [b] ∧ (reads h').flatten <+: stream
  stalls : ∀ {n h e h'}, socket.tcpRecv n h = (.error e, h') → e = .wouldBlock ∧ sent h' = sent h ∧ reads h' = reads h

section Passes
variable {H : Type} {socket : Socket H} {t : Talk} {app : Bytes} (w : Watch socket (t.answers ++ app))

/-- The client stands, and the socket gave a part of the stream. -/
structure Kept (c : Socks5Client) (h : H) : Prop where
  standing : Standing t (w.sent h) (w.reads h).flatten c
  settled : Settled t c
  part : (w.reads h).flatten <+: t.answers ++ app

variable {c : Socks5Client} {h : H}

theorem sendLoop_asking {s : Step} (n : Nat) (any : Bool) (enough : c.out.length - c.outOff ≤ n)
    (asking : Asking t s (w.sent h) (w.reads h).flatten c) :
    ∃ any' c' h', sendLoop socket n any c h = (.ok any', c', h') ∧ Asking t s (w.sent h') (w.reads h').flatten c' ∧
      (Settled t c → Settled t c') ∧ w.reads h' = w.reads h ∧
      ((any' = any ∧ w.sent h' = w.sent h) ∨ (any' = true ∧ (w.sent h).length < (w.sent h').length)) := by
  induction n generalizing any c h with
  | zero => exact ⟨any, c, h, rfl, asking, id, rfl, .inl ⟨rfl, rfl⟩⟩
  | succ n ih =>
    unfold sendLoop
    by_cases more : c.outOff < c.out.length
    · rw [if_pos more]
      rcases answer : socket.tcpSend (c.out.drop c.outOff) h with ⟨e | k, h'⟩
      · obtain ⟨rfl, sent, reads⟩ := w.refuses answer
        exact ⟨any, c, h', rfl, sent.symm ▸ reads.symm ▸ asking, id, reads, .inl ⟨rfl, sent⟩⟩
      · obtain ⟨fits, sent, reads⟩ := w.takes answer
        rw [List.length_drop] at fits
        cases k with
        | zero =>
          rw [List.take_zero, List.append_nil] at sent
          exact ⟨any, c, h', rfl, sent.symm ▸ reads.symm ▸ asking, id, reads, .inl ⟨rfl, sent⟩⟩
        | succ k =>
          have grown : (w.sent h).length < (w.sent h').length := by
            rw [sent, List.length_append, List.length_take, List.length_drop]
            omega
          have further : Asking t s (w.sent h') (w.reads h').flatten { c with outOff := c.outOff + (k + 1) } :=
            { part := asking.part
              phase := asking.phase
              out := asking.out
              inside := by
                rw [← asking.out]
                change c.outOff + (k + 1) ≤ _
                omega
              sent := by
                rw [sent, asking.sent, asking.out, List.append_assoc, ← List.take_add]
              heard := by rw [reads, asking.heard] }
          obtain ⟨any', c', h'', run, still, settled, same, moved⟩ := ih true (Nat.sub_le_iff_le_add.mpr (by change c.out.length ≤ n + (c.outOff + (k + 1)); omega)) further
          refine ⟨any', c', h'', run, still, settled, same.trans reads, .inr ?_⟩
          rcases moved with ⟨yes, equal⟩ | ⟨yes, longer⟩
          · exact ⟨yes, equal ▸ grown⟩
          · exact ⟨yes, grown.trans longer⟩
    · rw [if_neg more]
      exact ⟨any, c, h, rfl, asking, id, rfl, .inl ⟨rfl, rfl⟩⟩

def score (c : Socks5Client) (h : H) : Nat := (w.sent h).length + (w.reads h).flatten.length + rank c.phase

/-- What a part of a pass came to: the socket gave more than the buffer holds, or the client stands and is no less far. -/
structure Outcome (c : Socks5Client) (h : H) (r : Result Progress) (c' : Socks5Client) (h' : H) : Prop where
  failed : ∀ e, r = .error e → e = .protocol ∧ MAX_SOCKS_FRAME < (t.answers ++ app).length
  kept : ∀ p, r = .ok p → Kept w c' h'
  sent : ∀ p, r = .ok p → (w.sent h).length ≤ (w.sent h').length
  heard : ∀ p, r = .ok p → (w.reads h).flatten.length ≤ (w.reads h').flatten.length
  phase : ∀ p, r = .ok p → rank c.phase ≤ rank c'.phase
  done : ∀ p, r = .ok p → (p = .done ↔ c'.phase = .done)

variable {w}

theorem Outcome.still {h h' : H} {progress : Progress} (kept : Kept w c h) (busy : c.phase ≠ .done)
    (going : progress ≠ .done) (sent : w.sent h' = w.sent h) (reads : (w.reads h').flatten = (w.reads h).flatten) :
    Outcome w c h (.ok progress) c h' where
  failed := fun e failed => by cases failed
  kept := fun _ _ =>
    { standing := sent.symm ▸ reads.symm ▸ kept.standing
      settled := kept.settled
      part := reads.symm ▸ kept.part }
  sent := fun _ _ => sent ▸ Nat.le_refl _
  heard := fun _ _ => reads ▸ Nat.le_refl _
  phase := fun _ _ => Nat.le_refl _
  done := fun p same => by
    cases same
    exact iff_of_false going busy

theorem Outcome.after {c c' c'' : Socks5Client} {h h' h'' : H} {r : Result Progress} (rest : Outcome w c' h' r c'' h'')
    (sent : (w.sent h).length ≤ (w.sent h').length) (heard : (w.reads h).flatten.length ≤ (w.reads h').flatten.length)
    (phase : rank c.phase ≤ rank c'.phase) : Outcome w c h r c'' h'' where
  failed := rest.failed
  kept := rest.kept
  sent := fun p ok => sent.trans (rest.sent p ok)
  heard := fun p ok => heard.trans (rest.heard p ok)
  phase := fun p ok => phase.trans (rest.phase p ok)
  done := rest.done

variable (w)

theorem recvLoop_standing (n budget : Nat) {progress : Progress} (kept : Kept w c h)
    (busy : c.phase ≠ .done) (going : progress ≠ .done) :
    ∃ r c' h', recvLoop socket n budget progress c h = (r, c', h') ∧ Outcome w c h r c' h' ∧
      (r = .ok .moved → progress = .moved ∨ (w.reads h).flatten.length < (w.reads h').flatten.length) := by
  induction n generalizing budget progress c h with
  | zero =>
    refine ⟨_, c, h, rfl, .still kept busy going rfl rfl, ?_⟩
    intro moved
    exact .inl (Except.ok.inj moved)
  | succ n ih =>
    have stop {h' : H} (sent : w.sent h' = w.sent h) (reads : (w.reads h').flatten = (w.reads h).flatten) :
        Outcome w c h (.ok progress) c h' ∧
          ((Except.ok progress : Result Progress) = .ok .moved →
            progress = .moved ∨ (w.reads h).flatten.length < (w.reads h').flatten.length) :=
      ⟨.still kept busy going sent reads, fun moved => .inl (Except.ok.inj moved)⟩
    unfold recvLoop
    by_cases room : 0 < budget
    · rw [if_pos room]
      rcases answer : socket.tcpRecv (min 512 budget) h with ⟨e | b, h'⟩
      · obtain ⟨rfl, sent, reads⟩ := w.stalls answer
        exact ⟨_, c, h', rfl, stop sent (congrArg List.flatten reads)⟩
      · obtain ⟨sent, reads, part⟩ := w.gives kept.part answer
        have grown : (w.reads h').flatten = (w.reads h).flatten ++ b := by simp [reads]
        cases b with
        | nil =>
          rw [List.append_nil] at grown
          exact ⟨_, c, h', rfl, stop sent grown⟩
        | cons a tail =>
          have longer : (w.reads h).flatten.length < (w.reads h').flatten.length := by
            rw [grown, List.length_append, List.length_cons]
            omega
          dsimp only
          by_cases full : MAX_SOCKS_FRAME < c.rx.length + (a :: tail).length
          · rw [if_pos full]
            have much : MAX_SOCKS_FRAME < (t.answers ++ app).length := by
              have within := kept.standing.rx_le
              have most := part.length_le
              rw [grown, List.length_append] at most
              omega
            refine ⟨_, c, h', rfl, ?_, fun moved => by cases moved⟩
            exact
              { failed := fun e failed => by
                  cases failed
                  exact ⟨rfl, much⟩
                kept := fun p ok => by cases ok
                sent := fun p ok => by cases ok
                heard := fun p ok => by cases ok
                phase := fun p ok => by cases ok
                done := fun p ok => by cases ok }
          · rw [if_neg full]
            obtain ⟨done, c', consumed, after⟩ := kept.standing.read busy kept.settled (grown ▸ part)
            rw [consumed]
            have there : Kept w c' h' :=
              { standing := by rw [sent, grown]; exact after.standing
                settled := after.settled
                part := part }
            cases done with
            | true =>
              refine ⟨_, c', h', rfl, ?_, fun moved => by cases moved⟩
              exact
                { failed := fun e failed => by cases failed
                  kept := fun _ _ => there
                  sent := fun _ _ => sent ▸ Nat.le_refl _
                  heard := fun _ _ => longer.le
                  phase := fun _ _ => after.rank
                  done := fun p same => by
                    cases same
                    exact iff_of_true rfl (after.done.mp rfl) }
            | false =>
              have still : c'.phase ≠ .done := fun done => Bool.false_ne_true (after.done.mpr done)
              obtain ⟨r, c'', h'', run, outcome, _⟩ := @ih c' h' (budget - (a :: tail).length) .moved there still (by decide)
              have whole := outcome.after (c := c) (h := h) (sent ▸ Nat.le_refl _) longer.le after.rank
              refine ⟨r, c'', h'', run, whole, ?_⟩
              intro moved
              exact .inr (longer.trans_le (outcome.heard _ moved))
    · rw [if_neg room]
      exact ⟨_, c, h, rfl, stop rfl rfl⟩

theorem rank_injective {p q : SocksPhase} (same : rank p = rank q) : p = q := by
  cases p <;> cases q <;> first | rfl | exact absurd same (by decide)

theorem sent_standing (kept : Kept w c h) (busy : c.phase ≠ .done) :
    ∃ any asked h' done c', sendLoop socket (c.out.length - c.outOff) false c h = (.ok any, asked, h') ∧
      asked.flushed = .ok (done, c') ∧ Kept w c' h' ∧ (done = true ↔ c'.phase = .done) ∧ rank c.phase ≤ rank c'.phase ∧
      w.reads h' = w.reads h ∧ (w.sent h).length ≤ (w.sent h').length ∧ (any = true → (w.sent h).length < (w.sent h').length) := by
  cases kept.standing with
  | asking s asking _ =>
    obtain ⟨any, asked, h', run, still, settled, reads, moved⟩ := sendLoop_asking w _ false (Nat.le_refl _) asking
    have part : (w.reads h').flatten <+: t.answers ++ app := reads ▸ kept.part
    obtain ⟨done, c', flushed, after⟩ := still.flushed (settled kept.settled) part
    have phase : c.phase = asked.phase := asking.phase.trans still.phase.symm
    refine ⟨any, asked, h', done, c', run, flushed, ⟨after.standing, after.settled, part⟩, after.done, phase ▸ after.rank, reads,
      ?_, ?_⟩
    · rcases moved with ⟨-, same⟩ | ⟨-, longer⟩
      · exact same ▸ Nat.le_refl _
      · exact longer.le
    · intro yes
      rcases moved with ⟨no, -⟩ | ⟨-, longer⟩
      · exact absurd (no.symm.trans yes) Bool.false_ne_true
      · exact longer
  | waiting s waiting _ =>
    have none : c.out.length - c.outOff = 0 := by simp [waiting.out]
    have unflushed : c.flushed = .ok (false, c) := by simp [Socks5Client.flushed, waiting.out]
    rw [none]
    exact ⟨false, c, h, false, c, rfl, unflushed, kept, iff_of_false Bool.false_ne_true busy, Nat.le_refl _, rfl, Nat.le_refl _,
      fun no => by cases no⟩
  | finished finished => exact absurd finished.phase busy

theorem pass_standing (kept : Kept w c h) (busy : c.phase ≠ .done) :
    ∃ r c' h', pass socket c h = (r, c', h') ∧ Outcome w c h r c' h' ∧ (r = .ok .moved → score w c h < score w c' h') := by
  obtain ⟨any, asked, h', done, told, run, flushed, kept', donePhase, rank', reads, sent, moved⟩ := sent_standing w kept busy
  unfold pass
  rw [run]
  dsimp only
  rw [flushed]
  have heard : (w.reads h).flatten.length ≤ (w.reads h').flatten.length := reads ▸ Nat.le_refl _
  cases done with
  | true =>
    refine ⟨_, told, h', rfl, ?_, fun moved => by cases moved⟩
    exact
      { failed := fun e failed => by cases failed
        kept := fun _ _ => kept'
        sent := fun _ _ => sent
        heard := fun _ _ => heard
        phase := fun _ _ => rank'
        done := fun p same => by
          cases same
          exact iff_of_true rfl (donePhase.mp rfl) }
  | false =>
    have still : told.phase ≠ .done := fun done => Bool.false_ne_true (donePhase.mpr done)
    obtain ⟨r, last, h'', received, outcome, longer⟩ :=
      recvLoop_standing w MAX_SOCKS_READ_PER_PUMP MAX_SOCKS_READ_PER_PUMP kept' still (by decide : Progress.idle ≠ .done)
    have whole := outcome.after (c := c) (h := h) sent heard rank'
    dsimp only
    rw [received]
    cases r with
    | error e => exact ⟨_, last, h'', rfl, whole, fun moved => by cases moved⟩
    | ok p =>
      have sentOk := outcome.sent p rfl
      have heardOk := whole.heard p rfl
      have phaseOk := whole.phase p rfl
      cases p with
      | done => exact ⟨_, last, h'', rfl, whole, fun moved => by cases moved⟩
      | moved =>
        refine ⟨_, last, h'', rfl, whole, ?_⟩
        intro moved
        have grown := (longer moved).resolve_left (by decide)
        rw [reads] at grown
        unfold score
        omega
      | idle =>
        have busy' : last.phase ≠ .done := fun done => absurd ((whole.done _ rfl).mpr done) (by decide)
        refine ⟨_, last, h'', rfl, ?_, ?_⟩
        · exact
            { failed := fun e failed => by cases failed
              kept := fun _ _ => whole.kept _ rfl
              sent := fun _ _ => whole.sent _ rfl
              heard := fun _ _ => heardOk
              phase := fun _ _ => phaseOk
              done := fun p same => by
                cases same
                split_ifs
                · exact iff_of_false (by decide) busy'
                · exact iff_of_false (by decide) busy' }
        · intro progressed
          unfold score
          by_cases calm : any = false ∧ last.phase = c.phase
          · rw [if_pos calm] at progressed
            cases progressed
          · cases taken : any with
            | true =>
              have grown := moved taken
              omega
            | false =>
              have other : rank last.phase ≠ rank c.phase := fun same => calm ⟨taken, rank_injective same⟩
              omega

def work (t : Talk) (app : Bytes) : Nat := t.requests.length + (t.answers ++ app).length + 6

theorem score_le (kept : Kept w c h) : score w c h ≤ work t app := by
  have heard := kept.part.length_le
  have phase : rank c.phase ≤ 6 := by cases c.phase <;> decide
  have sent : (w.sent h).length ≤ t.requests.length := by
    cases kept.standing with
    | asking s asking _ =>
      have most := (Talk.asked_prefix asking.part).length_le
      rw [List.length_append] at most
      rw [asking.sent, List.length_append, List.length_take]
      omega
    | waiting s waiting _ => exact waiting.sent ▸ (Talk.asked_prefix waiting.part).length_le
    | finished finished => exact finished.sent ▸ Nat.le_refl _
  unfold score work
  omega

/-- What a call came to: the socket gave more than the buffer holds, or the client stands, no less far, and its status says
whether it is done. -/
structure Pumped (c : Socks5Client) (h : H) (r : Result SocksStatus) (c' : Socks5Client) (h' : H) : Prop where
  failed : ∀ e, r = .error e → e = .protocol ∧ MAX_SOCKS_FRAME < (t.answers ++ app).length
  kept : ∀ st, r = .ok st → Kept w c' h'
  done : ∀ st, r = .ok st → (st = .done ↔ c'.phase = .done)
  further : ∀ st, r = .ok st → score w c h ≤ score w c' h'

theorem Outcome.score_le {c c' : Socks5Client} {h h' : H} {p : Progress} (outcome : Outcome w c h (.ok p) c' h') :
    score w c h ≤ score w c' h' :=
  Nat.add_le_add (Nat.add_le_add (outcome.sent p rfl) (outcome.heard p rfl)) (outcome.phase p rfl)

theorem timely_of_early {now : Nat} (kept : Kept w c h) (early : now ≤ t.deadline) : c.timedOut now = false := by
  unfold Socks5Client.timedOut
  rw [kept.settled.2.2]
  exact decide_eq_false (not_lt.mpr early)

theorem pumpLoop_standing (n : Nat) {now : Nat} (early : now ≤ t.deadline) (kept : Kept w c h)
    (busy : c.phase ≠ .done) (enough : work t app < n + score w c h) :
    ∃ r c' h', pumpLoop socket now n c h = some (r, c', h') ∧ Pumped w c h r c' h' := by
  induction n generalizing c h with
  | zero =>
    have most := score_le w kept
    omega
  | succ n ih =>
    obtain ⟨r, c', h', run, outcome, grows⟩ := pass_standing w kept busy
    unfold pumpLoop
    rw [timely_of_early w kept early, if_neg Bool.false_ne_true, run]
    cases r with
    | error e =>
      refine ⟨_, c', h', rfl, ?_⟩
      exact
        { failed := fun e' same => outcome.failed e' (congrArg _ (Except.error.inj same))
          kept := fun st ok => by cases ok
          done := fun st ok => by cases ok
          further := fun st ok => by cases ok }
    | ok p =>
      have there := outcome.kept p rfl
      have phase := outcome.done p rfl
      have further := outcome.score_le
      cases p with
      | idle =>
        refine ⟨_, c', h', rfl, ?_⟩
        exact
          { failed := fun e failed => by cases failed
            kept := fun _ _ => there
            done := fun st same => by
              cases same
              exact iff_of_false (by decide) fun done => absurd (phase.mpr done) (by decide)
            further := fun _ _ => further }
      | done =>
        refine ⟨_, c', h', rfl, ?_⟩
        exact
          { failed := fun e failed => by cases failed
            kept := fun _ _ => there
            done := fun st same => by
              cases same
              exact iff_of_true rfl (phase.mp rfl)
            further := fun _ _ => further }
      | moved =>
        have busy' : c'.phase ≠ .done := fun done => absurd (phase.mpr done) (by decide)
        have open' : c'.done = false := decide_eq_false busy'
        have grown := grows rfl
        dsimp only
        rw [open', if_neg Bool.false_ne_true]
        obtain ⟨r, c'', h'', rest, after⟩ := ih there busy' (by omega)
        refine ⟨r, c'', h'', rest, ?_⟩
        exact { after with further := fun st ok => further.trans (after.further st ok) }

theorem pump_standing {fuel now : Nat} (early : now ≤ t.deadline) (kept : Kept w c h)
    (enough : work t app < fuel) : ∃ r c' h', pump socket fuel now c h = some (r, c', h') ∧ Pumped w c h r c' h' := by
  unfold pump
  by_cases busy : c.phase = .done
  · have complete : c.done = true := decide_eq_true busy
    rw [if_pos complete]
    refine ⟨_, c, h, rfl, ?_⟩
    exact
      { failed := fun e failed => by cases failed
        kept := fun _ _ => kept
        done := fun st same => by
          cases same
          exact iff_of_true rfl busy
        further := fun _ _ => Nat.le_refl _ }
  · have open' : c.done = false := decide_eq_false busy
    rw [open', if_neg Bool.false_ne_true, timely_of_early w kept early, if_neg Bool.false_ne_true]
    exact pumpLoop_standing w fuel early kept busy (by omega)

theorem kept_new (sent : w.sent h = []) (reads : (w.reads h).flatten = []) :
    Kept w (Socks5Client.new t.target t.cfg t.start) h := by
  refine ⟨.asking .greet ?_ (List.length_pos_iff.mpr (Talk.request_ne_nil .greet)), ⟨rfl, rfl, rfl⟩, ?_⟩
  · exact
      { part := by cases auth : t.auth <;> simp [Talk.steps, Talk.before, auth]
        phase := rfl
        out := rfl
        inside := Nat.zero_le _
        sent := sent
        heard := reads }
  · rw [reads]
    exact List.nil_prefix

theorem pumps_standing {fuel : Nat} {clock : Nat → Nat} (early : ∀ n, clock n ≤ t.deadline) (enough : work t app < fuel)
    (kept : Kept w c h) (n : Nat) : ∃ r c' h', pumps socket fuel clock n c h = some (r, c', h') ∧
      (∀ e, r = .error e → e = .protocol ∧ MAX_SOCKS_FRAME < (t.answers ++ app).length) ∧
      ∀ st, r = .ok st → Kept w c' h' ∧ (st = .done → c'.phase = .done) := by
  induction n with
  | zero =>
    refine ⟨_, c, h, rfl, ?_, ?_⟩
    · intro e failed
      cases failed
    · intro st same
      cases same
      exact ⟨kept, fun no => by cases no⟩
  | succ n ih =>
    obtain ⟨r, c', h', run, failed, there⟩ := ih
    unfold pumps
    rw [run]
    cases r with
    | error e => exact ⟨_, c', h', rfl, failed, fun st ok => by cases ok⟩
    | ok st =>
      obtain ⟨r, c'', h'', pumped, after⟩ := pump_standing w (early n) (there st rfl).1 enough
      exact ⟨r, c'', h'', pumped, after.failed, fun st ok => ⟨after.kept st ok, (after.done st ok).mp⟩⟩

end Passes
end TypeBit.Socks
