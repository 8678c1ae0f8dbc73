import TypeBit.Socks.Line

/-! What a session finds on a connection it takes over from a SOCKS handshake (`Engine::pump_connection`, `run_http_get`): the
client goes with whatever it read beyond the reply, so the bytes that follow the reply are all there exactly when a chunk
ended with the reply. -/

namespace TypeBit.Socks

inductive Drive where
  | inProgress
  | done
  | failed
  deriving DecidableEq, Repr

section Turns
variable {H : Type} (socket : Socket H) (fuel : Nat) (clock : Nat → Nat)

def driveSocks (now : Nat) (c : Socks5Client) (h : H) : Option (Drive × Option Socks5Client × H) :=
  match pump socket fuel now c h with
  | none => none
  | some (.ok .done, _, h) => some (.done, none, h)
  | some (.ok .inProgress, c, h) => if c.timedOut now then some (.failed, none, h) else some (.inProgress, some c, h)
  | some (.error _, _, h) => some (.failed, none, h)

def turns : Nat → Socks5Client → H → Option (Drive × Option Socks5Client × H)
  | 0, c, h => some (.inProgress, some c, h)
  | n + 1, c, h =>
      match turns n c h with
      | some (.inProgress, some c, h) => driveSocks socket fuel (clock n) c h
      | stopped => stopped

end Turns

/-! ### The chunk that completes the reply -/

section Chunks
variable {H : Type} {socket : Socket H} {t : Talk} {app : Bytes} (w : Watch socket (t.answers ++ app))

def Prompt (h : H) : Prop := (w.sent h).length < t.requests.length → (w.reads h).flatten.length < t.answers.length

def Ended (h : H) : Prop := ∃ front b, w.reads h = front ++ [b] ∧ front.flatten.length < t.answers.length

theorem asked_lt {s : Step} (part : s ∈ t.steps) {n : Nat} (inside : n < (t.request s).length) :
    (t.asked s ++ (t.request s).take n).length < t.requests.length := by
  have most := (Talk.asked_prefix part).length_le
  rw [List.length_append] at most ⊢
  rw [List.length_take]
  omega

variable {c c' : Socks5Client} {h h' : H}

theorem Kept.open (kept : Kept w c h) (prompt : Prompt w h) (busy : c.phase ≠ .done) :
    (w.reads h).flatten.length < t.answers.length := by
  cases kept.standing with
  | asking s asking inside =>
    apply prompt
    rw [asking.sent]
    exact asked_lt asking.part inside
  | waiting s waiting short =>
    have most := (Talk.heard_prefix waiting.part).length_le
    rw [List.length_append] at most
    rw [waiting.heard, List.length_append]
    omega
  | finished finished => exact absurd finished.phase busy

theorem Prompt.later (prompt : Prompt w h) (reads : w.reads h' = w.reads h)
    (sent : (w.sent h).length ≤ (w.sent h').length) : Prompt w h' := by
  intro less
  rw [reads]
  exact prompt (lt_of_le_of_lt sent less)

/-- The client stands, no reply came early, and a finished handshake ended with the last chunk read. -/
structure Settling (c : Socks5Client) (h : H) : Prop where
  kept : Kept w c h
  prompt : Prompt w h
  ended : c.phase = .done → Ended w h

theorem Settling.rest_iff (settling : Settling w c h) (done : c.phase = .done) :
    (t.answers ++ app).drop (w.reads h).flatten.length = app ↔ ∃ k, ((w.reads h).take k).flatten = t.answers := by
  have finished := settling.kept.standing.finished_of_done done
  have within := settling.kept.part.length_le
  rw [finished.heard, List.length_append, List.length_append] at within
  constructor
  · intro left
    have length := congrArg List.length left
    rw [finished.heard, List.length_drop, List.length_append, List.length_append] at length
    have none : c.rx = [] := List.length_eq_zero_iff.mp (by omega)
    refine ⟨(w.reads h).length, ?_⟩
    rw [List.take_length, finished.heard, none, List.append_nil]
  · intro cut
    obtain ⟨k, whole⟩ := cut
    obtain ⟨front, b, reads, short⟩ := settling.ended done
    by_cases all : (w.reads h).length ≤ k
    · rw [List.take_of_length_le all] at whole
      rw [whole, List.drop_left]
    · rw [reads, List.length_append, List.length_singleton] at all
      have less : k ≤ front.length := by omega
      have part : ((front.take k).flatten).length ≤ front.flatten.length := by
        have whole_ : front.flatten = (front.take k).flatten ++ (front.drop k).flatten := by
          rw [← List.flatten_append, List.take_append_drop]
        rw [whole_, List.length_append]
        exact Nat.le_add_right _ _
      rw [reads, List.take_append_of_le_length less] at whole
      rw [whole] at part
      omega

variable (causal : ∀ {n h b h'}, Prompt w h → socket.tcpRecv n h = (.ok b, h') → Prompt w h')
include causal

theorem recvLoop_settling (n budget : Nat) {progress p : Progress} (kept : Kept w c h)
    (prompt : Prompt w h) (busy : c.phase ≠ .done) (run : recvLoop socket n budget progress c h = (.ok p, c', h')) :
    Settling w c' h' := by
  induction n generalizing budget progress c h with
  | zero =>
    cases run
    exact ⟨kept, prompt, fun done => absurd done busy⟩
  | succ n ih =>
    unfold recvLoop at run
    by_cases room : 0 < budget
    · rw [if_pos room] at run
      rcases answer : socket.tcpRecv (min 512 budget) h with ⟨e | b, h₁⟩
      · obtain ⟨rfl, sent, reads⟩ := w.stalls answer
        rw [answer] at run
        cases run
        refine ⟨⟨sent.symm ▸ reads.symm ▸ kept.standing, kept.settled, reads.symm ▸ kept.part⟩, ?_, fun done => absurd done busy⟩
        exact prompt.later w reads (sent ▸ Nat.le_refl _)
      · obtain ⟨sent, reads, part⟩ := w.gives kept.part answer
        have timely := causal prompt answer
        have grown : (w.reads h₁).flatten = (w.reads h).flatten ++ b := by simp [reads]
        rw [answer] at run
        cases b with
        | nil =>
          cases run
          rw [List.append_nil] at grown
          exact ⟨⟨sent.symm ▸ grown.symm ▸ kept.standing, kept.settled, part⟩, timely, fun done => absurd done busy⟩
        | cons a tail =>
          dsimp only at run
          split_ifs at run with full
          · cases run
          · obtain ⟨done, c₁, consumed, after⟩ := kept.standing.read busy kept.settled (grown ▸ part)
            rw [consumed] at run
            have there : Kept w c₁ h₁ := ⟨by rw [sent, grown]; exact after.standing, after.settled, part⟩
            cases done with
            | true =>
              cases run
              exact ⟨there, timely, fun _ => ⟨w.reads h, a :: tail, reads, kept.open w prompt busy⟩⟩
            | false => exact ih _ there timely (fun done => Bool.false_ne_true (after.done.mpr done)) run
    · rw [if_neg room] at run
      cases run
      exact ⟨kept, prompt, fun done => absurd done busy⟩

theorem pass_settling {p : Progress} (kept : Kept w c h) (prompt : Prompt w h)
    (busy : c.phase ≠ .done) (run : pass socket c h = (.ok p, c', h')) : Settling w c' h' := by
  obtain ⟨any, asked, h₁, done, told, sends, flushed, kept', donePhase, -, reads, sent, -⟩ := sent_standing w kept busy
  have prompt' := prompt.later w reads sent
  unfold pass at run
  rw [sends] at run
  dsimp only at run
  rw [flushed] at run
  cases done with
  | true =>
    have finished := kept'.standing.finished_of_done (donePhase.mp rfl)
    have short := kept.open w prompt busy
    rw [← reads, finished.heard, List.length_append] at short
    omega
  | false =>
    have still : told.phase ≠ .done := fun done => Bool.false_ne_true (donePhase.mpr done)
    dsimp only at run
    rcases received : recvLoop socket MAX_SOCKS_READ_PER_PUMP MAX_SOCKS_READ_PER_PUMP .idle told h₁ with ⟨r, last, h₂⟩
    rw [received] at run
    cases r with
    | error e => cases run
    | ok q =>
      have settling := recvLoop_settling w causal _ _ kept' prompt' still received
      cases q <;> cases run <;> exact settling

variable {st : SocksStatus}

theorem pumpLoop_settling (n : Nat) {now : Nat} (kept : Kept w c h)
    (prompt : Prompt w h) (busy : c.phase ≠ .done) (run : pumpLoop socket now n c h = some (.ok st, c', h')) :
    Settling w c' h' ∧ (st = .done → c'.phase = .done) := by
  induction n generalizing c h with
  | zero => cases run
  | succ n ih =>
    unfold pumpLoop at run
    split_ifs at run with late
    · cases run
    · obtain ⟨r, c₁, h₁, passed, outcome, -⟩ := pass_standing w kept busy
      rw [passed] at run
      cases r with
      | error e => cases run
      | ok p =>
        have settling := pass_settling w causal kept prompt busy passed
        have phase := outcome.done p rfl
        cases p with
        | idle =>
          cases run
          exact ⟨settling, fun no => by cases no⟩
        | done =>
          cases run
          exact ⟨settling, fun _ => phase.mp rfl⟩
        | moved =>
          have busy' : c₁.phase ≠ .done := fun done => absurd (phase.mpr done) (by decide)
          have open' : c₁.done = false := decide_eq_false busy'
          dsimp only at run
          rw [open', if_neg Bool.false_ne_true] at run
          exact ih settling.kept settling.prompt busy' run

theorem pump_settling {fuel now : Nat} (settling : Settling w c h)
    (run : pump socket fuel now c h = some (.ok st, c', h')) : Settling w c' h' ∧ (st = .done → c'.phase = .done) := by
  unfold pump at run
  by_cases busy : c.phase = .done
  · have complete : c.done = true := decide_eq_true busy
    rw [if_pos complete] at run
    cases run
    exact ⟨settling, fun _ => busy⟩
  · have open' : c.done = false := decide_eq_false busy
    rw [open', if_neg Bool.false_ne_true] at run
    split_ifs at run with late
    · cases run
    · exact pumpLoop_settling w causal fuel settling.kept settling.prompt busy run

theorem turns_settling {fuel : Nat} {clock : Nat → Nat} (settling : Settling w c h) (n : Nat) :
    (∀ c' h', turns socket fuel clock n c h = some (.inProgress, some c', h') → Settling w c' h') ∧
      ∀ rest h', turns socket fuel clock n c h = some (.done, rest, h') → ∃ c', Settling w c' h' ∧ c'.phase = .done := by
  induction n with
  | zero =>
    constructor
    · intro c' h' run
      cases run
      exact settling
    · intro rest h' run
      cases run
  | succ n ih =>
    obtain ⟨kept, left⟩ := ih
    by_cases going : ∃ c₁ h₁, turns socket fuel clock n c h = some (.inProgress, some c₁, h₁)
    · obtain ⟨c₁, h₁, before⟩ := going
      have there := kept c₁ h₁ before
      have turn : turns socket fuel clock (n + 1) c h = driveSocks socket fuel (clock n) c₁ h₁ := by rw [turns, before]
      rw [turn]
      unfold driveSocks
      rcases pumped : pump socket fuel (clock n) c₁ h₁ with _ | ⟨r, c₂, h₂⟩
      · constructor <;> (intro a h' run; cases run)
      · cases r with
        | error e => constructor <;> (intro a h' run; cases run)
        | ok st =>
          obtain ⟨settling', done⟩ := pump_settling w causal there pumped
          cases st with
          | done =>
            constructor
            · intro a h' run
              cases run
            · intro rest h' run
              cases run
              exact ⟨c₂, settling', done rfl⟩
          | inProgress =>
            dsimp only
            split_ifs with late
            · constructor <;> (intro a h' run; cases run)
            · constructor
              · intro c' h' run
                cases run
                exact settling'
              · intro rest h' run
                cases run
    · have stays : turns socket fuel clock (n + 1) c h = turns socket fuel clock n c h := by
        rw [turns]
        rcases before : turns socket fuel clock n c h with _ | ⟨drive, stays, h₁⟩
        · rfl
        · cases drive <;> cases stays <;> first | rfl | exact absurd ⟨_, _, before⟩ going
      rw [stays]
      exact ⟨kept, left⟩

theorem pumps_settling {fuel : Nat} {clock : Nat → Nat} (settling : Settling w c h) (n : Nat)
    (run : pumps socket fuel clock n c h = some (.ok st, c', h')) : Settling w c' h' ∧ (st = .done → c'.phase = .done) := by
  induction n generalizing st c' h' with
  | zero =>
    cases run
    exact ⟨settling, fun no => by cases no⟩
  | succ n ih =>
    unfold pumps at run
    rcases before : pumps socket fuel clock n c h with _ | ⟨r, c₁, h₁⟩
    · rw [before] at run
      cases run
    · rw [before] at run
      cases r with
      | error e => cases run
      | ok st₁ => exact pump_settling w causal (ih before).1 run

/-- When a connection is taken over, by a session or by the HTTP reader, it still gives every byte after the reply exactly when one
of the chunks read ended with the reply. -/
theorem handed_over_iff {fuel : Nat} {clock : Nat → Nat} {h : H} (sent : w.sent h = []) (reads : (w.reads h).flatten = []) (n : Nat) :
    (∀ rest h', turns socket fuel clock n (Socks5Client.new t.target t.cfg t.start) h = some (.done, rest, h') →
        ((t.answers ++ app).drop (w.reads h').flatten.length = app ↔ ∃ k, ((w.reads h').take k).flatten = t.answers)) ∧
      ∀ c h', pumps socket fuel clock n (Socks5Client.new t.target t.cfg t.start) h = some (.ok .done, c, h') →
        ((t.answers ++ app).drop (w.reads h').flatten.length = app ↔ ∃ k, ((w.reads h').take k).flatten = t.answers) := by
  have filled : 0 < t.answers.length := by
    have most := (Talk.heard_prefix (t := t) (s := .connect) (by simp [Talk.steps])).length_le
    have some := List.length_pos_iff.mpr (Talk.answer_ne_nil (t := t) .connect)
    rw [List.length_append] at most
    omega
  have start : Settling w (Socks5Client.new t.target t.cfg t.start) h :=
    { kept := kept_new w sent reads
      prompt := fun _ => by rw [reads]; exact filled
      ended := fun done => by cases done }
  constructor
  · intro rest h' run
    obtain ⟨c, settling, done⟩ := (turns_settling w causal start n).2 rest h' run
    exact settling.rest_iff w done
  · intro c h' run
    obtain ⟨settling, done⟩ := pumps_settling w causal start n run
    exact settling.rest_iff w (done rfl)

end Chunks

/-! ### A proxy that coalesces -/

def plainTalk : Talk where
  cfg := { username := none, password := none, handshakeTimeoutMs := 5000 }
  target := .ip (NetAddr.ofOctets 198 51 100 7 6881)
  start := 0
  auth := false
  reply := [SOCKS5, 0, 0, ATYP_IPV4] ++ [1, 2, 3, 4, 0x1f, 0x90]
  offered := fun no => by cases no
  granted := .ipv4 0 rfl

/-- A proxy that answers each request once it has it, in chunks of at most `n` bytes. -/
def answersIn (n : Nat) : Script where
  sends _ := some 1000
  recvs _ := some n
  ready sent := if sent < 3 then 0 else if sent < 13 then 2 else 1000

theorem answersIn_causal {n want : Nat} {l l' : Line} {b app : Bytes}
    (prompt : Prompt ((answersIn n).watch (plainTalk.answers ++ app)) l)
    (given : ((answersIn n).socket (plainTalk.answers ++ app)).tcpRecv want l = (.ok b, l')) :
    Prompt ((answersIn n).watch (plainTalk.answers ++ app)) l' := by
  rw [Script.tcpRecv_some (n := n) rfl] at given
  cases given
  intro less
  have before : l.reads.flatten.length < 12 := prompt less
  have few : l.sent.length < 13 := less
  have ready : (answersIn n).ready l.sent.length ≤ 2 := by
    change (if l.sent.length < 3 then 0 else if l.sent.length < 13 then 2 else 1000) ≤ 2
    rw [if_pos few]
    split_ifs <;> decide
  change (l.reads ++ [_]).flatten.length < 12
  rw [List.flatten_append, List.flatten_singleton, List.length_append, Script.chunk, List.length_take]
  omega

/-- The client of that handshake after a turn on a connection where the peer says hello at once: what became of it, and what the
connection still has to give. -/
def takenOver (n : Nat) : Option (Drive × Bytes) :=
  (turns ((answersIn n).socket (plainTalk.answers ++ ascii "hello")) 64 (fun _ => 0) 1
    (Socks5Client.new plainTalk.target plainTalk.cfg plainTalk.start) Line.fresh).map
      fun r => (r.1, (plainTalk.answers ++ ascii "hello").drop r.2.2.reads.flatten.length)

/-- The reply and what follows it came in one chunk, and nothing is left for the session. -/
theorem peer_greeting_lost : takenOver 1000 = some (.done, []) := by decide

theorem handed_over_bytewise : ∃ rest l,
    turns ((answersIn 1).socket (plainTalk.answers ++ ascii "hello")) 64 (fun _ => 0) 1
      (Socks5Client.new plainTalk.target plainTalk.cfg plainTalk.start) Line.fresh = some (.done, rest, l) ∧
        (plainTalk.answers ++ ascii "hello").drop l.reads.flatten.length = ascii "hello" := by
  have seen : (turns ((answersIn 1).socket (plainTalk.answers ++ ascii "hello")) 64 (fun _ => 0) 1
      (Socks5Client.new plainTalk.target plainTalk.cfg plainTalk.start) Line.fresh).map (fun r => (r.1, (r.2.2.reads.take 13).flatten)) =
        some (.done, plainTalk.answers) := by decide
  obtain ⟨⟨drive, rest, l⟩, run, shown⟩ := Option.map_eq_some_iff.mp seen
  obtain ⟨done, reads⟩ := Prod.mk.inj shown
  cases done
  have taken := @handed_over_iff _ _ plainTalk (ascii "hello") ((answersIn 1).watch (plainTalk.answers ++ ascii "hello"))
    answersIn_causal 64 (fun _ => 0) Line.fresh rfl rfl 1
  exact ⟨rest, l, run, (taken.1 rest l run).mpr ⟨13, reads⟩⟩

end TypeBit.Socks
