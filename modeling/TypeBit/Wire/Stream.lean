import Mathlib.Data.List.ReduceOption
import TypeBit.Wire.Message

/-! The message stream puts frames back together. Whatever the cut of an encoded list of messages, the
parser yields the messages in order, never an error, and asks for more data once all of them are out. -/

namespace TypeBit.Wire

/-! ### Numbers on the wire -/

theorem length_toBe32 (n : Nat) : (toBe32 n).length = 4 := rfl

theorem toNat_toUInt8 (n : Nat) : n.toUInt8.toNat = n % 2 ^ 8 := rfl

theorem be32_sized (n : Nat) (rest : Bytes) : be32 (toBe32 n ++ rest) = n % 2 ^ 32 := by
  simp only [be32, toBe32, List.cons_append, List.getD_cons_zero, List.getD_cons_succ, toNat_toUInt8]
  omega

theorem be16_sized (n : Nat) (rest : Bytes) : be16 (toBe16 n ++ rest) = n % 2 ^ 16 := by
  simp only [be16, toBe16, List.cons_append, List.getD_cons_zero, List.getD_cons_succ, toNat_toUInt8]
  omega

theorem be32_toBe32 {n : Nat} (small : n < 2 ^ 32) (rest : Bytes) : be32 (toBe32 n ++ rest) = n := by
  rw [be32_sized, Nat.mod_eq_of_lt small]

theorem be16_toBe16 {n : Nat} (small : n < 2 ^ 16) : be16 (toBe16 n) = n := by
  have read := be16_sized n []
  rwa [List.append_nil, Nat.mod_eq_of_lt small] at read

namespace Message

/-- The numbers of a message are of the widths their fields have. -/
def Fits : Message → Prop
  | haves p | suggest p | allowedFast p => p < 2 ^ 32
  | request index start length | cancel index start length | reject index start length =>
      index < 2 ^ 32 ∧ start < 2 ^ 32 ∧ length < 2 ^ 32
  | piece index start _ => index < 2 ^ 32 ∧ start < 2 ^ 32
  | port p => p < 2 ^ 16
  | _ => True

theorem single_toBe32 {p : Nat} (small : p < 2 ^ 32) (make : Nat → Message) : single (toBe32 p) make = .ok (make p) := by
  have value := be32_toBe32 small []
  rw [List.append_nil] at value
  rw [single, length_toBe32, if_neg (by decide), value]

theorem triple_toBe32 {index start length : Nat} (first : index < 2 ^ 32) (second : start < 2 ^ 32)
    (third : length < 2 ^ 32) (make : Nat → Nat → Nat → Message) :
    triple (toBe32 index ++ (toBe32 start ++ toBe32 length)) make = .ok (make index start length) := by
  have last := be32_toBe32 third []
  rw [List.append_nil] at last
  rw [triple, if_neg (by simp [length_toBe32]), be32_toBe32 first, List.drop_left' (length_toBe32 index),
    be32_toBe32 second, ← List.append_assoc, List.drop_left' (by simp [length_toBe32]), last]

theorem decode_body {m : Message} (fits : m.Fits) {id : UInt8} {payload : Bytes} (shape : m.body = id :: payload) :
    decode id payload = .ok m := by
  cases m with
  | keepAlive => cases shape
  | choke => cases shape; rfl
  | unchoke => cases shape; rfl
  | interested => cases shape; rfl
  | notInterested => cases shape; rfl
  | haves p => cases shape; exact single_toBe32 fits haves
  | bitfield b => cases shape; rfl
  | request index start length => cases shape; exact triple_toBe32 fits.1 fits.2.1 fits.2.2 request
  | piece index start data =>
    simp only [body, List.cons_append, List.cons.injEq, List.append_assoc] at shape
    obtain ⟨rfl, rfl⟩ := shape
    have read : ∀ payload, decode 7 payload = if payload.length < 8 then .error .protocol
        else .ok (piece (be32 payload) (be32 (payload.drop 4)) (payload.drop 8)) := fun _ => rfl
    have long : ¬ (toBe32 index ++ (toBe32 start ++ data)).length < 8 := by
      simp only [List.length_append, length_toBe32]
      omega
    rw [read, if_neg long, be32_toBe32 fits.1, List.drop_left' (length_toBe32 index), be32_toBe32 fits.2,
      ← List.append_assoc, List.drop_left' (by simp [length_toBe32])]
  | cancel index start length => cases shape; exact triple_toBe32 fits.1 fits.2.1 fits.2.2 cancel
  | port p =>
    cases shape
    have read : decode 9 (toBe16 p) = .ok (port (be16 (toBe16 p))) := rfl
    rw [read, be16_toBe16 fits]
  | extended sub payload => cases shape; rfl
  | suggest p => cases shape; exact single_toBe32 fits suggest
  | haveAll => cases shape; rfl
  | haveNone => cases shape; rfl
  | reject index start length => cases shape; exact triple_toBe32 fits.1 fits.2.1 fits.2.2 reject
  | allowedFast p => cases shape; exact single_toBe32 fits allowedFast

theorem body_eq_nil {m : Message} (empty : m.body = []) : m = keepAlive := by
  cases m with
  | keepAlive => rfl
  | _ => cases empty

end Message

/-! ### One poll -/

namespace MessageStream
open Message

/-- What a stream may be sent: fields of their widths, bodies within the frame cap. -/
def Accepts (maxFrame : Nat) (m : Message) : Prop := m.Fits ∧ m.body.length ≤ maxFrame

variable {maxFrame : Nat}

theorem poll_frame (cap : maxFrame < 2 ^ 32) {m : Message} (accepts : Accepts maxFrame m) (rest : Bytes) :
    poll ⟨m.encode ++ rest, maxFrame⟩ = (.ok (some m), ⟨rest, maxFrame⟩) := by
  have size : be32 (m.encode ++ rest) = m.body.length := by
    rw [encode, List.append_assoc]
    exact be32_toBe32 (accepts.2.trans_lt cap) (m.body ++ rest)
  have whole : (m.encode ++ rest).length = 4 + m.body.length + rest.length := by
    simp only [encode, List.length_append, length_toBe32]
  have length : m.encode.length = 4 + m.body.length := by simp only [encode, List.length_append, length_toBe32]
  unfold poll
  dsimp only
  rw [size, if_neg (by omega)]
  cases shape : m.body with
  | nil =>
    cases body_eq_nil shape
    rfl
  | cons id payload =>
    have positive : (id :: payload).length ≠ 0 := by simp
    have bound : ¬ (id :: payload).length > maxFrame := by
      rw [← shape]
      exact not_lt.mpr accepts.2
    rw [shape] at whole length
    rw [if_neg positive, if_neg bound, if_neg (by omega), List.take_left' length, List.drop_left' length]
    have first : (m.encode ++ rest).getD 4 0 = id := by
      rw [encode, shape]
      rfl
    have tail : m.encode.drop 5 = payload := by
      rw [encode, shape]
      rfl
    rw [first, tail, decode_body accepts.1 shape]
    rfl

variable {buf rest : Bytes}

theorem poll_short (cap : maxFrame < 2 ^ 32) {m : Message} (accepts : Accepts maxFrame m) (start : buf ++ rest = m.encode)
    (short : rest ≠ []) : poll ⟨buf, maxFrame⟩ = (.ok none, ⟨buf, maxFrame⟩) := by
  have lacking := List.length_pos_iff.mpr short
  have length : buf.length + rest.length = 4 + m.body.length := by
    have sizes := congrArg List.length start
    rwa [encode, List.length_append, List.length_append, length_toBe32] at sizes
  unfold poll
  dsimp only
  by_cases early : buf.length < 4
  · rw [if_pos early]
  · have front : ∀ i < 4, (buf ++ rest).getD i 0 = buf.getD i 0 := by
      intro i below
      rw [List.getD_eq_getElem?_getD, List.getD_eq_getElem?_getD, List.getElem?_append_left (by omega)]
    have size : be32 buf = m.body.length := by
      have value := be32_toBe32 (accepts.2.trans_lt cap) m.body
      rw [← encode, ← start] at value
      rw [← value, be32, be32, front 0 (by omega), front 1 (by omega), front 2 (by omega), front 3 (by omega)]
    have bound := accepts.2
    rw [if_neg early, size, if_neg (by omega), if_neg (by omega), if_pos (by omega)]

variable {messages : List Message}

theorem poll_cases (cap : maxFrame < 2 ^ 32)
    (accepted : ∀ m ∈ messages, Accepts maxFrame m) (left : buf ++ rest = encodeAll messages) :
    (∃ m tail after, messages = m :: tail ∧ poll ⟨buf, maxFrame⟩ = (.ok (some m), ⟨after, maxFrame⟩) ∧
        after ++ rest = encodeAll tail) ∨
      (poll ⟨buf, maxFrame⟩ = (.ok none, ⟨buf, maxFrame⟩) ∧ (rest = [] → messages = [])) := by
  cases messages with
  | nil =>
    obtain ⟨rfl, rfl⟩ := List.append_eq_nil_iff.mp left
    exact Or.inr ⟨rfl, fun _ => rfl⟩
  | cons m tail =>
    have frames : encodeAll (m :: tail) = m.encode ++ encodeAll tail := rfl
    have accepts := accepted m List.mem_cons_self
    rw [frames, List.append_eq_append_iff] at left
    rcases left with ⟨missing, whole, later⟩ | ⟨after, whole, later⟩
    · by_cases none : missing = []
      · subst none
        rw [List.append_nil] at whole
        subst whole
        have polled := poll_frame cap accepts []
        rw [List.append_nil] at polled
        exact Or.inl ⟨m, tail, [], rfl, polled, later⟩
      · refine Or.inr ⟨poll_short cap accepts whole.symm none, fun empty => absurd ?_ none⟩
        rw [empty] at later
        exact (List.append_eq_nil_iff.mp later.symm).1
    · subst whole
      exact Or.inl ⟨m, tail, after, rfl, poll_frame cap accepts after, later.symm⟩

/-! ### Feeding and polling in any order -/

inductive Act where
  | feed (chunk : Bytes)
  | poll

def fed : List Act → Bytes
  | [] => []
  | .feed chunk :: tail => chunk ++ fed tail
  | .poll :: tail => fed tail

def play : List Act → MessageStream → List (Result (Option Message)) × MessageStream
  | [], s => ([], s)
  | .feed chunk :: tail, s => play tail (s.feed chunk)
  | .poll :: tail, s => (s.poll.1 :: (play tail s.poll.2).1, (play tail s.poll.2).2)

theorem play_append (early late : List Act) (s : MessageStream) :
    play (early ++ late) s = ((play early s).1 ++ (play late (play early s).2).1, (play late (play early s).2).2) := by
  induction early generalizing s with
  | nil => rfl
  | cons a tail ih =>
    cases a with
    | feed chunk => exact ih _
    | poll => simp only [List.cons_append, play, ih]

theorem play_spec (cap : maxFrame < 2 ^ 32) (script : List Act) (accepted : ∀ m ∈ messages, Accepts maxFrame m)
    (left : buf ++ fed script ++ rest = encodeAll messages) :
    ∃ (polled : List (Option Message)) (late : List Message) (after : Bytes), (play script ⟨buf, maxFrame⟩).1 = polled.map .ok ∧
      (play script ⟨buf, maxFrame⟩).2 = ⟨after, maxFrame⟩ ∧ messages = polled.reduceOption ++ late ∧
      after ++ rest = encodeAll late := by
  induction script generalizing buf messages with
  | nil =>
    rw [fed, List.append_nil] at left
    exact ⟨[], messages, buf, rfl, rfl, rfl, left⟩
  | cons a tail ih =>
    cases a with
    | feed chunk =>
      rw [fed, ← List.append_assoc] at left
      exact ih accepted left
    | poll =>
      rw [fed, List.append_assoc] at left
      rcases poll_cases cap accepted left with ⟨m, more, after, rfl, polled, later⟩ | ⟨polled, _⟩
      · rw [← List.append_assoc] at later
        obtain ⟨outs, late, final, results, state, split, remains⟩ :=
          ih (fun m member => accepted m (List.mem_cons_of_mem _ member)) later
        refine ⟨some m :: outs, late, final, ?_, ?_, ?_, remains⟩
        · rw [play, polled, results]
          rfl
        · rw [play, polled, state]
        · rw [List.reduceOption_cons_of_some, List.cons_append, ← split]
      · rw [← List.append_assoc] at left
        obtain ⟨outs, late, final, results, state, split, remains⟩ := ih accepted left
        refine ⟨none :: outs, late, final, ?_, ?_, ?_, remains⟩
        · rw [play, polled, results]
          rfl
        · rw [play, polled, state]
        · rw [List.reduceOption_cons_of_none, ← split]

theorem play_polls (cap : maxFrame < 2 ^ 32)
    (accepted : ∀ m ∈ messages, Accepts maxFrame m) (left : buf = encodeAll messages) {n : Nat} (enough : messages.length ≤ n) :
    (play (List.replicate n .poll) ⟨buf, maxFrame⟩).1 =
      (messages.map some ++ List.replicate (n - messages.length) none).map .ok ∧
      (play (List.replicate n .poll) ⟨buf, maxFrame⟩).2 = ⟨[], maxFrame⟩ := by
  induction n generalizing buf messages with
  | zero =>
    have none := List.length_eq_zero_iff.mp (Nat.le_zero.mp enough)
    subst none
    exact ⟨rfl, by rw [left]; rfl⟩
  | succ n ih =>
    rw [List.replicate_succ, play]
    have whole : buf ++ [] = encodeAll messages := by rw [List.append_nil, left]
    rcases poll_cases cap accepted whole with ⟨m, tail, after, rfl, polled, later⟩ | ⟨polled, ended⟩
    · rw [List.append_nil] at later
      rw [List.length_cons] at enough
      obtain ⟨results, state⟩ := ih (fun m member => accepted m (List.mem_cons_of_mem _ member)) later
        (Nat.le_of_succ_le_succ enough)
      rw [polled, results, state, List.length_cons, Nat.add_sub_add_right]
      exact ⟨rfl, rfl⟩
    · have none := ended rfl
      subst none
      obtain ⟨results, state⟩ := ih accepted left (Nat.zero_le n)
      rw [polled, results, state]
      exact ⟨rfl, rfl⟩

/-- Whatever script feeds the encodings of a list of messages to a new stream: its polls, and as many
more as there are messages and one, yield exactly these messages in order, no error, and then `none`. -/
theorem stream_reassembles {maxFrame : Nat} (cap : maxFrame < 2 ^ 32) (messages : List Message)
    (accepted : ∀ m ∈ messages, Accepts maxFrame m) (script : List Act) (cut : fed script = encodeAll messages) :
    ∃ polled : List (Option Message),
      (play (script ++ List.replicate (messages.length + 1) .poll) ⟨[], maxFrame⟩).1 = polled.map .ok ∧
      polled.reduceOption = messages ∧ polled.getLast? = some none ∧
      (play (script ++ List.replicate (messages.length + 1) .poll) ⟨[], maxFrame⟩).2 = ⟨[], maxFrame⟩ := by
  have left : [] ++ fed script ++ [] = encodeAll messages := by rw [List.append_nil, List.nil_append, cut]
  obtain ⟨early, late, after, results, state, split, remains⟩ := play_spec cap script accepted left
  have few : late.length ≤ messages.length + 1 := by
    rw [split, List.length_append]
    omega
  rw [List.append_nil] at remains
  obtain ⟨more, final⟩ := play_polls cap (fun m member => accepted m (by rw [split]; exact List.mem_append_right _ member))
    remains few
  have spare : messages.length + 1 - late.length = messages.length - late.length + 1 := by
    rw [split, List.length_append]
    omega
  refine ⟨early ++ (late.map some ++ List.replicate (messages.length + 1 - late.length) none), ?_, ?_, ?_, ?_⟩
  · rw [play_append, state, results, more, ← List.map_append]
  · rw [List.reduceOption_append, List.reduceOption_append, List.reduceOption_replicate_none, List.append_nil]
    have whole : (late.map some).reduceOption = late := by simp [List.reduceOption]
    rw [whole, ← split]
  · rw [spare, List.replicate_succ', ← List.append_assoc, ← List.append_assoc, List.getLast?_concat]
  · rw [play_append, state, final]

/-- Three messages, cut inside the first length, with a poll between the chunks. -/
theorem stream_reassembles_cut :
    ∃ polled : List (Option Message),
      (play [.feed [0, 0], .poll, .feed [0, 5, 4, 0, 0, 0, 7, 0, 0, 0, 0, 0, 0, 0, 3, 9, 26, 225],
        .poll, .poll, .poll, .poll] new).1 = polled.map .ok ∧
      polled.reduceOption = [.haves 7, .keepAlive, .port 6881] ∧ polled.getLast? = some none := by
  have accepted : ∀ m ∈ [Message.haves 7, .keepAlive, .port 6881], Accepts new.maxFrame m := by
    simp [Accepts, Fits, body, new, toBe32, toBe16]
  obtain ⟨polled, results, whole, last, _⟩ := stream_reassembles (by decide) [.haves 7, .keepAlive, .port 6881] accepted
    [.feed [0, 0], .poll, .feed [0, 5, 4, 0, 0, 0, 7, 0, 0, 0, 0, 0, 0, 0, 3, 9, 26, 225]] (by decide)
  exact ⟨polled, results, whole, last⟩

end MessageStream
end TypeBit.Wire
