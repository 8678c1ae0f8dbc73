import TypeBit.Bencode.Spelling
import TypeBit.Socks.Http

/-! Which well-formed responses `parse_http_body` reads as they are: those that have a field, spell the field that frames the body
as the source does, and leave no blank after a length. -/

namespace TypeBit.Socks
open Bencode Trackers Link
set_option maxRecDepth 20000

/-! ### Responses -/

structure Field where
  name : Bytes
  pad : Bytes
  value : Bytes
  tail : Bytes

namespace Field

def line (f : Field) : Bytes := f.name ++ ch ':' :: (f.pad ++ f.value ++ f.tail)

structure WellFormed (f : Field) : Prop where
  named : f.name ≠ []
  name : ∀ c ∈ f.name, c ≠ ch ':' ∧ c ≠ ch '\r' ∧ c ≠ ch '\n'
  pad : ∀ c ∈ f.pad, isBlank c = true
  value : ∀ c ∈ f.value, c ≠ ch '\r' ∧ c ≠ ch '\n'
  tail : ∀ c ∈ f.tail, isBlank c = true

def Names (f : Field) (name : String) : Prop := f.name.map lower = (ascii name).map lower

end Field

structure StatusLine where
  version : Bytes
  tens : UInt8
  units : UInt8
  reason : Bytes

namespace StatusLine

def text (s : StatusLine) : Bytes := s.version ++ ch ' ' :: ch '2' :: s.tens :: s.units :: ch ' ' :: s.reason

structure WellFormed (s : StatusLine) : Prop where
  http : ascii "HTTP/" <+: s.version
  version : ∀ c ∈ s.version, c ≠ ch ' ' ∧ c ≠ ch '\r' ∧ c ≠ ch '\n'
  tens : isDigit s.tens = true
  units : isDigit s.units = true
  reason : ∀ c ∈ s.reason, c ≠ ch '\r' ∧ c ≠ ch '\n'

end StatusLine

/-- What follows the head: chunks, a body as long as a field says with what may follow it, or a body that ends with the connection. -/
inductive Payload where
  | chunked (field : Field) (chunks : List Chunk) (last : LastChunk)
  | sized (field : Field) (body extra : Bytes)
  | rest (body : Bytes)

namespace Payload

def field : Payload → List Field
  | chunked f _ _ => [f]
  | sized f _ _ => [f]
  | rest _ => []

def raw : Payload → Bytes
  | chunked _ chunks last => encodeChunks chunks last
  | sized _ body extra => body ++ extra
  | rest body => body

def body : Payload → Bytes
  | chunked _ chunks _ => bodyOf chunks
  | sized _ body _ => body
  | rest body => body

/-- The field says how the body is written. -/
def WellFormed : Payload → Prop
  | chunked f chunks last =>
      f.Names "Transfer-Encoding" ∧ f.value.map lower = ascii "chunked" ∧ (∀ c ∈ chunks, c.Valid) ∧ last.Valid
  | sized f body _ => f.Names "Content-Length" ∧ digitsValue f.value = some body.length ∧ body.length < 2 ^ 64
  | rest _ => True

end Payload

structure Response where
  status : StatusLine
  before : List Field
  payload : Payload
  after : List Field

namespace Response

def fields (r : Response) : List Field := r.before ++ r.payload.field ++ r.after

def head (r : Response) : Bytes := r.status.text ++ r.fields.flatMap fun f => crlf ++ f.line

def text (r : Response) : Bytes := r.head ++ (crlf ++ crlf) ++ r.payload.raw

/-- The parts are well formed, and no other field frames the body. -/
structure WellFormed (r : Response) : Prop where
  status : r.status.WellFormed
  fields : ∀ f ∈ r.fields, f.WellFormed
  payload : r.payload.WellFormed
  others : ∀ f ∈ r.before ++ r.after, ¬ f.Names "Transfer-Encoding" ∧ ¬ f.Names "Content-Length"

def Read (r : Response) (out : Bytes) : Prop :=
  r.fields ≠ [] ∧
    match r.payload with
    | .chunked f chunks _ =>
        f.name = ascii "Transfer-Encoding" ∧ (chunks = [] ∨ out.length + (bodyOf chunks).length ≤ MAX_HTTP_BODY)
    | .sized f _ extra => (f.name = ascii "Content-Length" ∧ f.tail = []) ∨ extra = []
    | .rest _ => True

end Response

/-! ### The end of the head -/

theorem findSubslice_other {needle : Bytes} {a b : UInt8} (other : a ≠ b) (s : Bytes) :
    findSubslice (a :: needle) (b :: s) = (findSubslice (a :: needle) s).map (· + 1) := by
  have unlike : (a == b) = false := beq_eq_false_iff_ne.mpr other
  simp [findSubslice, List.isPrefixOf, unlike]

theorem findSubslice_free {p : Bytes} (free : ch '\r' ∉ p) (s : Bytes) :
    findSubslice (crlf ++ crlf) (p ++ s) = (findSubslice (crlf ++ crlf) s).map (· + p.length) := by
  induction p with
  | nil => simp
  | cons c p ih =>
    obtain ⟨other, rest⟩ := List.ne_and_not_mem_of_not_mem_cons free
    change findSubslice (ch '\r' :: (ch '\n' :: crlf)) (c :: (p ++ s)) = _
    rw [findSubslice_other other]
    change (findSubslice (crlf ++ crlf) (p ++ s)).map (· + 1) = _
    rw [ih rest, Option.map_map, List.length_cons]
    rfl

theorem findSubslice_line {l : Bytes} (filled : l ≠ []) (free : ch '\r' ∉ l) (s : Bytes) :
    findSubslice (crlf ++ crlf) (crlf ++ l ++ s) = (findSubslice (crlf ++ crlf) s).map (· + (crlf ++ l).length) := by
  have plain : findSubslice (crlf ++ crlf) (crlf ++ l ++ s) = (findSubslice (crlf ++ crlf) (l ++ s)).map (· + 2) := by
    cases l with
    | nil => exact absurd rfl filled
    | cons c l =>
      have other : (ch '\r' == c) = false := beq_eq_false_iff_ne.mpr fun same => free (same ▸ List.mem_cons_self)
      have here : (crlf ++ crlf).isPrefixOf (ch '\r' :: ch '\n' :: (c :: l ++ s)) = false := by
        change (ch '\r' == c && _) = false
        rw [other, Bool.false_and]
      have next : (crlf ++ crlf).isPrefixOf (ch '\n' :: (c :: l ++ s)) = false := rfl
      change findSubslice (crlf ++ crlf) (ch '\r' :: ch '\n' :: (c :: l ++ s)) = _
      rw [findSubslice, here, findSubslice, next]
      simp
  rw [plain, findSubslice_free free, Option.map_map]
  apply congrArg (Option.map · _)
  funext n
  change n + l.length + 2 = n + (crlf ++ l).length
  rw [List.length_append, Nat.add_assoc, Nat.add_comm l.length]
  rfl

theorem findSubslice_lines {lines : List Bytes} (filled : ∀ l ∈ lines, l ≠ [] ∧ ch '\r' ∉ l) (s : Bytes) :
    findSubslice (crlf ++ crlf) ((lines.flatMap fun l => crlf ++ l) ++ s) =
      (findSubslice (crlf ++ crlf) s).map (· + (lines.flatMap fun l => crlf ++ l).length) := by
  induction lines with
  | nil => simp
  | cons l lines ih =>
    obtain ⟨first, free⟩ := filled l List.mem_cons_self
    have rest := ih fun m member => filled m (List.mem_cons_of_mem l member)
    rw [List.flatMap_cons, List.append_assoc, findSubslice_line first free, rest, Option.map_map]
    apply congrArg (Option.map · _)
    funext n
    simp only [Function.comp_apply, List.length_append]
    omega

/-! ### The lines of the head -/

theorem lines_of {p : Bytes} {lines : List Bytes} (first : ch '\r' ∉ p ∧ ch '\n' ∉ p)
    (free : ∀ l ∈ lines, ch '\r' ∉ l ∧ ch '\n' ∉ l) :
    (splitOn (ch '\n') (p ++ lines.flatMap fun l => crlf ++ l)).map trimCr = p :: lines := by
  induction lines generalizing p with
  | nil => rw [List.flatMap_nil, List.append_nil, splitOn_free first.2, List.map_singleton, trimCr_free first.1]
  | cons l lines ih =>
    have next := free l List.mem_cons_self
    have rest := ih next fun m member => free m (List.mem_cons_of_mem l member)
    have shape : p ++ ((l :: lines).flatMap fun l => crlf ++ l) =
        (p ++ [ch '\r']) ++ ch '\n' :: (l ++ lines.flatMap fun l => crlf ++ l) := by
      simp [crlf]
    have plain : ch '\n' ∉ p ++ [ch '\r'] := by
      rw [List.mem_append, List.mem_singleton, not_or]
      exact ⟨first.2, by decide⟩
    rw [shape, splitOn_append plain, List.map_cons, trimCr_append, rest]

theorem parseHttpBody_head {p : Bytes} {lines : List Bytes} (status : statusCheck p = .ok ()) (first : ch '\r' ∉ p ∧ ch '\n' ∉ p)
    (free : ∀ l ∈ lines, l ≠ [] ∧ ch '\r' ∉ l ∧ ch '\n' ∉ l) (raw out : Bytes) :
    parseHttpBody ((p ++ lines.flatMap fun l => crlf ++ l) ++ (crlf ++ crlf) ++ raw) out =
      if lines = [] then none else some ((lines.foldl Framing.field ⟨false, none⟩).read raw out) := by
  have ending : findSubslice (crlf ++ crlf) ((p ++ lines.flatMap fun l => crlf ++ l) ++ (crlf ++ crlf) ++ raw) =
      some (p ++ lines.flatMap fun l => crlf ++ l).length := by
    have here : findSubslice (crlf ++ crlf) ((crlf ++ crlf) ++ raw) = some 0 := rfl
    rw [List.append_assoc, List.append_assoc, findSubslice_free first.1,
      findSubslice_lines fun l member => ⟨(free l member).1, (free l member).2.1⟩, here, List.length_append]
    simp [Nat.add_comm]
  have after : ((p ++ lines.flatMap fun l => crlf ++ l) ++ (crlf ++ crlf) ++ raw).drop
      ((p ++ lines.flatMap fun l => crlf ++ l).length + 4) = raw := by
    rw [List.append_assoc, List.drop_length_add_append]
    rfl
  have before : ((p ++ lines.flatMap fun l => crlf ++ l) ++ (crlf ++ crlf) ++ raw).take
      (p ++ lines.flatMap fun l => crlf ++ l).length = p ++ lines.flatMap fun l => crlf ++ l := by
    rw [List.append_assoc, List.take_left]
  unfold parseHttpBody
  simp only [ending, after, before]
  cases lines with
  | nil =>
    have whole : p.idxOf (ch '\n') = p.length := List.idxOf_eq_length first.2
    rw [List.flatMap_nil, List.append_nil, whole, List.take_length, trimCr_free first.1, status, if_pos rfl]
    exact if_pos (Nat.lt_succ_self p.length)
  | cons l lines =>
    have next := free l List.mem_cons_self
    have shape : (p ++ (l :: lines).flatMap fun l => crlf ++ l) =
        (p ++ [ch '\r']) ++ ch '\n' :: (l ++ lines.flatMap fun l => crlf ++ l) := by
      simp [crlf]
    have plain : ch '\n' ∉ p ++ [ch '\r'] := by
      rw [List.mem_append, List.mem_singleton, not_or]
      exact ⟨first.2, by decide⟩
    have long : ¬ ((p ++ [ch '\r']) ++ ch '\n' :: (l ++ lines.flatMap fun l => crlf ++ l)).length <
        (p ++ [ch '\r']).length + 1 := by
      rw [List.length_append, List.length_cons]
      omega
    have others := lines_of next.2 fun m member => (free m (List.mem_cons_of_mem l member)).2
    have dropped : ((p ++ [ch '\r']) ++ ch '\n' :: (l ++ lines.flatMap fun l => crlf ++ l)).drop
        ((p ++ [ch '\r']).length + 1) = l ++ lines.flatMap fun l => crlf ++ l := by
      rw [List.drop_length_add_append]
      rfl
    rw [shape, idxOf_append plain, List.take_left, trimCr_append, status]
    simp only [if_neg long, dropped, if_neg (List.cons_ne_nil l lines)]
    rw [← others, List.foldl_map]

/-! ### Fields -/

namespace Field
variable {f : Field} (well : f.WellFormed)
include well

theorem line_free : f.line ≠ [] ∧ ch '\r' ∉ f.line ∧ ch '\n' ∉ f.line := by
  have blank : ∀ c, isBlank c = true → c ≠ ch '\r' ∧ c ≠ ch '\n' :=
    fun c => forall_byte (P := fun c => isBlank c = true → c ≠ ch '\r' ∧ c ≠ ch '\n') (by decide) c
  have each : ∀ c ∈ f.line, c ≠ ch '\r' ∧ c ≠ ch '\n' := by
    intro c member
    simp only [line, List.mem_append, List.mem_cons] at member
    rcases member with name | colon | (pad | value) | tail
    · exact (well.name c name).2
    · rw [colon]
      decide
    · exact blank c (well.pad c pad)
    · exact well.value c value
    · exact blank c (well.tail c tail)
  refine ⟨?_, fun member => (each _ member).1 rfl, fun member => (each _ member).2 rfl⟩
  exact List.append_ne_nil_of_right_ne_nil f.name (List.cons_ne_nil _ _)

theorem stripPrefix_line (key : Bytes) (free : ch ':' ∉ key) :
    stripPrefix (key ++ [ch ':']) f.line = if f.name = key then some (f.pad ++ f.value ++ f.tail) else none := by
  have plain : ch ':' ∉ f.name := fun member => (well.name _ member).1 rfl
  have split := splitOnce_append plain (f.pad ++ f.value ++ f.tail)
  by_cases same : f.name = key
  · rw [if_pos same, line, same, stripPrefix_eq_some, List.append_assoc key, List.singleton_append]
  · rw [if_neg same, Option.eq_none_iff_forall_not_mem]
    intro rest found
    have parts := stripPrefix_eq_some.mp found
    have other := splitOnce_append free rest
    have shape : f.name ++ ch ':' :: (f.pad ++ f.value ++ f.tail) = key ++ ch ':' :: rest := by
      rw [List.append_assoc] at parts
      exact parts
    rw [shape, other, Option.some.injEq, Prod.mk.injEq] at split
    exact same split.1.symm

theorem framing (g : Framing) :
    g.field f.line =
      if f.name = ascii "Transfer-Encoding" then
        if containsIgnoreCase (f.pad ++ f.value ++ f.tail) (ascii "chunked") then { g with chunked := true } else g
      else if f.name = ascii "Content-Length" then
        { g with contentLen := parseUsize (trimSpaces (f.pad ++ f.value ++ f.tail)) }
      else g := by
  have coding := stripPrefix_line well (ascii "Transfer-Encoding") (by decide)
  have length := stripPrefix_line well (ascii "Content-Length") (by decide)
  have codingKey : ascii "Transfer-Encoding:" = ascii "Transfer-Encoding" ++ [ch ':'] := rfl
  have lengthKey : ascii "Content-Length:" = ascii "Content-Length" ++ [ch ':'] := rfl
  unfold Framing.field
  rw [codingKey, lengthKey, coding, length]
  by_cases first : f.name = ascii "Transfer-Encoding"
  · simp only [if_pos first]
  · by_cases second : f.name = ascii "Content-Length"
    · simp only [if_neg first, if_pos second]
    · simp only [if_neg first, if_neg second]

end Field

theorem framing_other {fields : List Field} (well : ∀ f ∈ fields, f.WellFormed)
    (others : ∀ f ∈ fields, f.name ≠ ascii "Transfer-Encoding" ∧ f.name ≠ ascii "Content-Length") (g : Framing) :
    (fields.map Field.line).foldl Framing.field g = g := by
  induction fields with
  | nil => rfl
  | cons f fields ih =>
    have first := Field.framing (well f List.mem_cons_self) g
    have other := others f List.mem_cons_self
    rw [if_neg other.1, if_neg other.2] at first
    rw [List.map_cons, List.foldl_cons, first]
    exact ih (fun m member => well m (List.mem_cons_of_mem f member)) fun m member => others m (List.mem_cons_of_mem f member)

/-! ### Values -/

theorem findSubslice_isSome {needle : Bytes} (filled : needle ≠ []) (p s : Bytes) :
    (findSubslice needle (p ++ needle ++ s)).isSome = true := by
  induction p with
  | nil =>
    cases needle with
    | nil => exact absurd rfl filled
    | cons c needle =>
      have here : (c :: needle).isPrefixOf (c :: (needle ++ s)) = true :=
        List.isPrefixOf_iff_prefix.mpr (List.prefix_append (c :: needle) s)
      change (findSubslice (c :: needle) (c :: (needle ++ s))).isSome = true
      rw [findSubslice, if_pos here]
      rfl
  | cons c p ih =>
    change (findSubslice needle (c :: (p ++ needle ++ s))).isSome = true
    rw [findSubslice]
    split_ifs
    · rfl
    · rw [Option.isSome_map]
      exact ih

theorem containsIgnoreCase_value {value : Bytes} (spelled : value.map lower = ascii "chunked") (pad tail : Bytes) :
    containsIgnoreCase (pad ++ value ++ tail) (ascii "chunked") = true := by
  have small : (ascii "chunked").map lower = ascii "chunked" := by decide
  unfold containsIgnoreCase
  rw [List.map_append, List.map_append, spelled, small]
  exact findSubslice_isSome (by decide) _ _

theorem foldlM_usizeDigit {digits : Bytes} (all : ∀ c ∈ digits, isDigit c = true) {start : Nat}
    (fits : digitsFold start digits < 2 ^ 64) : digits.foldlM usizeDigit start = some (digitsFold start digits) := by
  induction digits generalizing start with
  | nil => rfl
  | cons c digits ih =>
    have first := all c List.mem_cons_self
    have grown : digitsFold start (c :: digits) = digitsFold (start * 10 + digitValue c) digits := rfl
    have bound := digitsFold_ge (start * 10 + digitValue c) digits
    have step : usizeDigit start c = some (start * 10 + digitValue c) := by
      unfold usizeDigit
      rw [first, if_neg (by decide), if_neg (by omega), if_neg (by omega)]
    rw [grown] at fits ⊢
    rw [List.foldlM_cons, step]
    exact ih (fun d member => all d (List.mem_cons_of_mem c member)) fits

theorem parseUsize_value {pad value tail : Bytes} {n : Nat} (blank : ∀ c ∈ pad, isBlank c = true)
    (spelled : digitsValue value = some n) (fits : n < 2 ^ 64) (after : ∀ c ∈ tail, isBlank c = true) :
    parseUsize (trimSpaces (pad ++ value ++ tail)) = if tail = [] then some n else none := by
  obtain ⟨filled, digits, total⟩ := digitsValue_eq_some.mp spelled
  obtain ⟨c, value, rfl⟩ := List.exists_cons_of_ne_nil filled
  have digit := digits c List.mem_cons_self
  have plain : isBlank c = false ∧ (ch '+' == c) = false :=
    forall_byte (P := fun c => isDigit c = true → isBlank c = false ∧ (ch '+' == c) = false) (by decide) c digit
  have trimmed : trimSpaces (pad ++ (c :: value) ++ tail) = (c :: value) ++ tail := by
    unfold trimSpaces
    rw [List.append_assoc, List.dropWhile_append_of_pos blank, List.cons_append, List.dropWhile_cons, plain.1]
    rfl
  have unsigned : stripPrefix (ascii "+") ((c :: value) ++ tail) = none := by
    have unlike : (ascii "+").isPrefixOf ((c :: value) ++ tail) = false := by
      change (ch '+' == c && _) = false
      rw [plain.2, Bool.false_and]
    unfold stripPrefix
    rw [unlike]
    rfl
  have bound : digitsFold 0 (c :: value) < 2 ^ 64 := by
    rw [total]
    exact fits
  have sum := foldlM_usizeDigit digits bound
  unfold parseUsize
  simp only [trimmed, unsigned, Option.getD_none]
  rw [if_neg (List.append_ne_nil_of_left_ne_nil (List.cons_ne_nil c value) tail), List.foldlM_append, sum, total]
  cases tail with
  | nil => rfl
  | cons b tail =>
    have other : isDigit b = false :=
      forall_byte (P := fun b => isBlank b = true → isDigit b = false) (by decide) b (after b List.mem_cons_self)
    have step : usizeDigit n b = none := by
      unfold usizeDigit
      rw [other]
      rfl
    rw [if_neg (List.cons_ne_nil b tail)]
    change (b :: tail).foldlM usizeDigit n = none
    rw [List.foldlM_cons, step]
    rfl

theorem encodeChunks_longer (chunks : List Chunk) (last : LastChunk) :
    (bodyOf chunks).length < (encodeChunks chunks last).length := by
  have each : (bodyOf chunks).length ≤ (chunks.flatMap Chunk.text).length := by
    induction chunks with
    | nil => exact Nat.le_refl 0
    | cons c chunks ih =>
      have more : c.data.length ≤ c.text.length := by
        unfold Chunk.text
        simp only [List.length_append]
        omega
      change (c.data ++ bodyOf chunks).length ≤ (c.text ++ chunks.flatMap Chunk.text).length
      rw [List.length_append, List.length_append]
      exact Nat.add_le_add more ih
  have ends : 2 ≤ last.text.length := by
    unfold LastChunk.text
    simp only [List.length_append]
    change 2 ≤ last.digits.length + last.ext.length + 2 + last.trailers.length
    omega
  unfold encodeChunks
  rw [List.length_append]
  omega

/-! ### Whole responses -/

theorem StatusLine.check {s : StatusLine} (well : s.WellFormed) : statusCheck s.text = .ok () := by
  have http : (ascii "HTTP/").isPrefixOf s.text = true :=
    List.isPrefixOf_iff_prefix.mpr (well.http.trans (List.prefix_append s.version _))
  have plain : ch ' ' ∉ s.version := fun member => (well.version _ member).1 rfl
  have small : ∀ c, isDigit c = true → c ≠ ch ' ' ∧ digitValue c ≤ 9 :=
    fun c => forall_byte (P := fun c => isDigit c = true → c ≠ ch ' ' ∧ digitValue c ≤ 9) (by decide) c
  have tens := small _ well.tens
  have units := small _ well.units
  have code : ch ' ' ∉ [ch '2', s.tens, s.units] := by
    simp only [List.mem_cons, List.not_mem_nil, or_false, not_or]
    exact ⟨by decide, tens.1.symm, units.1.symm⟩
  have split : splitOn (ch ' ') s.text = s.version :: [ch '2', s.tens, s.units] :: splitOn (ch ' ') s.reason := by
    unfold StatusLine.text
    rw [splitOn_append plain]
    exact congrArg (s.version :: ·) (splitOn_append code s.reason)
  have digits : [ch '2', s.tens, s.units].all isDigit = true := by
    simp only [List.all_cons, List.all_nil, well.tens, well.units, Bool.and_true]
    rfl
  have parsed : parseStatusCode s.text = .ok (200 + 10 * digitValue s.tens + digitValue s.units) := by
    have good : ¬ ([ch '2', s.tens, s.units].length ≠ 3 ∨ (!([ch '2', s.tens, s.units].all isDigit)) = true) := by
      intro bad
      rcases bad with long | other
      · exact long rfl
      · rw [digits] at other
        cases other
    unfold parseStatusCode
    simp only [split, if_neg good]
    apply congrArg Except.ok
    change ((0 * 10 + 2) * 10 + digitValue s.tens) * 10 + digitValue s.units = _
    omega
  unfold statusCheck
  simp only [http, parsed, Bool.not_true, Bool.false_eq_true, if_false]
  exact if_pos (by omega)

theorem StatusLine.free {s : StatusLine} (well : s.WellFormed) : ch '\r' ∉ s.text ∧ ch '\n' ∉ s.text := by
  have small : ∀ c, isDigit c = true → c ≠ ch '\r' ∧ c ≠ ch '\n' :=
    fun c => forall_byte (P := fun c => isDigit c = true → c ≠ ch '\r' ∧ c ≠ ch '\n') (by decide) c
  have each : ∀ c ∈ s.text, c ≠ ch '\r' ∧ c ≠ ch '\n' := by
    intro c member
    simp only [text, List.mem_append, List.mem_cons] at member
    rcases member with version | space | two | tens | units | space | reason
    · exact (well.version c version).2
    · rw [space]
      decide
    · rw [two]
      decide
    · rw [tens]
      exact small _ well.tens
    · rw [units]
      exact small _ well.units
    · rw [space]
      decide
    · exact well.reason c reason
  exact ⟨fun member => (each _ member).1 rfl, fun member => (each _ member).2 rfl⟩

namespace Response
variable {r : Response} (well : r.WellFormed)
include well

theorem parse (out : Bytes) :
    parseHttpBody r.text out =
      if r.fields = [] then none
      else some (((r.payload.field.map Field.line).foldl Framing.field ⟨false, none⟩).read r.payload.raw out) := by
  have lines : ∀ l ∈ r.fields.map Field.line, l ≠ [] ∧ ch '\r' ∉ l ∧ ch '\n' ∉ l := by
    intro l member
    obtain ⟨f, inside, rfl⟩ := List.mem_map.mp member
    exact Field.line_free (well.fields f inside)
  have head := parseHttpBody_head (StatusLine.check well.status) (StatusLine.free well.status) lines r.payload.raw out
  rw [List.flatMap_map] at head
  have others : ∀ f ∈ r.before ++ r.after, f.name ≠ ascii "Transfer-Encoding" ∧ f.name ≠ ascii "Content-Length" := by
    intro f member
    have other := well.others f member
    exact ⟨fun same => other.1 (congrArg (List.map lower) same), fun same => other.2 (congrArg (List.map lower) same)⟩
  have before : (r.before.map Field.line).foldl Framing.field ⟨false, none⟩ = ⟨false, none⟩ :=
    framing_other (fun f member => well.fields f (by simp [fields, member]))
      (fun f member => others f (List.mem_append_left r.after member)) ⟨false, none⟩
  have after : ∀ g, (r.after.map Field.line).foldl Framing.field g = g :=
    framing_other (fun f member => well.fields f (by simp [fields, member]))
      (fun f member => others f (List.mem_append_right r.before member))
  have framed : (r.fields.map Field.line).foldl Framing.field ⟨false, none⟩ =
      (r.payload.field.map Field.line).foldl Framing.field ⟨false, none⟩ := by
    rw [fields, List.map_append, List.map_append, List.foldl_append, List.foldl_append, before, after]
  simp only [framed, List.map_eq_nil_iff] at head
  exact head

theorem parse_eq_body (out : Bytes) : parseHttpBody r.text out = some (.ok (out ++ r.payload.body)) ↔ r.Read out := by
  rw [parse well]
  unfold Read
  by_cases bare : r.fields = []
  · rw [if_pos bare]
    exact ⟨fun no => (by cases no), fun read => absurd bare read.1⟩
  · rw [if_neg bare, Option.some.injEq]
    have formed := well.payload
    have fields := well.fields
    rcases whole : r.payload with ⟨f, chunks, last⟩ | ⟨f, body, extra⟩ | body
    · rw [whole] at formed
      obtain ⟨named, spelled, valid, ends⟩ := formed
      have inside : f.WellFormed := fields f (by simp [Response.fields, whole, Payload.field])
      have other : f.name ≠ ascii "Content-Length" := by
        intro same
        rw [Field.Names, same] at named
        exact absurd named (by decide)
      have framed := Field.framing inside ⟨false, none⟩
      simp only [Payload.field, Payload.raw, Payload.body, List.map_cons, List.map_nil, List.foldl_cons, List.foldl_nil, framed]
      by_cases same : f.name = ascii "Transfer-Encoding"
      · rw [if_pos same, if_pos (containsIgnoreCase_value spelled f.pad f.tail)]
        change decodeChunked (encodeChunks chunks last) out = _ ↔ _
        rw [decodeChunked_encode valid ends]
        by_cases within : chunks = [] ∨ out.length + (bodyOf chunks).length ≤ MAX_HTTP_BODY
        · rw [if_pos within]
          exact ⟨fun _ => ⟨bare, same, within⟩, fun _ => rfl⟩
        · rw [if_neg within]
          exact ⟨fun no => (by cases no), fun read => absurd read.2.2 within⟩
      · rw [if_neg same, if_neg other]
        change Except.ok (out ++ encodeChunks chunks last) = Except.ok (out ++ bodyOf chunks) ↔ _
        refine ⟨fun equal => ?_, fun read => absurd read.2.1 same⟩
        have size := congrArg List.length (List.append_cancel_left (Except.ok.inj equal))
        have longer := encodeChunks_longer chunks last
        omega
    · rw [whole] at formed
      obtain ⟨named, spelled, fits⟩ := formed
      have inside : f.WellFormed := fields f (by simp [Response.fields, whole, Payload.field])
      have other : f.name ≠ ascii "Transfer-Encoding" := by
        intro same
        rw [Field.Names, same] at named
        exact absurd named (by decide)
      have framed := Field.framing inside ⟨false, none⟩
      have length := parseUsize_value inside.pad spelled fits inside.tail
      have uncut : Except.ok (out ++ (body ++ extra)) = (Except.ok (out ++ body) : Result Bytes) ↔ extra = [] := by
        rw [Except.ok.injEq, List.append_right_inj, List.append_right_eq_self]
      simp only [Payload.field, Payload.raw, Payload.body, List.map_cons, List.map_nil, List.foldl_cons, List.foldl_nil, framed,
        if_neg other, length]
      by_cases same : f.name = ascii "Content-Length"
      · by_cases last : f.tail = []
        · rw [if_pos same, if_pos last]
          simp [Framing.read, bare, same, last]
        · rw [if_pos same, if_neg last]
          simp [Framing.read, bare, last]
      · rw [if_neg same]
        simp [Framing.read, bare, same]
    · simp [Payload.field, Payload.raw, Payload.body, Framing.read, bare]

end Response

/-! ### Heads without a line end -/

/-- A response whose head is a status of success and nothing else. -/
def Bare (resp : Bytes) : Prop :=
  ∃ status raw, resp = status ++ (crlf ++ crlf) ++ raw ∧ ch '\n' ∉ status ∧ statusCheck (trimCr status) = .ok ()

theorem findSubslice_shape {needle s : Bytes} {k : Nat} (found : findSubslice needle s = some k) :
    s = s.take k ++ needle ++ s.drop (k + needle.length) := by
  induction s generalizing k with
  | nil => cases found
  | cons c s ih =>
    rw [findSubslice] at found
    split_ifs at found with here
    · obtain ⟨raw, shape⟩ := List.isPrefixOf_iff_prefix.mp here
      obtain rfl := Option.some.inj found
      rw [← shape, Nat.zero_add, List.drop_left]
      rfl
    · obtain ⟨j, later, rfl⟩ := Option.map_eq_some_iff.mp found
      rw [List.take_succ_cons, Nat.add_right_comm, List.drop_succ_cons]
      exact congrArg (c :: ·) (ih later)

theorem findSubslice_single {p : Bytes} (free : ch '\n' ∉ p) (raw : Bytes) :
    findSubslice (crlf ++ crlf) (p ++ (crlf ++ crlf) ++ raw) = some p.length := by
  induction p with
  | nil => rfl
  | cons c p ih =>
    have rest := ih fun member => free (List.mem_cons_of_mem c member)
    have unlike : (crlf ++ crlf).isPrefixOf (c :: (p ++ (crlf ++ crlf) ++ raw)) = false := by
      cases p with
      | nil =>
        change (ch '\r' == c && (false && _)) = false
        rw [Bool.false_and, Bool.and_false]
      | cons d p =>
        have other : (ch '\n' == d) = false :=
          beq_eq_false_iff_ne.mpr fun same => free (same ▸ List.mem_cons_of_mem c List.mem_cons_self)
        change (ch '\r' == c && (ch '\n' == d && _)) = false
        rw [other, Bool.false_and, Bool.and_false]
    change findSubslice (crlf ++ crlf) (c :: (p ++ (crlf ++ crlf) ++ raw)) = _
    rw [findSubslice, unlike, rest]
    rfl

theorem parseHttpBody_eq_none {resp out : Bytes} : parseHttpBody resp out = none ↔ Bare resp := by
  constructor
  · intro outside
    unfold parseHttpBody at outside
    cases found : findSubslice (crlf ++ crlf) resp with
    | none => simp [found] at outside
    | some headEnd =>
      simp only [found] at outside
      cases checked : statusCheck (trimCr ((resp.take headEnd).take ((resp.take headEnd).idxOf (ch '\n')))) with
      | error e =>
        simp only [checked] at outside
        cases outside
      | ok _ =>
        simp only [checked] at outside
        split_ifs at outside with short
        have whole : (resp.take headEnd).idxOf (ch '\n') = (resp.take headEnd).length :=
          Nat.le_antisymm List.idxOf_le_length (Nat.le_of_lt_succ short)
        rw [whole, List.take_length] at checked
        refine ⟨resp.take headEnd, resp.drop (headEnd + 4), findSubslice_shape found, ?_, checked⟩
        intro member
        exact absurd whole (Nat.ne_of_lt (List.idxOf_lt_length_iff.mpr member))
  · intro bare
    obtain ⟨status, raw, rfl, free, checked⟩ := bare
    have ending := findSubslice_single free raw
    have before : (status ++ (crlf ++ crlf) ++ raw).take status.length = status := by rw [List.append_assoc, List.take_left]
    have whole : status.idxOf (ch '\n') = status.length := List.idxOf_eq_length free
    unfold parseHttpBody
    simp only [ending, before]
    rw [whole, List.take_length, checked]
    exact if_pos (Nat.lt_succ_self status.length)

/-- No index is out of range but where the head is a status alone; a well-formed response is read as it is when it meets `Read`; and
chunks come to the body they carry, within the limit. -/
theorem parseHttpBody_iff (resp out : Bytes) (r : Response) (chunks : List Chunk) (last : LastChunk) :
    (parseHttpBody resp out ≠ none ↔ ¬ Bare resp) ∧
    (r.WellFormed → (parseHttpBody r.text out = some (.ok (out ++ r.payload.body)) ↔ r.Read out)) ∧
    ((∀ c ∈ chunks, c.Valid) → last.Valid →
      (decodeChunked (encodeChunks chunks last) out = .ok (out ++ bodyOf chunks) ↔
        chunks = [] ∨ out.length + (bodyOf chunks).length ≤ MAX_HTTP_BODY)) := by
  refine ⟨not_congr parseHttpBody_eq_none, fun well => Response.parse_eq_body well out, ?_⟩
  · intro valid ends
    rw [decodeChunked_encode valid ends]
    split_ifs with within
    · exact ⟨fun _ => within, fun _ => rfl⟩
    · exact ⟨fun no => (by cases no), fun read => absurd read within⟩

/-! ### Samples -/

def okStatus : StatusLine := ⟨ascii "HTTP/1.1", ch '0', ch '0', ascii "OK"⟩

def serverField : Field := ⟨ascii "Server", ascii " ", ascii "x", []⟩

def smallLetters : Response :=
  ⟨okStatus, [serverField], .sized ⟨ascii "content-length", ascii " ", ascii "2", []⟩ (ascii "hi") (ascii "!!"), []⟩

def inChunks : Response :=
  ⟨okStatus, [], .chunked ⟨ascii "Transfer-Encoding", ascii " ", ascii "Chunked", []⟩
    [⟨ascii "2", ascii ";a=b", ascii "hi"⟩, ⟨ascii "01", [], ascii "!"⟩] ⟨ascii "0", [], crlf⟩, [serverField]⟩

set_option maxRecDepth 2000 in
theorem okStatus_wellFormed : okStatus.WellFormed where
  http := ⟨ascii "1.1", by decide⟩
  version := by decide
  tens := by decide
  units := by decide
  reason := by decide

set_option maxRecDepth 2000 in
theorem serverField_wellFormed : serverField.WellFormed := by
  constructor <;> decide

theorem serverField_other : ¬ serverField.Names "Transfer-Encoding" ∧ ¬ serverField.Names "Content-Length" := by
  have coding : (ascii "Server").map lower ≠ (ascii "Transfer-Encoding").map lower := by decide
  have length : (ascii "Server").map lower ≠ (ascii "Content-Length").map lower := by decide
  exact ⟨coding, length⟩

set_option maxRecDepth 2000 in
theorem smallLetters_wellFormed : smallLetters.WellFormed where
  status := okStatus_wellFormed
  fields := by
    have length : Field.WellFormed ⟨ascii "content-length", ascii " ", ascii "2", []⟩ := by
      constructor <;> decide
    exact List.forall_mem_cons.mpr ⟨serverField_wellFormed, List.forall_mem_singleton.mpr length⟩
  payload := by
    have named : (ascii "content-length").map lower = (ascii "Content-Length").map lower := by decide
    exact ⟨named, by decide, by decide⟩
  others := List.forall_mem_singleton.mpr serverField_other

set_option maxRecDepth 2000 in
theorem inChunks_wellFormed : inChunks.WellFormed where
  status := okStatus_wellFormed
  fields := by
    have coding : Field.WellFormed ⟨ascii "Transfer-Encoding", ascii " ", ascii "Chunked", []⟩ := by
      constructor <;> decide
    exact List.forall_mem_cons.mpr ⟨coding, List.forall_mem_singleton.mpr serverField_wellFormed⟩
  payload := by
    have first : Chunk.Valid ⟨ascii "2", ascii ";a=b", ascii "hi"⟩ := by
      constructor
      · constructor <;> decide
      · decide
    have second : Chunk.Valid ⟨ascii "01", [], ascii "!"⟩ := by
      constructor
      · constructor <;> decide
      · decide
    have ends : LastChunk.Valid ⟨ascii "0", [], crlf⟩ := by
      constructor <;> decide
    have spelled : (ascii "Chunked").map lower = ascii "chunked" := by decide
    exact ⟨rfl, spelled, List.forall_mem_cons.mpr ⟨first, List.forall_mem_singleton.mpr second⟩, ends⟩
  others := List.forall_mem_singleton.mpr serverField_other

/-- A response without fields is an index out of range; a length in small letters is not seen. -/
theorem parseHttpBody_misread :
    parseHttpBody (ascii "HTTP/1.1 200 OK\r\n\r\n") [] = none ∧
    smallLetters.WellFormed ∧ parseHttpBody smallLetters.text [] = some (.ok (ascii "hi!!")) := by
  refine ⟨by decide, smallLetters_wellFormed, by decide⟩

set_option maxRecDepth 2000 in
theorem parseHttpBody_samples :
    parseHttpBody inChunks.text [] = some (.ok (ascii "hi!")) ∧
    decodeChunked (encodeChunks [⟨ascii "2", ascii ";a=b", ascii "hi"⟩] ⟨ascii "0", [], crlf⟩) [] = .ok (ascii "hi") ∧
    parseHttpBody (ascii "HTTP/1.1 200 OK") [] ≠ none := by
  have first : Chunk.Valid ⟨ascii "2", ascii ";a=b", ascii "hi"⟩ := by
    constructor
    · constructor <;> decide
    · decide
  have ends : LastChunk.Valid ⟨ascii "0", [], crlf⟩ := by
    constructor <;> decide
  have headed : ¬ Bare (ascii "HTTP/1.1 200 OK") := by
    intro bare
    exact absurd (parseHttpBody_eq_none.mpr bare : parseHttpBody (ascii "HTTP/1.1 200 OK") [] = none) (by decide)
  refine ⟨?_, ?_, ?_⟩
  · exact ((parseHttpBody_iff [] [] inChunks [] ⟨[], [], []⟩).2.1 inChunks_wellFormed).mpr
      ⟨List.cons_ne_nil _ _, rfl, .inr (by decide)⟩
  · exact ((parseHttpBody_iff [] [] inChunks _ _).2.2 (List.forall_mem_singleton.mpr first) ends).mpr (.inr (by decide))
  · exact (parseHttpBody_iff _ [] inChunks [] ⟨[], [], []⟩).1.mpr headed

end TypeBit.Socks
