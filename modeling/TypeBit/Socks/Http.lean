import TypeBit.Link.Utf8
import TypeBit.Socks.Client

/-! Reading an HTTP response that came through the proxy (`socks.rs`): the head, its status and its fields, and a body that is
chunked, sized or all that is left. -/

namespace TypeBit.Socks
open Bencode Trackers Link Wire

def MAX_HTTP_BODY : Nat := 4 * 1024 * 1024

def crlf : Bytes := [ch '\r', ch '\n']

def findSubslice (needle : Bytes) : Bytes → Option Nat
  | [] => none
  | c :: tail => if needle.isPrefixOf (c :: tail) then some 0 else (findSubslice needle tail).map (· + 1)

def trimCr (line : Bytes) : Bytes := if line.getLast? = some (ch '\r') then line.dropLast else line

def isBlank (c : UInt8) : Bool := c == ch ' ' || c == ch '\t'

def trimSpaces (s : Bytes) : Bytes := s.dropWhile isBlank

def lower (c : UInt8) : UInt8 := if ch 'A' ≤ c ∧ c ≤ ch 'Z' then c + 32 else c

def containsIgnoreCase (hay needle : Bytes) : Bool := (findSubslice (needle.map lower) (hay.map lower)).isSome

def usizeDigit (v : Nat) (b : UInt8) : Option Nat :=
  if !isDigit b then none
  else if 2 ^ 64 ≤ v * 10 then none
  else if 2 ^ 64 ≤ v * 10 + digitValue b then none
  else some (v * 10 + digitValue b)

def parseUsize (s : Bytes) : Option Nat :=
  let s := (stripPrefix (ascii "+") s).getD s
  if s = [] then none else s.foldlM usizeDigit 0

def parseStatusCode (status : Bytes) : Result Nat :=
  match splitOn (ch ' ') status with
  | _ :: code :: _ =>
      if code.length ≠ 3 ∨ !code.all isDigit then .error .protocol
      else .ok (code.foldl (fun n b => n * 10 + digitValue b) 0)
  | _ => .error .protocol

def usizeFromHex (s : Bytes) : Option Nat :=
  let digits := if s.head? = some (ch '+') then s.drop 1 else s
  if digits = [] ∨ !digits.all isHex then none
  else if hexValue digits < 2 ^ 64 then some (hexValue digits) else none

def decodeLoop : Nat → Bytes → Bytes → Result Bytes
  | 0, _, _ => .error .protocol
  | n + 1, body, out =>
      let lineEnd := body.idxOf (ch '\n')
      if lineEnd = body.length then .error .protocol
      else
        let hex := (trimCr (body.take lineEnd)).takeWhile (· != ch ';')
        if !utf8Valid hex.length hex then .error .protocol
        else match usizeFromHex hex with
          | none => .error .protocol
          | some size =>
              let body := body.drop (lineEnd + 1)
              if size = 0 then .ok out
              else if body.length < size then .error .protocol
              else if MAX_HTTP_BODY < satAdd out.length size then .error .tooLarge
              else if (body.drop size).length < 2 then .error .protocol
              else decodeLoop n ((body.drop size).drop 2) (out ++ body.take size)

def decodeChunked (body out : Bytes) : Result Bytes := decodeLoop (body.length + 1) body out

/-- What the fields told so far: whether the body is chunked, and its length. -/
structure Framing where
  chunked : Bool
  contentLen : Option Nat

def Framing.field (f : Framing) (line : Bytes) : Framing :=
  match stripPrefix (ascii "Transfer-Encoding:") line with
  | some v => if containsIgnoreCase v (ascii "chunked") then { f with chunked := true } else f
  | none =>
      match stripPrefix (ascii "Content-Length:") line with
      | some v => { f with contentLen := parseUsize (trimSpaces v) }
      | none => f

def statusCheck (status : Bytes) : Result Unit :=
  if !(ascii "HTTP/").isPrefixOf status then .error .protocol
  else match parseStatusCode status with
    | .error e => .error e
    | .ok code => if 200 ≤ code ∧ code < 300 then .ok () else .error .tracker

def Framing.read (f : Framing) (body out : Bytes) : Result Bytes :=
  if f.chunked then decodeChunked body out
  else match f.contentLen with
    | some n => if body.length < n then .error .protocol else .ok (out ++ body.take n)
    | none => .ok (out ++ body)

def parseHttpBody (resp out : Bytes) : Option (Result Bytes) :=
  match findSubslice (crlf ++ crlf) resp with
  | none => some (.error .protocol)
  | some headEnd =>
      let head := resp.take headEnd
      let body := resp.drop (headEnd + 4)
      let lineEnd := head.idxOf (ch '\n')
      match statusCheck (trimCr (head.take lineEnd)) with
      | .error e => some (.error e)
      | .ok () =>
          if head.length < lineEnd + 1 then none
          else
            let lines := splitOn (ch '\n') (head.drop (lineEnd + 1))
            some ((lines.foldl (fun (f : Framing) line => f.field (trimCr line)) ⟨false, none⟩).read body out)

/-! ### Lines -/

@[simp] theorem trimCr_append (line : Bytes) : trimCr (line ++ [ch '\r']) = line := by simp [trimCr]

theorem trimCr_free {line : Bytes} (free : ch '\r' ∉ line) : trimCr line = line := by
  unfold trimCr
  rw [if_neg fun last => free (List.mem_of_getLast? last)]

theorem idxOf_append {p : Bytes} (free : ch '\n' ∉ p) (rest : Bytes) : (p ++ ch '\n' :: rest).idxOf (ch '\n') = p.length := by
  rw [List.idxOf_append_of_notMem free]
  simp

/-! ### Chunks -/

/-- A chunk as it is written: its size in hexadecimal digits, an extension, its data. -/
structure Chunk where
  digits : Bytes
  ext : Bytes
  data : Bytes

structure SizeLine (digits ext : Bytes) (size : Nat) : Prop where
  filled : digits ≠ []
  hex : ∀ c ∈ digits, isHex c = true
  value : hexValue digits = size
  fits : size < 2 ^ 64
  marked : ext = [] ∨ ext.head? = some (ch ';')
  line : ch '\n' ∉ ext

structure Chunk.Valid (c : Chunk) : Prop where
  size : SizeLine c.digits c.ext c.data.length
  filled : c.data ≠ []

def Chunk.text (c : Chunk) : Bytes := c.digits ++ c.ext ++ crlf ++ c.data ++ crlf

set_option maxRecDepth 20000 in
theorem isHex_small (c : UInt8) : isHex c = true → c < 0x80 ∧ c ≠ ch ';' ∧ c ≠ ch '\n' ∧ c ≠ ch '+' :=
  forall_byte (P := fun c => isHex c = true → c < 0x80 ∧ c ≠ ch ';' ∧ c ≠ ch '\n' ∧ c ≠ ch '+') (by decide) c

section Lines
variable {digits ext : Bytes} {size : Nat} (line : SizeLine digits ext size)
include line

theorem SizeLine.parse : usizeFromHex digits = some size := by
  have unsigned : digits.head? ≠ some (ch '+') := fun plus => (isHex_small _ (line.hex _ (List.mem_of_head? plus))).2.2.2 rfl
  have all : digits.all isHex = true := List.all_eq_true.mpr line.hex
  have good : ¬ (digits = [] ∨ (!digits.all isHex) = true) := by simp [line.filled, all]
  unfold usizeFromHex
  simp only [if_neg unsigned, if_neg good, line.value, if_pos line.fits]

theorem SizeLine.utf8 : utf8Valid digits.length digits = true :=
  utf8Valid_ascii fun c member => (isHex_small c (line.hex c member)).1

theorem SizeLine.hex_part : (digits ++ ext).takeWhile (· != ch ';') = digits := by
  have plain : ∀ c ∈ digits, (c != ch ';') = true := fun c member => bne_iff_ne.mpr (isHex_small c (line.hex c member)).2.1
  rw [List.takeWhile_append_of_pos plain]
  rcases line.marked with rfl | mark
  · exact List.append_nil _
  · obtain ⟨tail, rfl⟩ := List.head?_eq_some_iff.mp mark
    simp

theorem SizeLine.free : ch '\n' ∉ digits ++ ext ++ [ch '\r'] := by
  have plain : ch '\n' ∉ digits := fun member => (isHex_small _ (line.hex _ member)).2.2.1 rfl
  simp only [List.mem_append, List.mem_singleton, not_or]
  exact ⟨⟨plain, line.line⟩, by decide⟩

theorem SizeLine.step (n : Nat) (rest out : Bytes) :
    decodeLoop (n + 1) (digits ++ ext ++ crlf ++ rest) out =
      if size = 0 then .ok out
      else if rest.length < size then .error .protocol
      else if MAX_HTTP_BODY < satAdd out.length size then .error .tooLarge
      else if (rest.drop size).length < 2 then .error .protocol
      else decodeLoop n ((rest.drop size).drop 2) (out ++ rest.take size) := by
  have shape : digits ++ ext ++ crlf ++ rest = (digits ++ ext ++ [ch '\r']) ++ ch '\n' :: rest := by simp [crlf]
  have ending := idxOf_append line.free rest
  have inside : (digits ++ ext ++ [ch '\r']).length ≠ ((digits ++ ext ++ [ch '\r']) ++ ch '\n' :: rest).length := by
    simp only [List.length_append, List.length_cons]
    omega
  have after : ((digits ++ ext ++ [ch '\r']) ++ ch '\n' :: rest).drop ((digits ++ ext ++ [ch '\r']).length + 1) = rest := by
    rw [List.drop_length_add_append]
    rfl
  rw [shape, decodeLoop, ending]
  simp only [if_neg inside, List.take_left, trimCr_append, line.hex_part, line.utf8, line.parse, after, Bool.not_true,
    Bool.false_eq_true, if_false]

end Lines

/-- The text after the last chunk's data: a size of zero, an extension, and what may follow. -/
structure LastChunk where
  digits : Bytes
  ext : Bytes
  trailers : Bytes

def LastChunk.text (l : LastChunk) : Bytes := l.digits ++ l.ext ++ crlf ++ l.trailers

def LastChunk.Valid (l : LastChunk) : Prop := SizeLine l.digits l.ext 0

def encodeChunks (chunks : List Chunk) (last : LastChunk) : Bytes := chunks.flatMap Chunk.text ++ last.text

def bodyOf (chunks : List Chunk) : Bytes := chunks.flatMap Chunk.data

theorem decodeLoop_chunks {chunks : List Chunk} {last : LastChunk} (valid : ∀ c ∈ chunks, c.Valid) (ends : last.Valid) {n : Nat}
    (enough : chunks.length < n) (out : Bytes) :
    decodeLoop n (encodeChunks chunks last) out =
      if chunks = [] ∨ out.length + (bodyOf chunks).length ≤ MAX_HTTP_BODY then .ok (out ++ bodyOf chunks)
      else .error .tooLarge := by
  obtain ⟨n, rfl⟩ : ∃ m, n = m + 1 := ⟨n - 1, by omega⟩
  induction chunks generalizing n out with
  | nil =>
    have step := SizeLine.step ends n last.trailers out
    simpa [encodeChunks, LastChunk.text, bodyOf] using step
  | cons c tail ih =>
    have first := valid c List.mem_cons_self
    have rest := ih (fun d member => valid d (List.mem_cons_of_mem c member))
    have step := SizeLine.step first.size n (c.data ++ crlf ++ encodeChunks tail last) out
    have shape : encodeChunks (c :: tail) last = c.digits ++ c.ext ++ crlf ++ (c.data ++ crlf ++ encodeChunks tail last) := by
      simp [encodeChunks, Chunk.text]
    have body : bodyOf (c :: tail) = c.data ++ bodyOf tail := List.flatMap_cons
    have filled : c.data.length ≠ 0 := fun none => first.filled (List.length_eq_zero_iff.mp none)
    have long : ¬ (c.data ++ crlf ++ encodeChunks tail last).length < c.data.length := by
      simp only [List.length_append]
      omega
    have left : (c.data ++ crlf ++ encodeChunks tail last).drop c.data.length = crlf ++ encodeChunks tail last := by
      rw [List.append_assoc, List.drop_left]
    have taken : (c.data ++ crlf ++ encodeChunks tail last).take c.data.length = c.data := by
      rw [List.append_assoc, List.take_left]
    have more : ¬ (crlf ++ encodeChunks tail last).length < 2 := by
      rw [List.length_append]
      exact not_lt.mpr (Nat.le_add_right 2 _)
    have next : (crlf ++ encodeChunks tail last).drop 2 = encodeChunks tail last := rfl
    rw [shape, step, if_neg filled, if_neg long, left, if_neg more, next, taken, body, List.length_append]
    have big : MAX_HTTP_BODY < satAdd out.length c.data.length ↔ MAX_HTTP_BODY < out.length + c.data.length := by
      unfold satAdd MAX_HTTP_BODY
      omega
    by_cases much : MAX_HTTP_BODY < out.length + c.data.length
    · have none : ¬ (c :: tail = [] ∨ out.length + (c.data.length + (bodyOf tail).length) ≤ MAX_HTTP_BODY) := by
        simp only [List.cons_ne_nil, false_or]
        omega
      rw [if_pos (big.mpr much), if_neg none]
    · obtain ⟨k, rfl⟩ : ∃ k, n = k + 1 := ⟨n - 1, by rw [List.length_cons] at enough; omega⟩
      rw [if_neg fun more => much (big.mp more), rest _ k (by rw [List.length_cons] at enough; omega), List.length_append,
        List.append_assoc]
      have same : (tail = [] ∨ out.length + c.data.length + (bodyOf tail).length ≤ MAX_HTTP_BODY) ↔
          (c :: tail = [] ∨ out.length + (c.data.length + (bodyOf tail).length) ≤ MAX_HTTP_BODY) := by
        rw [Nat.add_assoc]
        constructor
        · intro either
          rcases either with rfl | within
          · exact .inr (by change out.length + (c.data.length + 0) ≤ _; omega)
          · exact .inr within
        · intro either
          rcases either with no | within
          · cases no
          · exact .inr within
      simp only [same]

theorem decodeChunked_encode {chunks : List Chunk} {last : LastChunk} (valid : ∀ c ∈ chunks, c.Valid) (ends : last.Valid)
    (out : Bytes) :
    decodeChunked (encodeChunks chunks last) out =
      if chunks = [] ∨ out.length + (bodyOf chunks).length ≤ MAX_HTTP_BODY then .ok (out ++ bodyOf chunks)
      else .error .tooLarge := by
  have few : chunks.length ≤ (encodeChunks chunks last).length := by
    unfold encodeChunks
    rw [List.length_append, List.length_flatMap]
    have each : chunks.length ≤ (chunks.map fun c => c.text.length).sum := by
      have filled : ∀ m ∈ chunks.map fun c => c.text.length, 1 ≤ m := by
        intro m member
        obtain ⟨c, -, rfl⟩ := List.mem_map.mp member
        unfold Chunk.text crlf
        simp only [List.length_append, List.length_cons]
        omega
      have bound := List.length_le_sum_of_one_le _ filled
      rwa [List.length_map] at bound
    omega
  exact decodeLoop_chunks valid ends (Nat.lt_succ_of_le few) out

end TypeBit.Socks
