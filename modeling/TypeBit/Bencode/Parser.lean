import TypeBit.Bencode.Value

/-! The position-aware parser of `bencode.rs` and its raw skipper. A parser is an input and a
position; every reader returns the position after what it consumed. Nesting is bounded by a
budget of `MAX_DEPTH + 1 - depth` levels; the container loops carry an iteration bound that
`Grammar` shows is never reached. -/

namespace TypeBit.Bencode

def byteAt (input : Bytes) (pos : Nat) : Result UInt8 :=
  match input[pos]? with
  | some b => .ok b
  | none => .error .bencode

def isDigit (c : UInt8) : Bool := decide (ch '0' ≤ c) && decide (c ≤ ch '9')

def digitValue (c : UInt8) : Nat := c.toNat - 48

def digitsValue (s : Bytes) : Option Nat :=
  if s.isEmpty || !s.all isDigit then none
  else some (s.foldl (fun n c => n * 10 + digitValue c) 0)

def parseI64 (s : Bytes) : Option Int :=
  let signed : Option Int := match s with
    | [] => none
    | c :: rest =>
        if c = ch '-' then (digitsValue rest).map (fun n : Nat => -(n : Int))
        else if c = ch '+' then (digitsValue rest).map (fun n : Nat => (n : Int))
        else (digitsValue s).map (fun n : Nat => (n : Int))
  signed.filter (fun i => decide (-2 ^ 63 ≤ i) && decide (i < 2 ^ 63))

def stripMinus (s : Bytes) : Bytes :=
  match s with
  | c :: rest => if c = ch '-' then rest else s
  | [] => []

def parseBencodedInt (s : Bytes) : Result Int :=
  if s.isEmpty then .error .bencode
  else
    let body := stripMinus s
    if body.length > 1 ∧ body.head? = some (ch '0') then .error .bencode
    else if body = [ch '0'] ∧ s.head? = some (ch '-') then .error .bencode
    else match parseI64 s with
      | some i => .ok i
      | none => .error .bencode

namespace Parser

def intEnd (input : Bytes) (start : Nat) : Nat → Nat → Result Nat
  | 0, _ => .error .bencode
  | n + 1, pos => do
      let c ← byteAt input pos
      if c = ch 'e' then .ok pos
      else if pos + 1 - start > 24 then .error .bencode
      else intEnd input start n (pos + 1)

def int (input : Bytes) (pos : Nat) : Result (BVal × Nat) := do
  let start := pos + 1
  let stop ← intEnd input start 26 start
  let i ← parseBencodedInt ((input.drop start).take (stop - start))
  .ok (.int i, stop + 1)

def stringLenLoop (input : Bytes) (start : Nat) : Nat → Nat → Nat → Result (Nat × Nat)
  | 0, _, _ => .error .bencode
  | n + 1, pos, len => do
      let c ← byteAt input pos
      if isDigit c then
        let len := len * 10 + digitValue c
        if len > MAX_STR_LEN then .error .tooLarge
        else if pos + 1 - start > 10 then .error .bencode
        else stringLenLoop input start n (pos + 1) len
      else if c = ch ':' then
        if pos = start then .error .bencode else .ok (len, pos + 1)
      else .error .bencode

def stringLen (input : Bytes) (pos : Nat) : Result (Nat × Nat) := stringLenLoop input pos 12 pos 0

def string (input : Bytes) (pos : Nat) : Result (Bytes × Nat) := do
  let (len, start) ← stringLen input pos
  if len > MAX_STR_LEN then .error .tooLarge
  else if start + len > input.length then .error .bencode
  else .ok ((input.drop start).take len, start + len)

def listLoop (input : Bytes) (value : Nat → Result (BVal × Nat)) :
    Nat → Nat → List BVal → Result (BVal × Nat)
  | 0, _, _ => .error .bencode
  | n + 1, pos, out => do
      let c ← byteAt input pos
      if c = ch 'e' then .ok (.list out, pos + 1)
      else if out.length ≥ MAX_ITEMS then .error .full
      else
        let (v, next) ← value pos
        listLoop input value n next (out ++ [v])

def dictLoop (input : Bytes) (value : Nat → Result (BVal × Nat)) :
    Nat → Nat → List (Bytes × BVal) → Result (BVal × Nat)
  | 0, _, _ => .error .bencode
  | n + 1, pos, out => do
      let c ← byteAt input pos
      if c = ch 'e' then .ok (.dict out, pos + 1)
      else if out.length ≥ MAX_ITEMS then .error .full
      else
        let (key, mid) ← string input pos
        let (v, next) ← value mid
        dictLoop input value n next (OrdMap.Raw.insert key v out)

def valueWithin (input : Bytes) : Nat → Nat → Result (BVal × Nat)
  | 0, _ => .error .depth
  | budget + 1, pos => do
      let c ← byteAt input pos
      if c = ch 'i' then int input pos
      else if c = ch 'l' then listLoop input (valueWithin input budget) (input.length + 1) (pos + 1) []
      else if c = ch 'd' then dictLoop input (valueWithin input budget) (input.length + 1) (pos + 1) []
      else if isDigit c then
        let (b, next) ← string input pos
        .ok (.bytes b, next)
      else .error .bencode

def value (input : Bytes) (depth pos : Nat) : Result (BVal × Nat) :=
  valueWithin input (MAX_DEPTH + 1 - depth) pos

def skipIntLoop (input : Bytes) : Nat → Nat → Bool → Result Nat
  | 0, _, _ => .error .bencode
  | n + 1, pos, sawDigit => do
      let c ← byteAt input pos
      if c = ch 'e' then (if sawDigit then .ok (pos + 1) else .error .bencode)
      else if c = ch '-' then skipIntLoop input n (pos + 1) sawDigit
      else if isDigit c then skipIntLoop input n (pos + 1) true
      else .error .bencode

def skipString (input : Bytes) (pos : Nat) : Result Nat := do
  let (len, start) ← stringLen input pos
  if start + len > input.length then .error .bencode else .ok (start + len)

def skipListLoop (input : Bytes) (skip : Nat → Result Nat) : Nat → Nat → Result Nat
  | 0, _ => .error .bencode
  | n + 1, pos => do
      let c ← byteAt input pos
      if c = ch 'e' then .ok (pos + 1)
      else
        let next ← skip pos
        skipListLoop input skip n next

def skipDictLoop (input : Bytes) (skip : Nat → Result Nat) : Nat → Nat → Nat → Result Nat
  | 0, _, _ => .error .bencode
  | n + 1, pos, items => do
      let c ← byteAt input pos
      if c = ch 'e' then .ok (pos + 1)
      else if ¬ isDigit c then .error .bencode
      else
        let mid ← skipString input pos
        let next ← skip mid
        if items + 1 > MAX_ITEMS then .error .full
        else skipDictLoop input skip n next (items + 1)

def skipWithin (input : Bytes) : Nat → Nat → Result Nat
  | 0, _ => .error .depth
  | budget + 1, pos => do
      let c ← byteAt input pos
      if c = ch 'i' then skipIntLoop input (input.length + 1) (pos + 1) false
      else if c = ch 'l' then skipListLoop input (skipWithin input budget) (input.length + 1) (pos + 1)
      else if c = ch 'd' then skipDictLoop input (skipWithin input budget) (input.length + 1) (pos + 1) 0
      else if isDigit c then skipString input pos
      else .error .bencode

def skipValue (input : Bytes) (depth pos : Nat) : Result Nat :=
  skipWithin input (MAX_DEPTH + 1 - depth) pos

end Parser

def BVal.parse (input : Bytes) : Result BVal := do
  let (v, pos) ← Parser.value input 0 0
  if pos ≠ input.length then .error .bencode else .ok v

end TypeBit.Bencode
