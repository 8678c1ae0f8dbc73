import TypeBit.Trackers.Announce

/-! Texts that links are made of: hexadecimal digits, the parts between separators, and the parts put together again. -/

namespace TypeBit.Link
open Trackers

inductive Fault where
  | underflow
  | overflow
  deriving DecidableEq, Repr

theorem forall_byte {P : UInt8 → Prop} (all : ∀ n < 256, P (UInt8.ofNat n)) (b : UInt8) : P b := by
  have this := all b.toNat b.toNat_lt
  rwa [UInt8.ofNat_toNat] at this

def hexNibble (c : UInt8) : Option UInt8 :=
  if ch '0' ≤ c ∧ c ≤ ch '9' then some (c - ch '0')
  else if ch 'a' ≤ c ∧ c ≤ ch 'f' then some (c - ch 'a' + 10)
  else if ch 'A' ≤ c ∧ c ≤ ch 'F' then some (c - ch 'A' + 10)
  else none

def isHex (c : UInt8) : Bool := (hexNibble c).isSome

def hexValue (digits : Bytes) : Nat := digits.foldl (fun n c => n * 16 + ((hexNibble c).getD 0).toNat) 0

def fromStrRadix16 (s : Bytes) : Option Nat :=
  let digits := if s.head? = some (ch '+') then s.drop 1 else s
  if digits = [] ∨ !digits.all isHex then none
  else if hexValue digits < 2 ^ 16 then some (hexValue digits) else none

def stripPrefix (start s : Bytes) : Option Bytes := if start.isPrefixOf s then some (s.drop start.length) else none

def splitOnce (sep : UInt8) (s : Bytes) : Option (Bytes × Bytes) :=
  if s.contains sep then some (s.takeWhile (· != sep), (s.dropWhile (· != sep)).drop 1) else none

def splitDouble (sep : UInt8) : Bytes → Option (Bytes × Bytes)
  | [] => none
  | a :: tail =>
      if a = sep ∧ tail.head? = some sep then some ([], tail.drop 1)
      else (splitDouble sep tail).map (fun p => (a :: p.1, p.2))

def joined (sep : UInt8) : List Bytes → Bytes
  | [] => []
  | [p] => p
  | p :: q :: tail => p ++ sep :: joined sep (q :: tail)

theorem stripPrefix_eq_some {start s rest : Bytes} : stripPrefix start s = some rest ↔ s = start ++ rest := by
  unfold stripPrefix
  split_ifs with begins
  · obtain ⟨after, rfl⟩ := List.isPrefixOf_iff_prefix.mp begins
    rw [List.drop_left, Option.some.injEq, List.append_cancel_left_eq]
  · apply iff_of_false (fun none => by cases none)
    intro same
    exact begins (List.isPrefixOf_iff_prefix.mpr ⟨rest, same.symm⟩)

@[simp] theorem stripPrefix_append (start rest : Bytes) : stripPrefix start (start ++ rest) = some rest :=
  stripPrefix_eq_some.mpr rfl

section Parts
variable {sep : UInt8}

variable {p : Bytes}

theorem splitOnce_append (free : sep ∉ p) (tail : Bytes) : splitOnce sep (p ++ sep :: tail) = some (p, tail) := by
  have other : ∀ c ∈ p, (c != sep) = true := by
    intro c member
    exact bne_iff_ne.mpr fun same => free (same ▸ member)
  have first : (sep != sep) = false := bne_self_eq_false sep
  have found : (p ++ sep :: tail).contains sep = true := by simp
  rw [splitOnce, if_pos found, List.takeWhile_append_of_pos other, List.dropWhile_append_of_pos other,
    List.takeWhile_cons, List.dropWhile_cons, first]
  simp

@[simp] theorem joined_singleton (p : Bytes) : joined sep [p] = p := rfl

theorem joined_cons (p : Bytes) {tail : List Bytes} (more : tail ≠ []) :
    joined sep (p :: tail) = p ++ sep :: joined sep tail := by
  cases tail with
  | nil => exact absurd rfl more
  | cons q tail => rfl

theorem splitOn_ne_nil (s : Bytes) : splitOn sep s ≠ [] := by
  cases s with
  | nil => exact List.cons_ne_nil [] []
  | cons c tail =>
    rw [splitOn]
    split_ifs
    · exact List.cons_ne_nil _ _
    · split
      · exact List.cons_ne_nil _ _
      · exact List.cons_ne_nil _ _

theorem splitOn_cons_ne {c : UInt8} (other : c ≠ sep) (tail : Bytes) :
    ∃ part others, splitOn sep tail = part :: others ∧ splitOn sep (c :: tail) = (c :: part) :: others := by
  obtain ⟨part, others, parts⟩ := List.exists_cons_of_ne_nil (@splitOn_ne_nil sep tail)
  refine ⟨part, others, parts, ?_⟩
  rw [splitOn, if_neg other, parts]

theorem joined_splitOn (s : Bytes) : joined sep (splitOn sep s) = s := by
  induction s with
  | nil => rfl
  | cons c tail ih =>
    by_cases here : c = sep
    · rw [splitOn, if_pos here, joined_cons _ (splitOn_ne_nil tail), ih, here]
      rfl
    · obtain ⟨part, others, parts, split⟩ := splitOn_cons_ne here tail
      rw [parts] at ih
      rw [split]
      cases others with
      | nil => exact congrArg (c :: ·) ih
      | cons q others => exact congrArg (c :: ·) ih

theorem splitOn_append (free : sep ∉ p) (tail : Bytes) : splitOn sep (p ++ sep :: tail) = p :: splitOn sep tail := by
  induction p with
  | nil => rw [List.nil_append, splitOn, if_pos rfl]
  | cons c p ih =>
    obtain ⟨other, rest⟩ := List.ne_and_not_mem_of_not_mem_cons free
    rw [List.cons_append, splitOn, if_neg (Ne.symm other), ih rest]

theorem splitOn_free (free : sep ∉ p) : splitOn sep p = [p] := by
  induction p with
  | nil => rfl
  | cons c p ih =>
    obtain ⟨other, rest⟩ := List.ne_and_not_mem_of_not_mem_cons free
    rw [splitOn, if_neg (Ne.symm other), ih rest]

variable {parts : List Bytes}

theorem splitOn_flatMap (free : sep ∉ p) (all : ∀ q ∈ parts, sep ∉ q) :
    splitOn sep (p ++ parts.flatMap (sep :: ·)) = p :: parts := by
  induction parts generalizing p with
  | nil => rw [List.flatMap_nil, List.append_nil, splitOn_free free]
  | cons q parts ih =>
    have first := all q List.mem_cons_self
    have rest := ih first fun r member => all r (List.mem_cons_of_mem q member)
    rw [List.flatMap_cons, List.cons_append, splitOn_append free, rest]

theorem splitOn_joined (filled : parts ≠ []) (free : ∀ p ∈ parts, sep ∉ p) : splitOn sep (joined sep parts) = parts := by
  induction parts with
  | nil => exact absurd rfl filled
  | cons p tail ih =>
    have first := free p List.mem_cons_self
    by_cases more : tail = []
    · rw [more, joined_singleton, splitOn_free first]
    · rw [joined_cons p more, splitOn_append first, ih more fun q member => free q (List.mem_cons_of_mem p member)]

/-! ### Double separators -/

theorem eq_of_splitDouble {s l r : Bytes} (split : splitDouble sep s = some (l, r)) : s = l ++ sep :: sep :: r := by
  induction s generalizing l with
  | nil => cases split
  | cons a tail ih =>
    rw [splitDouble] at split
    split_ifs at split with double
    · cases split
      obtain ⟨rfl, head⟩ := double
      obtain ⟨rest, rfl⟩ := List.head?_eq_some_iff.mp head
      rfl
    · obtain ⟨⟨before, after⟩, found, same⟩ := Option.map_eq_some_iff.mp split
      cases same
      exact congrArg (a :: ·) (ih found)

theorem splitDouble_append (free : sep ∉ p) (tail : Bytes) :
    splitDouble sep (p ++ tail) = (splitDouble sep tail).map (fun q => (p ++ q.1, q.2)) := by
  induction p with
  | nil => exact Option.map_id'.symm
  | cons c p ih =>
    obtain ⟨other, rest⟩ := List.ne_and_not_mem_of_not_mem_cons free
    rw [List.cons_append, splitDouble, if_neg (fun both => other both.1.symm), ih rest, Option.map_map]
    rfl

theorem splitDouble_cons {tail : Bytes} (single : tail.head? ≠ some sep) :
    splitDouble sep (sep :: tail) = (splitDouble sep tail).map (fun q => (sep :: q.1, q.2)) := by
  rw [splitDouble, if_neg (fun both => single both.2)]

def Solid (sep : UInt8) (p : Bytes) : Prop := p ≠ [] ∧ sep ∉ p

theorem head?_joined (filled : parts ≠ []) (solid : ∀ p ∈ parts, Solid sep p) (tail : Bytes) :
    (joined sep parts ++ tail).head? ≠ some sep := by
  cases parts with
  | nil => exact absurd rfl filled
  | cons p others =>
    obtain ⟨nonempty, free⟩ := solid p List.mem_cons_self
    obtain ⟨c, rest, rfl⟩ := List.exists_cons_of_ne_nil nonempty
    have first : (joined sep ((c :: rest) :: others) ++ tail).head? = some c := by
      cases others with
      | nil => rfl
      | cons q others => rfl
    rw [first]
    intro same
    exact free (Option.some.inj same ▸ List.mem_cons_self)

theorem splitDouble_joined (solid : ∀ p ∈ parts, Solid sep p) : splitDouble sep (joined sep parts) = none ∧
      ∀ tail, splitDouble sep (joined sep parts ++ sep :: sep :: tail) = some (joined sep parts, tail) := by
  induction parts with
  | nil => exact ⟨rfl, fun tail => by rw [joined, List.nil_append, splitDouble, if_pos ⟨rfl, rfl⟩]; rfl⟩
  | cons p others ih =>
    have free := (solid p List.mem_cons_self).2
    have rest : ∀ q ∈ others, Solid sep q := fun q member => solid q (List.mem_cons_of_mem p member)
    obtain ⟨none, found⟩ := ih rest
    by_cases more : others = []
    · subst more
      refine ⟨?_, fun tail => ?_⟩
      · have whole := splitDouble_append free []
        rwa [List.append_nil] at whole
      · rw [joined_singleton, splitDouble_append free, splitDouble, if_pos ⟨rfl, rfl⟩]
        simp
    · have single := head?_joined more rest
      rw [joined_cons p more]
      refine ⟨?_, fun tail => ?_⟩
      · have after := single []
        rw [List.append_nil] at after
        rw [splitDouble_append free, splitDouble_cons after, none]
        rfl
      · rw [List.append_assoc, List.cons_append, splitDouble_append free, splitDouble_cons (single _), found]
        rfl

end Parts
end TypeBit.Link
