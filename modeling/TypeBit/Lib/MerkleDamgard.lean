import Mathlib.Algebra.Order.Ring.Int
import Mathlib.Data.List.Basic
import Mathlib.Tactic.Common

/-! Hash functions that take a message in block by block: the whole blocks of a message and the rest of it, a state
that absorbs the blocks, what a hasher holds between two pieces of the message, and the padding to whole blocks. -/

namespace MerkleDamgard
variable {β S : Type*}

/-- The first `k` blocks of a message. -/
def blocks (size : Nat) : Nat → List β → List (List β)
  | 0, _ => []
  | k + 1, data => data.take size :: blocks size k (data.drop size)

def whole (size : Nat) (data : List β) : List (List β) := blocks size (data.length / size) data

/-- What follows the whole blocks. -/
def rest (size : Nat) (data : List β) : List β := data.drop (data.length / size * size)

/-- The state after the whole blocks of a message. -/
def absorb (compress : S → List β → S) (size : Nat) (s : S) (data : List β) : S :=
  (whole size data).foldl compress s

theorem length_rest (size : Nat) (data : List β) : (rest size data).length = data.length % size := by
  have split := Nat.div_add_mod' data.length size
  rw [rest, List.length_drop]
  omega

variable {size : Nat}

theorem rest_short {data : List β} (short : data.length < size) : rest size data = data := by
  rw [rest, Nat.div_eq_of_lt short, Nat.zero_mul, List.drop_zero]

variable {compress : S → List β → S} {s : S}

theorem absorb_short {data : List β} (short : data.length < size) : absorb compress size s data = s := by
  rw [absorb, whole, Nat.div_eq_of_lt short]
  rfl

theorem absorb_nil (positive : 0 < size) : absorb compress size s [] = s := absorb_short positive

theorem rest_nil (positive : 0 < size) : rest size ([] : List β) = [] := rest_short positive

section block
variable {compress : S → List β → S} {size : Nat} {s : S} {block data : List β}

theorem whole_block (positive : 0 < size) (full : block.length = size) :
    whole size (block ++ data) = block :: whole size data := by
  have count : (block ++ data).length / size = data.length / size + 1 := by
    rw [List.length_append, full, Nat.add_comm, Nat.add_div_right _ positive]
  rw [whole, count, blocks, List.take_left' full, List.drop_left' full]
  rfl

theorem absorb_block (positive : 0 < size) (full : block.length = size) :
    absorb compress size s (block ++ data) = absorb compress size (compress s block) data := by
  rw [absorb, whole_block positive full]
  rfl

theorem rest_block (positive : 0 < size) (full : block.length = size) :
    rest size (block ++ data) = rest size data := by
  have count : (block ++ data).length / size * size = size + data.length / size * size := by
    rw [List.length_append, full, Nat.add_div_left _ positive, Nat.succ_mul, Nat.add_comm]
  rw [rest, count, ← List.drop_drop, List.drop_left' full]
  rfl

theorem absorb_one (positive : 0 < size) (full : block.length = size) :
    absorb compress size s block = compress s block := by
  have one : absorb compress size s (block ++ []) = absorb compress size (compress s block) [] :=
    absorb_block positive full
  rwa [List.append_nil, absorb_nil positive] at one

end block

theorem block_induction (positive : 0 < size) {P : List β → Prop} (short : ∀ data, data.length < size → P data)
    (block : ∀ b data, b.length = size → P data → P (b ++ data)) (data : List β) : P data := by
  induction n : data.length using Nat.strong_induction_on generalizing data with
  | _ n ih =>
    by_cases enough : size ≤ data.length
    · have step := block (data.take size) (data.drop size) (by rw [List.length_take]; omega)
      rw [List.take_append_drop] at step
      exact step (ih _ (by rw [List.length_drop]; omega) _ rfl)
    · exact short data (by omega)

section append
variable {compress : S → List β → S} {size : Nat}

/-- The rest of the first part is taken in with the second part. -/
theorem absorb_append (positive : 0 < size) (s : S) (a b : List β) :
    absorb compress size s (a ++ b) = absorb compress size (absorb compress size s a) (rest size a ++ b) := by
  induction a using block_induction positive generalizing s with
  | short a short => rw [absorb_short short, rest_short short]
  | block front a full ih =>
    rw [List.append_assoc, absorb_block positive full, absorb_block positive full, rest_block positive full]
    exact ih _

theorem rest_append (positive : 0 < size) (a b : List β) : rest size (a ++ b) = rest size (rest size a ++ b) := by
  induction a using block_induction positive with
  | short a short => rw [rest_short short]
  | block front a full ih => rw [List.append_assoc, rest_block positive full, rest_block positive full, ih]

end append

/-! ### Hashers -/

/-- A state and the elements that wait for a full block, of a hasher that has been fed `data`. -/
structure Fed (compress : S → List β → S) (size : Nat) (iv : S) (data : List β) (s : S) (waiting : List β) : Prop where
  state : s = absorb compress size iv data
  waits : waiting = rest size data

namespace Fed
variable {compress : S → List β → S} {size : Nat} {iv : S} {data waiting : List β} {s : S}

theorem fresh (positive : 0 < size) : Fed compress size iv [] iv [] :=
  ⟨(absorb_nil positive).symm, (rest_nil positive).symm⟩

/-- Further data is taken in behind the elements that wait. -/
theorem feed (positive : 0 < size) (fed : Fed compress size iv data s waiting) (more : List β) :
    Fed compress size iv (data ++ more) (absorb compress size s (waiting ++ more))
      (rest size (waiting ++ more)) := by
  obtain ⟨rfl, rfl⟩ := fed
  exact ⟨(absorb_append positive iv data more).symm, (rest_append positive data more).symm⟩

end Fed

/-! ### Padding -/

/-- How many zeros follow the marker, so that `n` elements, the marker, the zeros and the length of `tail` elements
make up whole blocks. -/
def zeros (size tail n : Nat) : Nat := (2 * size - (tail + 1) - n % size) % size

/-- The marker, the zeros and the length. -/
def padding (size : Nat) (marker zero : β) (n : Nat) (length : List β) : List β :=
  marker :: List.replicate (zeros size length.length n) zero ++ length

theorem padding_congr {size n n' : Nat} (same : n % size = n' % size) (marker zero : β) (length : List β) :
    padding size marker zero n length = padding size marker zero n' length := by
  rw [padding, padding, zeros, zeros, same]

theorem zeros_room (size tail n : Nat) (room : n % size + 1 + tail ≤ size) :
    n % size + 1 + zeros size tail n + tail = size := by
  have around : 2 * size - (tail + 1) - n % size = size - (tail + 1) - n % size + size := by omega
  have small : size - (tail + 1) - n % size < size := by omega
  rw [zeros, around, Nat.add_mod_right, Nat.mod_eq_of_lt small]
  omega

theorem zeros_overflow (size tail n : Nat) (positive : 0 < size) (fits : tail < size)
    (full : size < n % size + 1 + tail) : n % size + 1 + zeros size tail n + tail = 2 * size := by
  have waiting := Nat.mod_lt n positive
  have small : 2 * size - (tail + 1) - n % size < size := by omega
  rw [zeros, Nat.mod_eq_of_lt small]
  omega

/-- The state after a message and its padding. -/
def hash (compress : S → List β → S) (size : Nat) (iv : S) (marker zero : β) (length : Nat → List β)
    (data : List β) : S :=
  absorb compress size iv (data ++ padding size marker zero data.length (length data.length))

theorem Fed.hash_eq {iv : S} {data waiting : List β}
    (positive : 0 < size) (fed : Fed compress size iv data s waiting) (marker zero : β) (length : Nat → List β) :
    absorb compress size s (waiting ++ padding size marker zero waiting.length (length data.length)) =
      hash compress size iv marker zero length data := by
  have same : waiting.length % size = data.length % size := by rw [fed.waits, length_rest, Nat.mod_mod]
  rw [padding_congr same, (fed.feed positive _).state]
  rfl

end MerkleDamgard
