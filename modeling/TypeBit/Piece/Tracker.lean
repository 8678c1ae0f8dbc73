import TypeBit.Bitfield
import TypeBit.Lib.OrdMap

/-! Per-torrent piece and block state (`PieceTracker` of `piece.rs`): verified pieces, pieces in
flight, and per piece the received and the requested blocks. -/

namespace TypeBit
open OrdMap Option

def blockCountFor (pieceLen : Nat) : Nat := divCeil pieceLen BLOCK_LEN % 2 ^ 16

theorem inside_of_lt_blockCountFor {len b : Nat} (below : b < blockCountFor len) : b * BLOCK_LEN < len := by
  unfold blockCountFor divCeil BLOCK_LEN at *
  omega

theorem lt_blockCountFor {len b : Nat} (small : len ≤ 65535 * BLOCK_LEN) (inside : b * BLOCK_LEN < len) :
    b < blockCountFor len := by
  unfold blockCountFor divCeil BLOCK_LEN at *
  omega

structure PieceTracker where
  pieceCount : Nat
  pieceLength : Nat
  /-- Verified-complete pieces. -/
  haveBits : Bitfield
  /-- Pieces with a block requested, or handed to the verifier. -/
  inFlight : Bitfield
  /-- Received blocks per partial piece. -/
  partialBlocks : OrdMap Nat Bitfield
  /-- Requested blocks per piece. -/
  requested : OrdMap Nat Bitfield
  blocksReceivedTotal : Nat
  deriving DecidableEq

namespace PieceTracker

def new (pieceCount pieceLength : Nat) : PieceTracker where
  pieceCount := pieceCount
  pieceLength := pieceLength
  haveBits := Bitfield.new pieceCount
  inFlight := Bitfield.new pieceCount
  partialBlocks := ∅
  requested := ∅
  blocksReceivedTotal := 0

variable (t : PieceTracker) (piece block totalBlocks : Nat)

def isHave : Bool := t.haveBits.get piece
def isInFlight : Bool := t.inFlight.get piece
def haveCount : Nat := t.haveBits.count

def setInFlight (on : Bool) : PieceTracker :=
  { t with inFlight := if on then t.inFlight.set piece else t.inFlight.clear piece }

def blockReceived : Bool := ((t.partialBlocks.get? piece).map (fun b => b.get block)).getD false
def blockRequested : Bool := ((t.requested.get? piece).map (fun b => b.get block)).getD false

def markBlockRequested : PieceTracker :=
  if piece ≥ t.pieceCount ∨ block ≥ totalBlocks then t
  else
    { t with
      requested := t.requested.insert piece (((t.requested.get? piece).getD (Bitfield.new totalBlocks)).set block)
      inFlight := t.inFlight.set piece }

def clearBlockRequested : PieceTracker :=
  if piece ≥ t.pieceCount ∨ block ≥ totalBlocks then t
  else match t.requested.get? piece with
    | none => t
    | some entry =>
        if (entry.clear block).count = 0 then
          { t with requested := t.requested.erase piece, inFlight := t.inFlight.clear piece }
        else { t with requested := t.requested.insert piece (entry.clear block) }

def markBlockReceived : PieceTracker :=
  if piece ≥ t.pieceCount ∨ block ≥ totalBlocks then t
  else
    let entry := (t.partialBlocks.get? piece).getD (Bitfield.new totalBlocks)
    if entry.get block then { t with partialBlocks := t.partialBlocks.insert piece entry }
    else
      { t with
        partialBlocks := t.partialBlocks.insert piece (entry.set block)
        blocksReceivedTotal := wadd t.blocksReceivedTotal 1 }

def markPieceHave : PieceTracker :=
  { t with
    haveBits := t.haveBits.set piece
    inFlight := t.inFlight.clear piece
    partialBlocks := t.partialBlocks.erase piece
    requested := t.requested.erase piece }

def resetPiece : PieceTracker :=
  { t with
    inFlight := t.inFlight.clear piece
    partialBlocks := t.partialBlocks.erase piece
    requested := t.requested.erase piece }

def setHaveFromBytes (bytes : Bytes) (count : Nat) : Result PieceTracker := do
  let b ← Bitfield.fromBytes bytes count
  .ok { t with haveBits := b }

/-! ### What each step leaves alone -/

def Parked : Prop := t.requested.get? piece = none ∧ t.inFlight.get piece = true

/-- Requests are released: nothing is verified, received, newly requested or newly in flight, and what is in flight
without a request stays there. -/
structure Released (t u : PieceTracker) : Prop where
  count : u.pieceCount = t.pieceCount
  haves : u.haveBits = t.haveBits
  received : u.partialBlocks = t.partialBlocks
  requests : ∀ p, t.requested.get? p = none → u.requested.get? p = none
  flights : ∀ p, t.inFlight.get p = false → u.inFlight.get p = false
  parked : ∀ p, t.Parked p → u.Parked p

theorem Released.refl : Released t t := ⟨rfl, rfl, rfl, fun _ h => h, fun _ h => h, fun _ h => h⟩

variable {t}

theorem Released.trans {u v : PieceTracker} (first : Released t u) (second : Released u v) : Released t v :=
  ⟨second.count.trans first.count, second.haves.trans first.haves, second.received.trans first.received,
    fun p free => second.requests p (first.requests p free), fun p free => second.flights p (first.flights p free),
    fun p parked => second.parked p (first.parked p parked)⟩

variable (t)

theorem released_clearBlockRequested : Released t (t.clearBlockRequested piece block totalBlocks) := by
  unfold clearBlockRequested
  split_ifs
  · exact Released.refl t
  · cases found : t.requested.get? piece with
    | none => exact Released.refl t
    | some entry =>
      simp only
      have other : ∀ p, t.requested.get? p = none → piece ≠ p := by
        intro p free same
        rw [← same, found] at free
        cases free
      split_ifs
      · refine ⟨rfl, rfl, rfl, ?_, ?_, ?_⟩
        · intro p free
          rw [get?_erase, free, ite_self]
        · intro p free
          rw [Bitfield.get_clear, free, Bool.false_and]
        · intro p parked
          refine ⟨?_, ?_⟩
          · rw [get?_erase, parked.1, ite_self]
          · rw [Bitfield.get_clear, parked.2, Bool.true_and]
            exact decide_eq_true (other p parked.1)
      · have kept : ∀ p, t.requested.get? p = none → (t.requested.insert piece (entry.clear block)).get? p = none := by
          intro p free
          rw [get?_insert_ne _ _ (other p free), free]
        exact ⟨rfl, rfl, rfl, kept, fun _ h => h, fun p parked => ⟨kept p parked.1, parked.2⟩⟩

@[simp] theorem haveBits_markBlockRequested :
    (t.markBlockRequested piece block totalBlocks).haveBits = t.haveBits := by
  unfold markBlockRequested
  split_ifs <;> rfl

@[simp] theorem pieceCount_markBlockRequested :
    (t.markBlockRequested piece block totalBlocks).pieceCount = t.pieceCount := by
  unfold markBlockRequested
  split_ifs <;> rfl

@[simp] theorem partialBlocks_markBlockRequested :
    (t.markBlockRequested piece block totalBlocks).partialBlocks = t.partialBlocks := by
  unfold markBlockRequested
  split_ifs <;> rfl

@[simp] theorem haveBits_markBlockReceived :
    (t.markBlockReceived piece block totalBlocks).haveBits = t.haveBits := by
  unfold markBlockReceived
  dsimp only
  split_ifs <;> rfl

@[simp] theorem pieceCount_markBlockReceived :
    (t.markBlockReceived piece block totalBlocks).pieceCount = t.pieceCount := by
  unfold markBlockReceived
  dsimp only
  split_ifs <;> rfl

@[simp] theorem requested_markBlockReceived :
    (t.markBlockReceived piece block totalBlocks).requested = t.requested := by
  unfold markBlockReceived
  dsimp only
  split_ifs <;> rfl

/-! ### The request flags -/

variable {t}

/-- The flags of every piece are counted, and as many as the piece has blocks. -/
def Flagged (t : PieceTracker) (size : Nat → Nat) : Prop :=
  ∀ i flags, t.requested.get? i = some flags → flags.Counted ∧ flags.len = size i

theorem flagged_clearBlockRequested {size : Nat → Nat} (flagged : Flagged t size) :
    Flagged (t.clearBlockRequested piece block totalBlocks) size := by
  unfold clearBlockRequested
  split
  · exact flagged
  · split
    · exact flagged
    · rename_i entry found
      obtain ⟨counted, sized⟩ := flagged piece entry found
      split
      · intro i flags present
        exact flagged i flags (get?_of_erase present)
      · intro i flags present
        rw [get?_insert] at present
        split_ifs at present with same
        · cases present
          exact same ▸ ⟨Bitfield.counted_clear counted block, (Bitfield.len_clear entry block).trans sized⟩
        · exact flagged i flags present

theorem blockRequested_clear_other {size : Nat → Nat} (flagged : Flagged t size) {i b : Nat}
    (other : ¬ (i = piece ∧ b = block)) :
    (t.clearBlockRequested piece block totalBlocks).blockRequested i b = t.blockRequested i b := by
  unfold clearBlockRequested
  split
  · rfl
  · split
    · rfl
    · rename_i entry found
      have kept : i = piece → (entry.clear block).get b = entry.get b := by
        intro same
        have apart : block ≠ b := fun equal => other ⟨same, equal.symm⟩
        simp [Bitfield.get_clear, apart]
      split
      · rename_i empty
        -- the last flag goes with its field: there was no other
        unfold blockRequested
        dsimp only
        rw [get?_erase]
        split_ifs with same
        · rw [← same, found, map_some, ← kept same.symm]
          exact (Bitfield.get_of_count_zero (Bitfield.counted_clear (flagged piece entry found).1 block) empty b).symm
        · rfl
      · unfold blockRequested
        dsimp only
        rw [get?_insert]
        split_ifs with same
        · rw [← same, found, map_some, map_some, kept same.symm]
        · rfl

def receivedFlags (t : PieceTracker) (piece totalBlocks : Nat) : Bitfield :=
  (t.partialBlocks.get? piece).getD (Bitfield.new totalBlocks)

theorem get_receivedFlags (b : Nat) : (t.receivedFlags piece totalBlocks).get b = t.blockReceived piece b := by
  unfold receivedFlags blockReceived
  cases t.partialBlocks.get? piece with
  | none => exact Bitfield.get_new totalBlocks b
  | some flags => rfl

theorem partialBlocks_mark (known : piece < t.pieceCount) (inside : block < totalBlocks) :
    (t.markBlockReceived piece block totalBlocks).partialBlocks =
      t.partialBlocks.insert piece ((t.receivedFlags piece totalBlocks).set block) := by
  unfold markBlockReceived
  rw [if_neg (by omega)]
  change (if (t.receivedFlags piece totalBlocks).get block = true then _ else _ : PieceTracker).partialBlocks = _
  split_ifs with set
  · rw [Bitfield.set_of_get set]
    rfl
  · rfl

theorem blockReceived_mark_other {i b : Nat} (other : ¬ (i = piece ∧ b = block)) :
    (t.markBlockReceived piece block totalBlocks).blockReceived i b = t.blockReceived i b := by
  by_cases outside : piece ≥ t.pieceCount ∨ block ≥ totalBlocks
  · rw [markBlockReceived, if_pos outside]
  · rw [blockReceived, partialBlocks_mark piece block totalBlocks (by omega) (by omega), get?_insert]
    split_ifs with same
    · subst same
      have apart : ¬ (block = b ∧ block < (t.receivedFlags piece totalBlocks).len) :=
        fun both => other ⟨rfl, both.1.symm⟩
      rw [map_some, getD_some, Bitfield.get_set, get_receivedFlags, ← Bool.decide_and, decide_eq_false apart,
        Bool.or_false]
    · rfl

theorem blockReceived_mark_mono {i b : Nat} (received : t.blockReceived i b = true) :
    (t.markBlockReceived piece block totalBlocks).blockReceived i b = true := by
  by_cases outside : piece ≥ t.pieceCount ∨ block ≥ totalBlocks
  · rw [markBlockReceived, if_pos outside]
    exact received
  · rw [blockReceived, partialBlocks_mark piece block totalBlocks (by omega) (by omega), get?_insert]
    split_ifs with same
    · rw [map_some, getD_some, Bitfield.get_set, get_receivedFlags, same, received, Bool.true_or]
    · exact received

theorem blockReceived_mark_self (known : piece < t.pieceCount) (inside : block < totalBlocks)
    (sized : ∀ flags, t.partialBlocks.get? piece = some flags → flags.len = totalBlocks) :
    (t.markBlockReceived piece block totalBlocks).blockReceived piece block = true := by
  have length : (t.receivedFlags piece totalBlocks).len = totalBlocks := by
    unfold receivedFlags
    cases found : t.partialBlocks.get? piece with
    | none => rfl
    | some flags => exact sized flags found
  rw [blockReceived, partialBlocks_mark piece block totalBlocks known inside, get?_insert_self]
  rw [map_some, getD_some, Bitfield.get_set, length]
  simp [inside]

theorem flagged_markBlockRequested {size : Nat → Nat} (flagged : Flagged t size) (sized : totalBlocks = size piece) :
    Flagged (t.markBlockRequested piece block totalBlocks) size := by
  unfold markBlockRequested
  split
  · exact flagged
  · intro i flags present
    rw [get?_insert] at present
    split_ifs at present with same
    · cases present
      rw [Bitfield.len_set, ← same]
      cases found : t.requested.get? piece with
      | none => exact ⟨Bitfield.counted_set (Bitfield.counted_new totalBlocks) block, sized⟩
      | some entry =>
        obtain ⟨counted, length⟩ := flagged piece entry found
        exact ⟨Bitfield.counted_set counted block, length⟩
    · exact flagged i flags present

theorem blockRequested_mark {size : Nat → Nat} (flagged : Flagged t size) (sized : totalBlocks = size piece)
    (known : piece < t.pieceCount) (inside : block < totalBlocks) (i b : Nat) :
    (t.markBlockRequested piece block totalBlocks).blockRequested i b =
      (t.blockRequested i b || (decide (i = piece) && decide (b = block))) := by
  unfold markBlockRequested
  rw [if_neg (by omega)]
  unfold blockRequested
  dsimp only
  rw [get?_insert]
  split_ifs with same
  · subst same
    have length : ((t.requested.get? piece).getD (Bitfield.new totalBlocks)).len = totalBlocks := by
      cases found : t.requested.get? piece with
      | none => rfl
      | some entry => exact ((flagged piece entry found).2).trans sized.symm
    rw [map_some, getD_some, Bitfield.get_set, length]
    cases found : t.requested.get? piece with
    | none => simp [Bitfield.get_new, inside, eq_comm]
    | some entry => simp [inside, eq_comm]
  · have apart : ¬ i = piece := fun equal => same equal.symm
    simp [apart]

/-! ### Requests and flights -/

/-- A piece has flags only while some are set, it is in flight then, and no block is requested that was received. -/
structure Tallied (t : PieceTracker) (size : Nat → Nat) : Prop where
  flagged : t.Flagged size
  length : t.inFlight.len = t.pieceCount
  raised : ∀ i flags, t.requested.get? i = some flags → i < t.pieceCount ∧ flags.count ≠ 0
  aloft : ∀ i flags, t.requested.get? i = some flags → t.isInFlight i = true
  lacking : ∀ i b, t.blockReceived i b = true → t.blockRequested i b = false
  parts : ∀ i flags, t.partialBlocks.get? i = some flags → flags.len = size i

section Tallied
variable {size : Nat → Nat}

theorem tallied_new (pieceCount pieceLength : Nat) : Tallied (new pieceCount pieceLength) size :=
  ⟨nofun, rfl, nofun, nofun, nofun, nofun⟩

theorem flags_of_requested {i b : Nat} (requested : t.blockRequested i b = true) :
    ∃ flags, t.requested.get? i = some flags ∧ flags.get b = true := by
  unfold blockRequested at requested
  cases found : t.requested.get? i with
  | none =>
    rw [found] at requested
    cases requested
  | some flags =>
    rw [found] at requested
    exact ⟨flags, rfl, requested⟩

theorem requested_of_none {i : Nat} (none : t.requested.get? i = none) (b : Nat) : t.blockRequested i b = false := by
  rw [blockRequested, none]
  rfl

theorem Tallied.requested (tallied : t.Tallied size) {i b : Nat} (requested : t.blockRequested i b = true) :
    i < t.pieceCount ∧ b < size i ∧ t.isInFlight i = true := by
  obtain ⟨flags, found, on⟩ := flags_of_requested requested
  refine ⟨(tallied.raised i flags found).1, ?_, tallied.aloft i flags found⟩
  rw [← (tallied.flagged i flags found).2]
  by_contra past
  rw [Bitfield.get_of_ge (Nat.le_of_not_lt past)] at on
  cases on

theorem Tallied.none_of_unrequested (tallied : t.Tallied size) {i : Nat}
    (unrequested : ∀ b, t.blockRequested i b = false) : t.requested.get? i = none := by
  cases found : t.requested.get? i with
  | none => rfl
  | some flags =>
    have clear : ∀ b, flags.get b = false := by
      intro b
      rw [← unrequested b, blockRequested, found]
      rfl
    have counted : flags.count = (List.range flags.len).countP flags.get := (tallied.flagged i flags found).1
    have zero : flags.count = 0 := by
      rw [counted, List.countP_eq_zero]
      intro b _
      rw [clear b]
      exact Bool.false_ne_true
    exact absurd zero (tallied.raised i flags found).2

theorem Tallied.blockRequested_clear (tallied : t.Tallied size) (piece block i b : Nat) :
    (t.clearBlockRequested piece block (size piece)).blockRequested i b =
      (t.blockRequested i b && !(decide (i = piece) && decide (b = block))) := by
  by_cases same : i = piece ∧ b = block
  · obtain ⟨rfl, rfl⟩ := same
    rw [decide_eq_true rfl, decide_eq_true rfl, Bool.true_and, Bool.not_true, Bool.and_false]
    unfold clearBlockRequested
    split
    · rename_i outside
      by_contra still
      obtain ⟨known, placed, -⟩ := tallied.requested (by simpa using still)
      omega
    · split
      · rename_i none
        exact requested_of_none none b
      · rename_i entry found
        unfold blockRequested
        split
        · dsimp only
          rw [get?_erase_self]
          rfl
        · dsimp only
          rw [get?_insert_self, map_some, getD_some, Bitfield.get_clear]
          simp
  · rw [blockRequested_clear_other piece block (size piece) tallied.flagged same]
    have apart : (decide (i = piece) && decide (b = block)) = false := by
      simpa using same
    rw [apart, Bool.not_false, Bool.and_true]

theorem Tallied.clear (tallied : t.Tallied size) (piece block : Nat) :
    (t.clearBlockRequested piece block (size piece)).Tallied size := by
  have flags := tallied.blockRequested_clear piece block
  have lacking : ∀ i b, t.blockReceived i b = true →
      (t.clearBlockRequested piece block (size piece)).blockRequested i b = false := by
    intro i b received
    rw [flags, tallied.lacking i b received, Bool.false_and]
  have flagged := flagged_clearBlockRequested piece block (size piece) tallied.flagged
  unfold clearBlockRequested at flagged lacking ⊢
  split at flagged
  · rename_i outside
    rw [if_pos outside]
    exact tallied
  · rename_i inside
    rw [if_neg inside] at lacking ⊢
    cases found : t.requested.get? piece with
    | none => exact tallied
    | some entry =>
      rw [found] at flagged lacking
      dsimp only at flagged lacking ⊢
      split_ifs at flagged lacking ⊢ with empty
      · refine ⟨flagged, (Bitfield.len_clear ..).trans tallied.length, ?_, ?_, lacking, tallied.parts⟩
        · intro i others present
          exact tallied.raised i others (get?_of_erase present)
        · intro i others present
          rw [get?_erase] at present
          split_ifs at present with apart
          have aloft : t.inFlight.get i = true := tallied.aloft i others present
          rw [isInFlight, Bitfield.get_clear, aloft, Bool.true_and]
          exact decide_eq_true apart
      · refine ⟨flagged, tallied.length, ?_, ?_, lacking, tallied.parts⟩
        · intro i others present
          rw [get?_insert] at present
          split_ifs at present with same
          · cases present
            exact ⟨same ▸ (tallied.raised piece entry found).1, empty⟩
          · exact tallied.raised i others present
        · intro i others present
          rw [get?_insert] at present
          split_ifs at present with same
          · subst same
            exact tallied.aloft piece entry found
          · exact tallied.aloft i others present

theorem Tallied.mark (tallied : t.Tallied size) {piece block : Nat} (missing : t.blockReceived piece block = false) :
    (t.markBlockRequested piece block (size piece)).Tallied size := by
  have flagged := flagged_markBlockRequested piece block (size piece) tallied.flagged rfl
  by_cases outside : piece ≥ t.pieceCount ∨ block ≥ size piece
  · rw [markBlockRequested, if_pos outside]
    exact tallied
  · obtain ⟨known, inside⟩ := not_or.mp outside
    have flags := blockRequested_mark piece block (size piece) tallied.flagged rfl (Nat.lt_of_not_le known)
      (Nat.lt_of_not_le inside)
    have lacking : ∀ i b, t.blockReceived i b = true →
        (t.markBlockRequested piece block (size piece)).blockRequested i b = false := by
      intro i b received
      rw [flags, tallied.lacking i b received, Bool.false_or]
      by_contra same
      obtain ⟨rfl, rfl⟩ : i = piece ∧ b = block := by simpa using same
      rw [missing] at received
      cases received
    have flights : ∀ i, t.isInFlight i = true → (t.inFlight.set piece).get i = true := by
      intro i aloft
      rw [Bitfield.get_set, show t.inFlight.get i = true from aloft, Bool.true_or]
    have here : (t.inFlight.set piece).get piece = true := by
      rw [Bitfield.get_set, tallied.length]
      simp [Nat.lt_of_not_le known]
    rw [markBlockRequested, if_neg outside] at flagged lacking ⊢
    refine ⟨flagged, (Bitfield.len_set ..).trans tallied.length, ?_, ?_, lacking, tallied.parts⟩
    · intro i others present
      rw [get?_insert] at present
      split_ifs at present with same
      · cases present
        subst same
        refine ⟨Nat.lt_of_not_le known, ?_⟩
        intro zero
        have off := Bitfield.get_of_count_zero (flagged piece _ (get?_insert_self ..)).1 zero block
        have on := flags piece block
        rw [markBlockRequested, if_neg outside] at on
        unfold blockRequested at on
        dsimp only at on
        rw [get?_insert_self, map_some, getD_some, off] at on
        simp at on
      · exact tallied.raised i others present
    · intro i others present
      rw [get?_insert] at present
      split_ifs at present with same
      · exact same ▸ here
      · exact flights i (tallied.aloft i others present)

theorem inFlight_markBlockReceived (t : PieceTracker) (piece block totalBlocks : Nat) :
    (t.markBlockReceived piece block totalBlocks).inFlight = t.inFlight := by
  unfold markBlockReceived
  dsimp only
  split_ifs <;> rfl

theorem Tallied.receive (tallied : t.Tallied size) {piece block : Nat} (free : t.blockRequested piece block = false) :
    (t.markBlockReceived piece block (size piece)).Tallied size := by
  have requested := requested_markBlockReceived t piece block (size piece)
  have flights := inFlight_markBlockReceived t piece block (size piece)
  refine ⟨?_, ?_, ?_, ?_, ?_, ?_⟩
  · intro i others present
    rw [requested] at present
    exact tallied.flagged i others present
  · rw [flights, pieceCount_markBlockReceived]
    exact tallied.length
  · intro i others present
    rw [requested] at present
    rw [pieceCount_markBlockReceived]
    exact tallied.raised i others present
  · intro i others present
    rw [requested] at present
    rw [isInFlight, flights]
    exact tallied.aloft i others present
  · intro i b received
    rw [blockRequested, requested]
    by_cases same : i = piece ∧ b = block
    · obtain ⟨rfl, rfl⟩ := same
      exact free
    · rw [blockReceived_mark_other piece block (size piece) same] at received
      exact tallied.lacking i b received
  · intro i others present
    by_cases outside : piece ≥ t.pieceCount ∨ block ≥ size piece
    · rw [markBlockReceived, if_pos outside] at present
      exact tallied.parts i others present
    · rw [partialBlocks_mark piece block (size piece) (by omega) (by omega), get?_insert] at present
      split_ifs at present with same
      · cases present
        subst same
        rw [Bitfield.len_set, receivedFlags]
        cases found : t.partialBlocks.get? piece with
        | none => rfl
        | some flags => exact tallied.parts piece flags found
      · exact tallied.parts i others present

theorem Tallied.ground {u : PieceTracker} (tallied : t.Tallied size) (piece : Nat) (count : u.pieceCount = t.pieceCount)
    (inFlight : u.inFlight = t.inFlight.clear piece) (received : u.partialBlocks = t.partialBlocks.erase piece)
    (requested : u.requested = t.requested.erase piece) : u.Tallied size := by
  have others : ∀ i flags, u.requested.get? i = some flags → piece ≠ i ∧ t.requested.get? i = some flags := by
    intro i flags present
    rw [requested, get?_erase] at present
    split_ifs at present with same
    exact ⟨same, present⟩
  refine ⟨?_, ?_, ?_, ?_, ?_, ?_⟩
  · exact fun i flags present => tallied.flagged i flags (others i flags present).2
  · rw [inFlight, count, Bitfield.len_clear]
    exact tallied.length
  · intro i flags present
    rw [count]
    exact tallied.raised i flags (others i flags present).2
  · intro i flags present
    obtain ⟨apart, before⟩ := others i flags present
    have aloft : t.inFlight.get i = true := tallied.aloft i flags before
    rw [isInFlight, inFlight, Bitfield.get_clear, aloft, Bool.true_and]
    exact decide_eq_true apart
  · intro i b arrived
    by_cases same : piece = i
    · subst same
      apply requested_of_none
      rw [requested, get?_erase_self]
    · rw [blockReceived, received, get?_erase_ne _ same] at arrived
      rw [blockRequested, requested, get?_erase_ne _ same]
      exact tallied.lacking i b arrived
  · intro i flags present
    rw [received] at present
    exact tallied.parts i flags (get?_of_erase present)

theorem Tallied.lift {u : PieceTracker} {flights : Bitfield} (tallied : t.Tallied size)
    (same : u = { t with inFlight := flights }) (length : flights.len = t.inFlight.len)
    (more : ∀ i, t.isInFlight i = true → flights.get i = true) : u.Tallied size := by
  subst same
  exact ⟨tallied.flagged, length.trans tallied.length, tallied.raised,
    fun i others present => more i (tallied.aloft i others present), tallied.lacking, tallied.parts⟩

end Tallied

variable (t)

/-- A piece nobody works on: not in flight, no block received, none requested. -/
structure Fresh (t : PieceTracker) (piece : Nat) : Prop where
  grounded : t.isInFlight piece = false
  received : ∀ block, t.blockReceived piece block = false
  requested : ∀ block, t.blockRequested piece block = false

theorem fresh_of_absent (grounded : t.inFlight.get piece = false) (received : t.partialBlocks.get? piece = none)
    (requested : t.requested.get? piece = none) : Fresh t piece := by
  refine ⟨grounded, fun _ => ?_, fun _ => ?_⟩
  · simp [blockReceived, received]
  · simp [blockRequested, requested]

theorem fresh_after_reset {u : PieceTracker} (later : Released (t.resetPiece piece) u) : Fresh u piece := by
  apply fresh_of_absent
  · apply later.flights
    simp [resetPiece, Bitfield.get_clear]
  · rw [later.received]
    exact get?_erase_self _ _
  · exact later.requests piece (get?_erase_self _ _)

end PieceTracker
end TypeBit
