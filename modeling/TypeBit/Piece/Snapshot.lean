import Mathlib.Data.List.TakeWhile
import TypeBit.Piece.Packed
import TypeBit.Piece.Tracker

/-! A tracker saved and restored (`snapshot` and `restore` of `piece.rs`). The received flags of a piece have a bit for
each of its blocks; they are read back with a bit for each block of a full piece. -/

namespace TypeBit.PieceTracker
open OrdMap

/-- Number of blocks in a piece: the nominal piece length stands for every piece, the last one included. -/
def blockCount (t : PieceTracker) (piece : Nat) : Nat :=
  if piece ≥ t.pieceCount then 0 else blockCountFor t.pieceLength

def downloadedBytes (t : PieceTracker) : Nat := wmul t.blocksReceivedTotal BLOCK_LEN

def snapshot (t : PieceTracker) : Bytes × List (Nat × Bytes) :=
  (t.haveBits.toBytes, t.partialBlocks.entries.map (fun e => (e.1, e.2.toBytes)))

/-- Read the partial pieces one by one. The first that does not load ends it; the ones before it stay. -/
def restoreParts (t : PieceTracker) : List (Nat × Bytes) → OrdMap Nat Bitfield → Result Unit × OrdMap Nat Bitfield
  | [], parts => (.ok (), parts)
  | (p, bytes) :: tail, parts =>
      if p ≥ t.pieceCount then restoreParts t tail parts
      else match Bitfield.fromBytes bytes (t.blockCount p) with
        | .error e => (.error e, parts)
        | .ok b => restoreParts t tail (parts.insert p b)

def restore (t : PieceTracker) (haveBytes : Bytes) (entries : List (Nat × Bytes)) : Result Unit × PieceTracker :=
  match Bitfield.fromBytes haveBytes t.pieceCount with
  | .error e => (.error e, t)
  | .ok b =>
      match t.restoreParts entries ∅ with
      | (.error e, parts) => (.error e, { t with haveBits := b, partialBlocks := parts })
      | (.ok (), parts) =>
          (.ok (), { t with
            haveBits := b
            partialBlocks := parts
            blocksReceivedTotal := wmul (parts.total (fun _ b => b.count) % 2 ^ 64) BLOCK_LEN })

/-! ### The purpose -/

def partialBytes (t : PieceTracker) : Nat := t.partialBlocks.total (fun _ b => b.count) * BLOCK_LEN

/-- A new tracker of the same shape takes over the verified pieces and the received blocks. -/
def Reproduces (t : PieceTracker) : Prop :=
  ∃ u, (new t.pieceCount t.pieceLength).restore t.snapshot.1 t.snapshot.2 = (.ok (), u) ∧
    u.haveBits = t.haveBits ∧ u.partialBlocks = t.partialBlocks

/-- It also counts the bytes of those blocks as downloaded. -/
def RoundTrips (t : PieceTracker) : Prop :=
  ∃ u, (new t.pieceCount t.pieceLength).restore t.snapshot.1 t.snapshot.2 = (.ok (), u) ∧
    u.haveBits = t.haveBits ∧ u.partialBlocks = t.partialBlocks ∧ u.downloadedBytes = t.partialBytes

/-- An entry that is skipped, or has as many bits as a full piece has blocks. -/
def loads (t : PieceTracker) (e : Nat × Bytes) : Bool :=
  decide (e.1 ≥ t.pieceCount) || (Bitfield.fromBytes e.2 (t.blockCount e.1)).isOk

def lastPart (t : PieceTracker) : List (Nat × Bytes) → Nat → Option Bitfield
  | [], _ => none
  | e :: tail, p =>
      (lastPart t tail p).or
        (if e.1 = p ∧ p < t.pieceCount then (Bitfield.fromBytes e.2 (t.blockCount p)).toOption else none)

section Restore
variable {t : PieceTracker}

theorem restoreParts_spec (entries : List (Nat × Bytes)) (parts : OrdMap Nat Bitfield) :
    ((t.restoreParts entries parts).1.isOk = entries.all t.loads) ∧
      ∀ p, (t.restoreParts entries parts).2.get? p = (t.lastPart (entries.takeWhile t.loads) p).or (parts.get? p) := by
  induction entries generalizing parts with
  | nil => exact ⟨rfl, fun p => rfl⟩
  | cons e tail ih =>
    rw [restoreParts]
    by_cases unknown : e.1 ≥ t.pieceCount
    · have skipped : t.loads e = true := by simp [loads, unknown]
      obtain ⟨outcome, taken⟩ := ih parts
      rw [if_pos unknown, List.all_cons, List.takeWhile_cons_of_pos skipped, skipped, Bool.true_and]
      refine ⟨outcome, fun p => ?_⟩
      have other : ¬ (e.1 = p ∧ p < t.pieceCount) := by omega
      rw [taken, lastPart, if_neg other, Option.or_none]
    · rw [if_neg unknown]
      cases read : Bitfield.fromBytes e.2 (t.blockCount e.1) with
      | error bad =>
        have refused : t.loads e = false := by simp [loads, unknown, read, Except.isOk, Except.toBool]
        rw [List.all_cons, List.takeWhile_cons_of_neg (by rw [refused]; exact Bool.false_ne_true), refused]
        exact ⟨rfl, fun p => rfl⟩
      | ok b =>
        have loaded : t.loads e = true := by simp [loads, read, Except.isOk, Except.toBool]
        obtain ⟨outcome, taken⟩ := ih (parts.insert e.1 b)
        rw [List.all_cons, List.takeWhile_cons_of_pos loaded, loaded, Bool.true_and]
        refine ⟨outcome, fun p => ?_⟩
        rw [taken, lastPart, Option.or_assoc, get?_insert]
        congr 1
        by_cases same : e.1 = p
        · subst same
          rw [if_pos rfl, if_pos ⟨rfl, Nat.lt_of_not_le unknown⟩, read]
          rfl
        · rw [if_neg same, if_neg (fun both => same both.1)]
          rfl

theorem lastPart_entries {l : List (Nat × Bitfield)} (sorted : OrdMap.Raw.Sorted l) (p : Nat) :
    t.lastPart (l.map (fun e => (e.1, e.2.toBytes))) p = (OrdMap.Raw.get? l p).bind (fun b =>
      if p < t.pieceCount then (Bitfield.fromBytes b.toBytes (t.blockCount p)).toOption else none) := by
  induction l with
  | nil => rfl
  | cons e tail ih =>
    obtain ⟨above, rest⟩ := List.pairwise_cons.mp sorted
    rw [List.map_cons, lastPart, ih rest, OrdMap.Raw.get?_cons]
    by_cases same : e.1 = p
    · have absent : OrdMap.Raw.get? tail p = none := by
        cases found : OrdMap.Raw.get? tail p with
        | none => rfl
        | some b => exact absurd (above _ (OrdMap.Raw.mem_of_get? found)) (by simp [same])
      rw [absent, if_pos same]
      simp [same]
    · rw [if_neg same, if_neg (fun both => same both.1), Option.or_none]

/-- The tracker holds what the entries say. -/
def Holds (t : PieceTracker) (entries : List (Nat × Bytes)) : Prop :=
  ∀ p, t.partialBlocks.get? p = t.lastPart entries p

theorem restore_unchanged_iff {haveBytes : Bytes} {entries : List (Nat × Bytes)} {e : Error}
    (failed : (t.restore haveBytes entries).1 = .error e) : (t.restore haveBytes entries).2 = t ↔
      (∃ e, Bitfield.fromBytes haveBytes t.pieceCount = .error e) ∨
        (Bitfield.fromBytes haveBytes t.pieceCount = .ok t.haveBits ∧ t.Holds (entries.takeWhile t.loads)) := by
  unfold restore at failed ⊢
  cases read : Bitfield.fromBytes haveBytes t.pieceCount with
  | error bad => simp
  | ok b =>
    rw [read] at failed
    obtain ⟨outcome, taken⟩ := restoreParts_spec (t := t) entries ∅
    rcases parsed : t.restoreParts entries ∅ with ⟨bad | done, parts⟩
    · rw [parsed] at taken
      dsimp only at taken ⊢
      have same : parts = t.partialBlocks ↔ t.Holds (entries.takeWhile t.loads) := by
        constructor
        · intro same p
          rw [← same, taken p, get?_empty, Option.or_none]
        · intro holds
          ext1 p
          rw [taken p, get?_empty, Option.or_none, holds p]
      constructor
      · intro unchanged
        have haves : b = t.haveBits := congrArg haveBits unchanged
        have parts : parts = t.partialBlocks := congrArg partialBlocks unchanged
        exact .inr ⟨congrArg _ haves, same.mp parts⟩
      · rintro (⟨bad, refused⟩ | ⟨haves, holds⟩)
        · cases refused
        · cases haves
          rw [same.mpr holds]
    · rw [parsed] at failed
      cases failed

end Restore

/-! ### Orderly trackers -/

/-- The received flags of a piece with `blocks` blocks: some are set, and the field is in order. -/
structure Part (blocks : Nat) (flags : Bitfield) : Prop where
  len : flags.len = blocks
  tight : flags.Tight
  counted : flags.Counted
  some : flags.count ≠ 0

structure Orderly (t : PieceTracker) (size : Nat → Nat) : Prop where
  few : t.pieceCount < 2 ^ 32
  tight : t.haveBits.Tight
  counted : t.haveBits.Counted
  parts : ∀ i flags, t.partialBlocks.get? i = some flags → i < t.pieceCount ∧ Part (size i) flags

section Orderly
variable {t u : PieceTracker} {size : Nat → Nat}

theorem orderly_new {pieceCount : Nat} (few : pieceCount < 2 ^ 32) (pieceLength : Nat) :
    (new pieceCount pieceLength).Orderly size :=
  ⟨few, Bitfield.tight_new pieceCount, Bitfield.counted_new pieceCount, nofun⟩

theorem Orderly.congr (orderly : t.Orderly size) (count : u.pieceCount = t.pieceCount) (haves : u.haveBits = t.haveBits)
    (received : u.partialBlocks = t.partialBlocks) : u.Orderly size := by
  refine ⟨?_, ?_, ?_, ?_⟩
  · rw [count]
    exact orderly.few
  · rw [haves]
    exact orderly.tight
  · rw [haves]
    exact orderly.counted
  · rw [received, count]
    exact orderly.parts

theorem Orderly.receive (orderly : t.Orderly size) (piece block : Nat) :
    (t.markBlockReceived piece block (size piece)).Orderly size := by
  by_cases outside : piece ≥ t.pieceCount ∨ block ≥ size piece
  · rw [markBlockReceived, if_pos outside]
    exact orderly
  · obtain ⟨known, inside⟩ := not_or.mp outside
    refine ⟨?_, ?_, ?_, ?_⟩
    · rw [pieceCount_markBlockReceived]
      exact orderly.few
    · rw [haveBits_markBlockReceived]
      exact orderly.tight
    · rw [haveBits_markBlockReceived]
      exact orderly.counted
    · intro i flags found
      rw [partialBlocks_mark piece block (size piece) (by omega) (by omega), get?_insert] at found
      rw [pieceCount_markBlockReceived]
      split_ifs at found with same
      · cases found
        subst same
        have before : (t.receivedFlags piece (size piece)).len = size piece ∧
            (t.receivedFlags piece (size piece)).Tight ∧ (t.receivedFlags piece (size piece)).Counted := by
          unfold receivedFlags
          cases present : t.partialBlocks.get? piece with
          | none => exact ⟨rfl, Bitfield.tight_new _, Bitfield.counted_new _⟩
          | some flags =>
            have part := (orderly.parts piece flags present).2
            exact ⟨part.len, part.tight, part.counted⟩
        obtain ⟨len, tight, counted⟩ := before
        refine ⟨Nat.lt_of_not_le known, (Bitfield.len_set ..).trans len, Bitfield.tight_set tight block,
          Bitfield.counted_set counted block, fun zero => ?_⟩
        have clear := Bitfield.get_of_count_zero (Bitfield.counted_set counted block) zero block
        rw [Bitfield.get_set, len, decide_eq_true rfl, decide_eq_true (Nat.lt_of_not_le inside)] at clear
        simp at clear
      · exact orderly.parts i flags found

theorem Orderly.erase (orderly : t.Orderly size) (piece : Nat) (count : u.pieceCount = t.pieceCount)
    (haves : u.haveBits.Tight ∧ u.haveBits.Counted) (received : u.partialBlocks = t.partialBlocks.erase piece) :
    u.Orderly size := by
  refine ⟨count ▸ orderly.few, haves.1, haves.2, fun i flags found => ?_⟩
  rw [received, get?_erase] at found
  split_ifs at found
  rw [count]
  exact orderly.parts i flags found

theorem Orderly.have (orderly : t.Orderly size) (piece : Nat) : (t.markPieceHave piece).Orderly size :=
  orderly.erase piece rfl ⟨Bitfield.tight_set orderly.tight piece, Bitfield.counted_set orderly.counted piece⟩ rfl

theorem Orderly.reset (orderly : t.Orderly size) (piece : Nat) : (t.resetPiece piece).Orderly size :=
  orderly.erase piece rfl ⟨orderly.tight, orderly.counted⟩ rfl

/-! ### The round trip -/

def restored (t : PieceTracker) (parts : OrdMap Nat Bitfield) : PieceTracker :=
  { new t.pieceCount t.pieceLength with
    haveBits := t.haveBits
    partialBlocks := parts
    blocksReceivedTotal := wmul (parts.total (fun _ b => b.count) % 2 ^ 64) BLOCK_LEN }

theorem restore_snapshot_iff (orderly : t.Orderly size) (shape : t.haveBits.len = t.pieceCount) :
    (new t.pieceCount t.pieceLength).restore t.snapshot.1 t.snapshot.2 = (.ok (), u) ↔
      ∃ parts, (new t.pieceCount t.pieceLength).restoreParts t.snapshot.2 ∅ = (.ok (), parts) ∧ u = t.restored parts := by
  have haves : Bitfield.fromBytes t.snapshot.1 (new t.pieceCount t.pieceLength).pieceCount = .ok t.haveBits := by
    change Bitfield.fromBytes t.haveBits.toBytes t.pieceCount = .ok t.haveBits
    rw [← shape]
    exact Bitfield.fromBytes_toBytes orderly.tight orderly.counted
  rw [restore, haves]
  dsimp only
  rcases (new t.pieceCount t.pieceLength).restoreParts t.snapshot.2 ∅ with ⟨bad | done, parts⟩
  · simp
  · constructor
    · intro same
      cases same
      exact ⟨parts, rfl, rfl⟩
    · rintro ⟨taken, same, rfl⟩
      cases same
      rfl

theorem taken_of_done {parts : OrdMap Nat Bitfield}
    (done : (new t.pieceCount t.pieceLength).restoreParts t.snapshot.2 ∅ = (.ok (), parts)) (p : Nat) :
    parts.get? p = (t.partialBlocks.get? p).bind (fun b =>
      if p < t.pieceCount then (Bitfield.fromBytes b.toBytes (t.blockCount p)).toOption else none) := by
  obtain ⟨outcome, taken⟩ := restoreParts_spec (t := new t.pieceCount t.pieceLength) t.snapshot.2 ∅
  have all : t.snapshot.2.all (new t.pieceCount t.pieceLength).loads = true := by
    rw [← outcome, done]
    rfl
  have whole : t.snapshot.2.takeWhile (new t.pieceCount t.pieceLength).loads = t.snapshot.2 :=
    List.takeWhile_eq_self_iff.mpr (List.all_eq_true.mp all)
  have given := taken p
  rw [done, whole, get?_empty, Option.or_none] at given
  exact given.trans (lastPart_entries t.partialBlocks.sorted p)

theorem reproduces_iff (orderly : t.Orderly size) (shape : t.haveBits.len = t.pieceCount) :
    t.Reproduces ↔ ∀ i flags, t.partialBlocks.get? i = some flags → size i = t.blockCount i := by
  constructor
  · rintro ⟨u, restored, -, parts⟩ i flags found
    obtain ⟨taken, done, rfl⟩ := (restore_snapshot_iff orderly shape).mp restored
    obtain ⟨known, part⟩ := orderly.parts i flags found
    have given := taken_of_done done i
    rw [show taken = t.partialBlocks from parts, found, Option.bind_some, if_pos known] at given
    cases read : Bitfield.fromBytes flags.toBytes (t.blockCount i) with
    | error bad =>
      rw [read] at given
      cases given
    | ok b =>
      rw [read] at given
      cases given
      rw [← part.len]
      exact Bitfield.len_fromBytes read
  · intro sizes
    have read : ∀ i flags, t.partialBlocks.get? i = some flags →
        Bitfield.fromBytes flags.toBytes (t.blockCount i) = .ok flags := by
      intro i flags found
      have part := (orderly.parts i flags found).2
      rw [← sizes i flags found, ← part.len]
      exact Bitfield.fromBytes_toBytes part.tight part.counted
    obtain ⟨outcome, -⟩ := restoreParts_spec (t := new t.pieceCount t.pieceLength) t.snapshot.2 ∅
    have all : t.snapshot.2.all (new t.pieceCount t.pieceLength).loads = true := by
      rw [List.all_eq_true]
      intro e member
      obtain ⟨⟨i, flags⟩, listed, rfl⟩ := List.mem_map.mp member
      have found := (t.partialBlocks.mem_entries_iff i flags).mp listed
      have loaded : Bitfield.fromBytes flags.toBytes ((new t.pieceCount t.pieceLength).blockCount i) = .ok flags :=
        read i flags found
      simp [loads, loaded, Except.isOk, Except.toBool]
    rw [all] at outcome
    rcases done : (new t.pieceCount t.pieceLength).restoreParts t.snapshot.2 ∅ with ⟨bad | ⟨⟩, parts⟩
    · rw [done] at outcome
      cases outcome
    · refine ⟨t.restored parts, (restore_snapshot_iff orderly shape).mpr ⟨parts, done, rfl⟩, rfl, ?_⟩
      change parts = t.partialBlocks
      ext1 p
      rw [taken_of_done done p]
      cases found : t.partialBlocks.get? p with
      | none => rfl
      | some flags =>
        rw [Option.bind_some, if_pos (orderly.parts p flags found).1, read p flags found]
        rfl

theorem Orderly.total_lt (orderly : t.Orderly size) (narrow : ∀ i, size i < 2 ^ 16) :
    t.partialBlocks.total (fun _ b => b.count) < 2 ^ 50 := by
  have each : ∀ i flags, t.partialBlocks.get? i = some flags → flags.count ≤ 2 ^ 16 := by
    intro i flags found
    have part := (orderly.parts i flags found).2
    calc flags.count = (List.range flags.len).countP flags.get := part.counted
      _ ≤ (List.range flags.len).length := List.countP_le_length
      _ = size i := by rw [List.length_range, part.len]
      _ ≤ 2 ^ 16 := Nat.le_of_lt (narrow i)
  have few : t.partialBlocks.size ≤ t.pieceCount := by
    have inside : t.partialBlocks.keys ⊆ List.range t.pieceCount := by
      intro i listed
      obtain ⟨flags, found⟩ := (mem_keys_iff _ i).mp listed
      exact List.mem_range.mpr (orderly.parts i flags found).1
    have subperm := (List.subperm_of_subset t.partialBlocks.keys_nodup inside).length_le
    rwa [List.length_range, keys, List.length_map] at subperm
  have bound : t.partialBlocks.total (fun _ b => b.count) ≤ t.partialBlocks.size * 2 ^ 16 := total_le each
  have product := Nat.mul_le_mul_right (2 ^ 16) few
  have limit := orderly.few
  omega

theorem roundTrips_iff (orderly : t.Orderly size) (shape : t.haveBits.len = t.pieceCount) (narrow : ∀ i, size i < 2 ^ 16) :
    t.RoundTrips ↔ t.partialBlocks = ∅ := by
  constructor
  · rintro ⟨u, restored, -, parts, bytes⟩
    obtain ⟨taken, done, rfl⟩ := (restore_snapshot_iff orderly shape).mp restored
    have same : taken = t.partialBlocks := parts
    subst same
    have scaled : wmul (wmul (t.partialBlocks.total (fun _ b => b.count) % 2 ^ 64) BLOCK_LEN) BLOCK_LEN =
        t.partialBlocks.total (fun _ b => b.count) * BLOCK_LEN := bytes
    have bound := orderly.total_lt narrow
    have zero : t.partialBlocks.total (fun _ b => b.count) = 0 := by
      unfold wmul BLOCK_LEN at scaled
      omega
    ext1 i
    cases found : t.partialBlocks.get? i with
    | none => rfl
    | some flags =>
      have counts := total_erase (f := fun _ (b : Bitfield) => b.count) found
      exact absurd (by omega) (orderly.parts i flags found).2.some
  · intro none
    have nothing : ∀ i flags, t.partialBlocks.get? i = some flags → size i = t.blockCount i := by
      rw [none]
      nofun
    obtain ⟨u, restored, haves, parts⟩ := (reproduces_iff orderly shape).mpr nothing
    refine ⟨u, restored, haves, parts, ?_⟩
    obtain ⟨taken, done, rfl⟩ := (restore_snapshot_iff orderly shape).mp restored
    have same : taken = ∅ := Eq.trans parts none
    have zero : wmul (wmul (0 % 2 ^ 64) BLOCK_LEN) BLOCK_LEN = 0 * BLOCK_LEN := by simp [wmul]
    rw [partialBytes, none, same]
    exact zero

end Orderly
end TypeBit.PieceTracker
