import TypeBit.Metainfo.Accepted
import TypeBit.Picker

/-! The numbering of a piece's blocks. Counts and scan positions have 16 bits, so a piece has at most
65440 blocks that the rotating scan can walk through: the last start is 96. -/

namespace TypeBit.Picker

/-- The block can be asked for: the piece is missing, and the block is neither received nor requested. -/
def Open (tracker : PieceTracker) (piece block : Nat) : Prop :=
  tracker.isHave piece = false ∧ tracker.blockReceived piece block = false ∧ tracker.blockRequested piece block = false

def scanStart (piece totalBlocks : Nat) (preferContiguous : Bool) : Nat :=
  if preferContiguous then 0 else piece % 97 % max totalBlocks 1

/-- The scan of a piece picks an open block exactly when there is one, and no addition on its way there
leaves 16 bits. -/
structure ScansAll (tracker : PieceTracker) (piece totalBlocks : Nat) (preferContiguous : Bool) : Prop where
  found : (∃ b, pickBlock tracker piece totalBlocks preferContiguous = some b) ↔ ∃ b < totalBlocks, Open tracker piece b
  sound : ∀ b, pickBlock tracker piece totalBlocks preferContiguous = some b → b < totalBlocks ∧ Open tracker piece b
  fits : tracker.isHave piece = false → ∀ i < totalBlocks,
    (∀ j < i, ¬ Open tracker piece ((scanStart piece totalBlocks preferContiguous + j) % totalBlocks)) →
      scanStart piece totalBlocks preferContiguous + i < 2 ^ 16

/-- The blocks of a piece of `len` bytes cover it, the index of every byte's block is one of them, and the
picker scans them all. -/
structure Numbered (len : Nat) : Prop where
  cover : len ≤ blockCountFor len * BLOCK_LEN
  index : ∀ offset < len, offset / BLOCK_LEN < blockCountFor len
  scans : ∀ tracker piece preferContiguous, ScansAll tracker piece (blockCountFor len) preferContiguous

section Scan
variable {tracker : PieceTracker} {piece totalBlocks : Nat} {contiguous : Bool}

theorem scanStart_lt (some_block : 0 < totalBlocks) : scanStart piece totalBlocks contiguous < totalBlocks := by
  unfold scanStart
  split
  · exact some_block
  · have below := Nat.mod_lt (piece % 97) (show 0 < max totalBlocks 1 by omega)
    omega

theorem scanStart_le (piece totalBlocks : Nat) (contiguous : Bool) : scanStart piece totalBlocks contiguous ≤ 96 := by
  unfold scanStart
  split
  · exact Nat.zero_le 96
  · have below := Nat.mod_lt piece (show 0 < 97 by decide)
    have smaller := Nat.mod_le (piece % 97) (max totalBlocks 1)
    omega

theorem exists_turn {start block : Nat} (from_start : start < totalBlocks) (below : block < totalBlocks) :
    ∃ i < totalBlocks, (start + i) % totalBlocks = block := by
  by_cases later : start ≤ block
  · refine ⟨block - start, by omega, ?_⟩
    rw [Nat.add_sub_of_le later, Nat.mod_eq_of_lt below]
  · refine ⟨block + totalBlocks - start, by omega, ?_⟩
    have turned : start + (block + totalBlocks - start) = block + totalBlocks := by omega
    rw [turned, Nat.add_mod_right, Nat.mod_eq_of_lt below]

theorem pickBlock_of_open (fits : scanStart piece totalBlocks contiguous + totalBlocks ≤ 2 ^ 16) {block : Nat}
    (below : block < totalBlocks) (free : Open tracker piece block) :
    ∃ b, pickBlock tracker piece totalBlocks contiguous = some b := by
  obtain ⟨i, inside, turn⟩ := exists_turn (scanStart_lt (Nat.zero_lt_of_lt below)) below
  have position : (scanStart piece totalBlocks contiguous + i) % 2 ^ 16 % totalBlocks = block := by
    rw [Nat.mod_eq_of_lt (show scanStart piece totalBlocks contiguous + i < 2 ^ 16 by omega), turn]
  unfold pickBlock
  rw [if_neg (by simp [free.1])]
  apply Option.isSome_iff_exists.mp
  rw [List.find?_isSome]
  refine ⟨block, List.mem_map.mpr ⟨i, List.mem_range.mpr inside, position⟩, ?_⟩
  simp [free.2.1, free.2.2]

theorem open_of_pickBlock {block : Nat} (picked : pickBlock tracker piece totalBlocks contiguous = some block) :
    block < totalBlocks ∧ Open tracker piece block := by
  obtain ⟨missing, below, unasked⟩ := pickBlock_eq_some picked
  exact ⟨below, missing, pickBlock_unreceived picked, unasked⟩

theorem scansAll_of_le (small : totalBlocks ≤ 65440) : ScansAll tracker piece totalBlocks contiguous where
  found := by
    constructor
    · intro picked
      obtain ⟨b, picked⟩ := picked
      exact ⟨b, open_of_pickBlock picked⟩
    · intro free
      obtain ⟨b, below, free⟩ := free
      have start := scanStart_le piece totalBlocks contiguous
      exact pickBlock_of_open (by omega) below free
  sound := fun _ picked => open_of_pickBlock picked
  fits := by
    intro _ i inside _
    have start := scanStart_le piece totalBlocks contiguous
    omega

end Scan

/-! ### A piece of which every block is received -/

theorem get_foldl_set {blocks : List Nat} {flags : Bitfield} {b : Nat} (inside : b < flags.len)
    (set : flags.get b = true ∨ b ∈ blocks) : (blocks.foldl Bitfield.set flags).get b = true := by
  induction blocks generalizing flags with
  | nil => exact set.resolve_right List.not_mem_nil
  | cons first tail ih =>
    apply ih
    · rwa [Bitfield.len_set]
    · rw [Bitfield.get_set]
      rcases set with before | member
      · exact .inl (by rw [before, Bool.true_or])
      · rcases List.mem_cons.mp member with rfl | later
        · exact .inl (by simp [inside])
        · exact .inr later

/-- The tracker of 97 pieces that has every block of the last one, which waits for its check. -/
def assembled (totalBlocks pieceLength : Nat) : PieceTracker :=
  let flags := (List.range totalBlocks).foldl Bitfield.set (Bitfield.new totalBlocks)
  { PieceTracker.new 97 pieceLength with partialBlocks := (∅ : OrdMap Nat Bitfield).insert 96 flags }

theorem not_open_assembled {totalBlocks pieceLength b : Nat} (below : b < totalBlocks) :
    ¬ Open (assembled totalBlocks pieceLength) 96 b := by
  intro free
  have received : (assembled totalBlocks pieceLength).blockReceived 96 b = true := by
    unfold PieceTracker.blockReceived assembled
    dsimp only
    rw [OrdMap.get?_insert_self, Option.map_some, Option.getD_some]
    exact get_foldl_set below (.inr (List.mem_range.mpr below))
  rw [free.2.1] at received
  cases received

theorem isHave_assembled (totalBlocks pieceLength piece : Nat) :
    (assembled totalBlocks pieceLength).isHave piece = false :=
  Bitfield.get_new 97 piece

/-! ### The numbering of a piece -/

/-- Blocks are numbered soundly exactly in the pieces of at most 65440 of them. -/
theorem numbered_iff (len : Nat) : Numbered len ↔ len ≤ 65440 * BLOCK_LEN := by
  have rounded : blockCountFor len = (len + 16383) / 16384 % 65536 := rfl
  have limit : 65440 * BLOCK_LEN = 1072168960 := rfl
  rw [limit]
  constructor
  · intro numbered
    have cover := numbered.cover
    by_contra large
    have many : 65440 < blockCountFor len := by
      unfold BLOCK_LEN at cover
      omega
    -- the scan of piece 96 starts at block 96, and every block of it is received
    have start : scanStart 96 (blockCountFor len) false = 96 := by
      have larger : max (blockCountFor len) 1 = blockCountFor len := by omega
      rw [scanStart, if_neg Bool.false_ne_true, larger]
      exact Nat.mod_eq_of_lt (by omega)
    have scans := numbered.scans (assembled (blockCountFor len) len) 96 false
    have fits := scans.fits (isHave_assembled _ _ 96) (blockCountFor len - 1) (by omega) (by
      intro j _
      exact not_open_assembled (Nat.mod_lt _ (by omega)))
    rw [start] at fits
    omega
  · intro small
    refine ⟨?_, ?_, ?_⟩
    · rw [rounded, BLOCK_LEN]
      omega
    · intro offset inside
      have begins := Nat.div_mul_le_self offset BLOCK_LEN
      have bound : 65440 * BLOCK_LEN ≤ 65535 * BLOCK_LEN := Nat.mul_le_mul_right BLOCK_LEN (by decide)
      exact lt_blockCountFor ((limit ▸ small).trans bound) (Nat.lt_of_le_of_lt begins inside)
    · intro tracker piece contiguous
      apply scansAll_of_le
      omega

def gibiPiece : Bytes :=
  ascii "d4:infod6:lengthi1073741824e4:name1:a12:piece lengthi1073741824e6:pieces20:aaaaaaaaaaaaaaaaaaaaee"

/-- Its blocks are counted as none. -/
theorem gibi_piece_unnumbered : ¬ ∀ (digests : Metainfo.Digests) (data : Bytes) (t : Metainfo.Torrent),
    Metainfo.Torrent.fromBytes digests data = .ok t → Numbered t.pieceLength := by
  intro always
  have accepted : (Metainfo.Torrent.fromBytes Metainfo.zeroDigests gibiPiece).toOption.map
      Metainfo.Torrent.pieceLength = some 1073741824 := by
    decide
  obtain ⟨t, ok, sized⟩ := map_toOption_eq_some.mp accepted
  have numbered := always Metainfo.zeroDigests gibiPiece t ok
  rw [sized] at numbered
  exact absurd numbered.cover (by decide)

end TypeBit.Picker
