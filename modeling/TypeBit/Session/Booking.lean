import TypeBit.Session.ByteExact
import TypeBit.Session.Pipeline

/-! The request tables of a session: which blocks are requested, from whom, since when, and what is left to request.
Whatever a session does to them, they agree. -/

namespace TypeBit.Session
open Metainfo Leech Wire Ranges OrdMap Finset PieceTracker TorrentSession

/-! ### The slate -/

structure Slate where
  torrent : Option Torrent
  pieces : PieceTracker
  requestedBy : OrdMap BlockKey (List ConnId)
  requestedAt : OrdMap BlockKey Nat
  pieceBytes : OrdMap Nat PieceBytes

def TorrentSession.slate (s : TorrentSession) : Slate :=
  ⟨s.torrent, s.pieces, s.requestedBy, s.requestedAt, s.pieceBytes⟩

def Slate.tracker (d : Slate) (piece : Nat) : PieceBytes := (d.pieceBytes.get? piece).getD PieceBytes.new

def Slate.cells (d : Slate) (piece : Nat) : Finset Nat := Ranges.cells (d.tracker piece).ranges

def window (len block : Nat) : Finset Nat :=
  Ico (block * BLOCK_LEN) (block * BLOCK_LEN + min BLOCK_LEN (len - block * BLOCK_LEN))

/-- The tables agree. A request is listed, timed and marked, or its piece is verified; a block whose bytes are all
there was received. -/
structure Booked (d : Slate) : Prop where
  tallied : d.pieces.Tallied (blocksOf d.torrent)
  bare : d.torrent = none → (∀ k, d.requestedBy.get? k = none) ∧ ∀ i, d.pieceBytes.get? i = none
  asked : ∀ k reqs, d.requestedBy.get? k = some reqs → reqs ≠ []
  timed : ∀ k, (d.requestedAt.get? k).isSome = (d.requestedBy.get? k).isSome
  listed : ∀ i b, d.pieces.blockRequested i b = true → (d.requestedBy.get? (blockKey i b)).isSome = true
  marked : ∀ i b, (d.requestedBy.get? (blockKey i b)).isSome = true → i < d.pieces.pieceCount →
    d.pieces.isHave i = true ∨ d.pieces.blockRequested i b = true
  covered : ∀ t i info, d.torrent = some t → t.pieceInfo i = .ok info → i < d.pieces.pieceCount →
    ∀ b < blockCountFor info.len, window info.len b ⊆ d.cells i → d.pieces.blockReceived i b = true

theorem window_filled {len b : Nat} (below : b < blockCountFor len) :
    b * BLOCK_LEN < b * BLOCK_LEN + min BLOCK_LEN (len - b * BLOCK_LEN) := by
  have inside := inside_of_lt_blockCountFor below
  have positive : 0 < BLOCK_LEN := by decide
  omega

theorem window_uncovered {d : Slate} {len b i : Nat} (below : b < blockCountFor len) (gone : d.pieceBytes.get? i = none) :
    ¬ window len b ⊆ d.cells i := by
  intro covered
  have first := covered (mem_Ico.mpr ⟨le_refl (b * BLOCK_LEN), window_filled below⟩)
  rw [Slate.cells, Slate.tracker, gone] at first
  exact absurd first (notMem_empty _)

theorem blockKey_eq {i b j c : Nat} : blockKey i b = blockKey j c ↔ i = j ∧ b = c := by
  rw [blockKey, blockKey, toLex.injective.eq_iff, Prod.mk.injEq]

section Slate
variable {d : Slate}

theorem booked_fresh (requestedBy : ∀ k, d.requestedBy.get? k = none)
    (requestedAt : ∀ k, d.requestedAt.get? k = none) (pieceBytes : ∀ i, d.pieceBytes.get? i = none)
    (tallied : d.pieces.Tallied (blocksOf d.torrent)) (requested : ∀ i b, d.pieces.blockRequested i b = false) :
    Booked d := by
  refine ⟨tallied, fun _ => ⟨requestedBy, pieceBytes⟩, ?_, ?_, ?_, ?_, ?_⟩
  · intro k reqs found
    rw [requestedBy] at found
    cases found
  · intro k
    rw [requestedBy, requestedAt]
    rfl
  · intro i b on
    rw [requested] at on
    cases on
  · intro i b found
    rw [requestedBy] at found
    cases found
  · intro t i info _ _ _ b below full
    exact absurd full (window_uncovered below (pieceBytes i))

def Slate.strike (piece block : Nat) (d : Slate) : Slate :=
  { d with
    requestedBy := d.requestedBy.erase (blockKey piece block)
    requestedAt := d.requestedAt.erase (blockKey piece block)
    pieces := d.pieces.clearBlockRequested piece block (blocksOf d.torrent piece) }

theorem Booked.strike (booked : Booked d) (piece block : Nat) : Booked (d.strike piece block) := by
  have released := released_clearBlockRequested d.pieces piece block (blocksOf d.torrent piece)
  have flags := booked.tallied.blockRequested_clear piece block
  refine ⟨booked.tallied.clear piece block, ?_, ?_, ?_, ?_, ?_, ?_⟩
  · intro none
    refine ⟨fun k => ?_, (booked.bare none).2⟩
    change (d.requestedBy.erase _).get? k = Option.none
    rw [get?_erase, (booked.bare none).1 k, ite_self]
  · intro k reqs found
    change (d.requestedBy.erase _).get? k = some reqs at found
    exact booked.asked k reqs (get?_of_erase found)
  · intro k
    change ((d.requestedAt.erase _).get? k).isSome = ((d.requestedBy.erase _).get? k).isSome
    rw [get?_erase, get?_erase]
    split_ifs
    · rfl
    · exact booked.timed k
  · intro i b on
    change (d.pieces.clearBlockRequested piece block (blocksOf d.torrent piece)).blockRequested i b = true at on
    rw [flags, Bool.and_eq_true, Bool.not_eq_true', ← Bool.decide_and, decide_eq_false_iff_not] at on
    have other : blockKey piece block ≠ blockKey i b := fun same => on.2 ⟨(blockKey_eq.mp same).1.symm, (blockKey_eq.mp same).2.symm⟩
    change ((d.requestedBy.erase _).get? _).isSome = true
    rw [get?_erase_ne _ other]
    exact booked.listed i b on.1
  · intro i b found inside
    change ((d.requestedBy.erase _).get? _).isSome = true at found
    change (d.pieces.clearBlockRequested piece block _).isHave i = true ∨
      (d.pieces.clearBlockRequested piece block (blocksOf d.torrent piece)).blockRequested i b = true
    have apart : blockKey piece block ≠ blockKey i b := by
      intro same
      rw [same, get?_erase_self] at found
      cases found
    have other : ¬ (i = piece ∧ b = block) := fun both => apart (blockKey_eq.mpr ⟨both.1.symm, both.2.symm⟩)
    rw [get?_erase_ne _ apart] at found
    rw [isHave, released.haves, flags, ← Bool.decide_and, decide_eq_false other, Bool.not_false, Bool.and_true]
    exact booked.marked i b found (released.count ▸ inside)
  · intro t i info torrent known inside b below full
    have before := booked.covered t i info torrent known (released.count ▸ inside) b below full
    rw [blockReceived] at before ⊢
    exact released.received ▸ before

theorem Booked.relist (booked : Booked d) (requestedBy : OrdMap BlockKey (List ConnId))
    (same : ∀ k, (requestedBy.get? k).isSome = (d.requestedBy.get? k).isSome)
    (asked : ∀ k reqs, requestedBy.get? k = some reqs → reqs ≠ []) : Booked { d with requestedBy := requestedBy } := by
  refine ⟨booked.tallied, ?_, asked, ?_, ?_, ?_, booked.covered⟩
  · intro none
    refine ⟨fun k => ?_, (booked.bare none).2⟩
    have absent := same k
    rw [(booked.bare none).1 k] at absent
    exact Option.isNone_iff_eq_none.mp (by simpa using absent)
  · intro k
    exact (booked.timed k).trans (same k).symm
  · intro i b on
    exact (same _).trans (booked.listed i b on)
  · intro i b found inside
    exact booked.marked i b ((same _).symm.trans found) inside

theorem Booked.issue (booked : Booked d) {t : Torrent} (torrent : d.torrent = some t) {piece block : Nat}
    (placed : block < blocksOf d.torrent piece) (missing : d.pieces.blockReceived piece block = false) (conn : ConnId)
    (now : Nat) :
    Booked { d with
      pieces := d.pieces.markBlockRequested piece block (blocksOf d.torrent piece)
      requestedBy := d.requestedBy.insert (blockKey piece block)
        ((d.requestedBy.get? (blockKey piece block)).getD [] ++ [conn])
      requestedAt := d.requestedAt.insert (blockKey piece block) now } := by
  have count := pieceCount_markBlockRequested d.pieces piece block (blocksOf d.torrent piece)
  have haves := haveBits_markBlockRequested d.pieces piece block (blocksOf d.torrent piece)
  have flags : ∀ i b, (d.pieces.markBlockRequested piece block (blocksOf d.torrent piece)).blockRequested i b =
      (d.pieces.blockRequested i b || (decide (piece < d.pieces.pieceCount) && decide (blockKey piece block = blockKey i b))) := by
    intro i b
    by_cases known : piece < d.pieces.pieceCount
    · rw [blockRequested_mark piece block _ booked.tallied.flagged rfl known placed, decide_eq_true known,
        Bool.true_and, ← Bool.decide_and, decide_eq_decide.mpr (blockKey_eq.trans (and_congr eq_comm eq_comm))]
    · rw [markBlockRequested, if_pos (.inl (Nat.le_of_not_lt known)), decide_eq_false known, Bool.false_and,
        Bool.or_false]
  refine ⟨booked.tallied.mark missing, ?_, ?_, ?_, ?_, ?_, ?_⟩
  · intro none
    cases torrent.symm.trans none
  · intro k reqs found
    change (d.requestedBy.insert _ _).get? k = some reqs at found
    rw [get?_insert] at found
    split_ifs at found
    · cases found
      exact List.append_ne_nil_of_right_ne_nil _ (List.cons_ne_nil conn [])
    · exact booked.asked k reqs found
  · intro k
    change ((d.requestedAt.insert _ now).get? k).isSome = ((d.requestedBy.insert _ _).get? k).isSome
    rw [get?_insert, get?_insert]
    split_ifs
    · rfl
    · exact booked.timed k
  · intro i b on
    change (d.pieces.markBlockRequested piece block (blocksOf d.torrent piece)).blockRequested i b = true at on
    change ((d.requestedBy.insert _ _).get? _).isSome = true
    rw [get?_insert]
    split_ifs with same
    · rfl
    · rw [flags, decide_eq_false same, Bool.and_false, Bool.or_false] at on
      exact booked.listed i b on
  · intro i b found inside
    change ((d.requestedBy.insert _ _).get? _).isSome = true at found
    change i < (d.pieces.markBlockRequested piece block _).pieceCount at inside
    change (d.pieces.markBlockRequested piece block _).isHave i = true ∨
      (d.pieces.markBlockRequested piece block (blocksOf d.torrent piece)).blockRequested i b = true
    rw [count] at inside
    rw [isHave, haves, flags]
    by_cases same : blockKey piece block = blockKey i b
    · have known : piece < d.pieces.pieceCount := (blockKey_eq.mp same).1 ▸ inside
      right
      rw [decide_eq_true known, decide_eq_true same, Bool.true_and, Bool.or_true]
    · rw [get?_insert_ne _ _ same] at found
      rw [decide_eq_false same, Bool.and_false, Bool.or_false]
      exact booked.marked i b found inside
  · intro u i info same known inside b below full
    change i < (d.pieces.markBlockRequested piece block _).pieceCount at inside
    rw [count] at inside
    have before := booked.covered u i info same known inside b below full
    change (d.pieces.markBlockRequested piece block _).blockReceived i b = true
    rw [blockReceived, partialBlocks_markBlockRequested]
    exact before

theorem Booked.lift (booked : Booked d) {u : PieceTracker} (flights : Bitfield)
    (same : u = { d.pieces with inFlight := flights }) (length : flights.len = d.pieces.inFlight.len)
    (more : ∀ i, d.pieces.isInFlight i = true → flights.get i = true) : Booked { d with pieces := u } := by
  have tallied := booked.tallied.lift same length more
  subst same
  exact ⟨tallied, booked.bare, booked.asked, booked.timed, booked.listed, booked.marked, booked.covered⟩

theorem Booked.takeOff (booked : Booked d) (piece : Nat) :
    Booked { d with pieces := d.pieces.setInFlight piece true } := by
  refine booked.lift (d.pieces.inFlight.set piece) rfl (Bitfield.len_set ..) fun i aloft => ?_
  have before : d.pieces.inFlight.get i = true := aloft
  rw [Bitfield.get_set, before, Bool.true_or]

theorem Booked.ground (booked : Booked d) {u : PieceTracker} (piece : Nat) (count : u.pieceCount = d.pieces.pieceCount)
    (inFlight : u.inFlight = d.pieces.inFlight.clear piece)
    (received : u.partialBlocks = d.pieces.partialBlocks.erase piece)
    (requested : u.requested = d.pieces.requested.erase piece)
    (haves : ∀ i, d.pieces.isHave i = true → u.isHave i = true)
    (clean : ∀ b, d.pieces.blockRequested piece b = true → u.isHave piece = true) :
    Booked { d with pieces := u, pieceBytes := d.pieceBytes.erase piece } := by
  refine ⟨booked.tallied.ground piece count inFlight received requested, ?_, booked.asked, booked.timed, ?_, ?_, ?_⟩
  · intro none
    refine ⟨(booked.bare none).1, fun i => ?_⟩
    change (d.pieceBytes.erase piece).get? i = Option.none
    rw [get?_erase, (booked.bare none).2 i, ite_self]
  · intro i b on
    refine booked.listed i b ?_
    change u.blockRequested i b = true at on
    by_cases own : piece = i
    · rw [blockRequested, requested, own, get?_erase_self] at on
      cases on
    · rw [blockRequested, requested, get?_erase_ne _ own] at on
      exact on
  · intro i b found inside
    change i < u.pieceCount at inside
    change u.isHave i = true ∨ u.blockRequested i b = true
    rcases booked.marked i b found (count ▸ inside) with held | on
    · exact .inl (haves i held)
    · by_cases own : piece = i
      · subst own
        exact .inl (clean b on)
      · rw [blockRequested, requested, get?_erase_ne _ own]
        exact .inr on
  · intro t i info torrent known inside b below full
    change i < u.pieceCount at inside
    change u.blockReceived i b = true
    by_cases own : piece = i
    · subst own
      exact absurd full (window_uncovered below (get?_erase_self _ _))
    · rw [Slate.cells, Slate.tracker, get?_erase_ne _ own] at full
      rw [blockReceived, received, get?_erase_ne _ own]
      exact booked.covered t i info torrent known (count ▸ inside) b below full

end Slate

/-! ### Storing a window -/

section Store
variable {size : Nat → Nat} {u : PieceTracker} {index len : Nat} {pb : PieceBytes}

theorem tallied_markCovered (tallied : u.Tallied size) (sized : blockCountFor len = size index) {b : Nat}
    (free : u.blockRequested index (b % 2 ^ 16) = false) :
    (markCovered index len (blockCountFor len) pb u b).Tallied size := by
  unfold markCovered
  split_ifs
  · rw [sized]
    exact tallied.receive free
  · exact tallied

theorem blockReceived_markCovered {i b : Nat} (c : Nat) (received : u.blockReceived i b = true) :
    (markCovered index len (blockCountFor len) pb u c).blockReceived i b = true := by
  unfold markCovered
  split_ifs
  · exact blockReceived_mark_mono index (c % 2 ^ 16) (blockCountFor len) received
  · exact received

theorem markAllCovered_spec (sized : blockCountFor len = size index) {blocks : List Nat} (tallied : u.Tallied size)
    (free : ∀ b ∈ blocks, u.blockRequested index (b % 2 ^ 16) = false) :
    (blocks.foldl (markCovered index len (blockCountFor len) pb) u).Tallied size ∧
      (∀ i b, u.blockReceived i b = true →
        (blocks.foldl (markCovered index len (blockCountFor len) pb) u).blockReceived i b = true) ∧
      (index < u.pieceCount → ∀ b ∈ blocks, b < blockCountFor len →
        pb.covers (b * BLOCK_LEN) (b * BLOCK_LEN + min BLOCK_LEN (len - b * BLOCK_LEN)) = true →
        (blocks.foldl (markCovered index len (blockCountFor len) pb) u).blockReceived index b = true) := by
  induction blocks generalizing u with
  | nil => exact ⟨tallied, fun _ _ received => received, fun _ _ member => nomatch member⟩
  | cons c tail ih =>
    have first : (markCovered index len (blockCountFor len) pb u c).Tallied size :=
      tallied_markCovered tallied sized (free c List.mem_cons_self)
    have requested : (markCovered index len (blockCountFor len) pb u c).requested = u.requested := by
      exact requested_markAllCovered index len (blockCountFor len) pb [c] u
    have count : (markCovered index len (blockCountFor len) pb u c).pieceCount = u.pieceCount :=
      (fields_markCovered index len (blockCountFor len) pb u c).2
    obtain ⟨rest, more, marked⟩ := ih first fun b member => by
      rw [blockRequested, requested]
      exact free b (List.mem_cons_of_mem c member)
    refine ⟨rest, fun i b received => more i b (blockReceived_markCovered c received), ?_⟩
    intro known b member below covers
    rcases List.mem_cons.mp member with rfl | later
    · apply more
      have low : b % 2 ^ 16 = b := Nat.mod_eq_of_lt (below.trans (Nat.mod_lt _ (by decide)))
      rw [markCovered, if_pos covers, low]
      refine blockReceived_mark_self index b _ known below fun flags found => ?_
      rw [sized]
      exact tallied.parts index flags found
    · exact marked (count ▸ known) b later below covers

end Store

theorem inFlight_markAllCovered (index pieceLen totalBlocks : Nat) (pb : PieceBytes) (blocks : List Nat)
    (t : PieceTracker) :
    (blocks.foldl (markCovered index pieceLen totalBlocks pb) t).inFlight = t.inFlight := by
  induction blocks generalizing t with
  | nil => rfl
  | cons b tail ih =>
    refine (ih _).trans ?_
    unfold markCovered
    split_ifs
    · exact inFlight_markBlockReceived t index (b % 2 ^ 16) totalBlocks
    · rfl

theorem window_disjoint {start length len b : Nat} (outside : b ∉ overlapped start length) :
    Disjoint (window len b) (Ico start (start + length)) := by
  rw [disjoint_left]
  intro j own other
  have block := mem_Ico.mp own
  have bounds := mem_Ico.mp other
  apply outside
  have below : j < b * BLOCK_LEN + BLOCK_LEN := by omega
  have here : j / BLOCK_LEN = b :=
    Nat.div_eq_of_lt_le block.1 (by rw [Nat.succ_mul]; exact below)
  have low := Nat.div_le_div_right (c := BLOCK_LEN) bounds.1
  have high := Nat.div_le_div_right (c := BLOCK_LEN) (show j ≤ start + length - 1 by omega)
  rw [overlapped, List.mem_range'_1]
  omega

section Slate
variable {d : Slate} {t : Torrent} {info : PieceInfo} {index start length : Nat}

def Slate.feed (index start length : Nat) (d : Slate) : Slate :=
  { d with pieceBytes := d.pieceBytes.insert index ((d.tracker index).add start (start + length)).1 }

theorem cells_feed (exact : (d.tracker index).Exact) (i : Nat) :
    (d.feed index start length).cells i =
      if index = i then d.cells index ∪ Ico start (start + length) else d.cells i := by
  rw [Slate.cells, Slate.tracker, Slate.feed, get?_insert]
  split_ifs with same
  · exact PieceBytes.add_cells exact start (start + length)
  · rfl

theorem Booked.duplicate (booked : Booked d) (torrent : d.torrent = some t)
    (exact : (d.tracker index).Exact) (nothing : ((d.tracker index).add start (start + length)).2 = 0) :
    Booked (d.feed index start length) := by
  refine ⟨booked.tallied, ?_, booked.asked, booked.timed, booked.listed, booked.marked, ?_⟩
  · intro none
    cases torrent.symm.trans none
  · intro u i place same known inside b below full
    refine booked.covered u i place same known inside b below ?_
    rw [cells_feed exact] at full
    split_ifs at full with own
    · rw [PieceBytes.add_count exact, card_eq_zero, sdiff_eq_empty_iff_subset] at nothing
      rw [← own]
      have same : d.cells index ∪ Ico start (start + length) = d.cells index := union_eq_left.mpr nothing
      rwa [same] at full
    · exact full

theorem Booked.store (booked : Booked d) (torrent : d.torrent = some t) (known : t.pieceInfo index = .ok info)
    (exact : (d.tracker index).Exact) (inside : start + length ≤ info.len) (small : info.len < 2 ^ 32)
    (free : ∀ b ∈ overlapped start length, d.pieces.blockRequested index (b % 2 ^ 16) = false) :
    Booked { d.feed index start length with
      pieces := (overlapped start length).foldl (markCovered index info.len (blockCountFor info.len)
        ((d.tracker index).add start (start + length)).1) d.pieces } := by
  have sized : blockCountFor info.len = blocksOf d.torrent index := by simp [blocksOf, torrent, known]
  obtain ⟨tallied, more, marked⟩ := markAllCovered_spec sized booked.tallied free
  have fields := fields_markAllCovered index info.len (blockCountFor info.len)
    ((d.tracker index).add start (start + length)).1 (overlapped start length) d.pieces
  have requested := requested_markAllCovered index info.len (blockCountFor info.len)
    ((d.tracker index).add start (start + length)).1 (overlapped start length) d.pieces
  have normal := (PieceBytes.add_exact exact (show start + length ≤ 2 ^ 32 by omega) : (PieceBytes.add _ start _).1.Exact).normal
  refine ⟨tallied, ?_, booked.asked, booked.timed, ?_, ?_, ?_⟩
  · intro none
    cases torrent.symm.trans none
  · intro i b on
    rw [blockRequested, requested] at on
    exact booked.listed i b on
  · intro i b found below
    rw [fields.2] at below
    rw [isHave, fields.1, blockRequested, requested]
    exact booked.marked i b found below
  · intro u i place same located below b early full
    rw [fields.2] at below
    change window place.len b ⊆ (d.feed index start length).cells i at full
    rw [cells_feed exact] at full
    split_ifs at full with own
    · subst own
      rw [show u = t from Option.some.inj (same.symm.trans torrent), known] at located
      cases located
      by_cases touched : b ∈ overlapped start length
      · refine marked below b touched early ?_
        refine PieceBytes.coversIn_of_cells normal (window_filled early) ?_
        rw [PieceBytes.add_cells exact]
        exact full
      · apply more
        refine booked.covered t index info torrent known below b early ?_
        exact (window_disjoint touched).left_le_of_le_sup_right full
    · apply more
      exact booked.covered u i place same located below b early full

theorem Booked.unrequested_of_full (booked : Booked d) (torrent : d.torrent = some t)
    (known : t.pieceInfo index = .ok info) (full : d.cells index = range info.len) (b : Nat) :
    d.pieces.blockRequested index b = false := by
  by_contra still
  have on : d.pieces.blockRequested index b = true := by simpa using still
  obtain ⟨inside, placed, -⟩ := booked.tallied.requested on
  have early : b < blockCountFor info.len := by simpa [blocksOf, torrent, known] using placed
  have received := booked.covered t index info torrent known inside b early fun j member => by
    have bounds := mem_Ico.mp member
    have first := inside_of_lt_blockCountFor early
    rw [full, mem_range]
    omega
  rw [booked.tallied.lacking index b received] at on
  cases on

end Slate

/-! ### What chores do to the slate -/

section Chores
variable {H : Type} {w v : World H}

theorem slate_of_ledger (same : v.sess.ledger = w.sess.ledger) : v.sess.slate = w.sess.slate :=
  congrArg (fun l : Ledger => (⟨l.torrent, l.pieces, l.requestedBy, l.requestedAt, l.pieceBytes⟩ : Slate)) same

theorem slate_of_kept {s u : TorrentSession} (kept : u.kept = s.kept) (roster : u.roster = s.roster) :
    u.slate = s.slate := by
  have torrent : u.torrent = s.torrent := congrArg Kept.torrent kept
  have pieces : u.pieces = s.pieces := congrArg Kept.pieces kept
  have pieceBytes : u.pieceBytes = s.pieceBytes := congrArg Kept.pieceBytes kept
  have requestedBy : u.requestedBy = s.requestedBy := congrArg Roster.requestedBy roster
  have requestedAt : u.requestedAt = s.requestedAt := congrArg Roster.requestedAt roster
  rw [slate, torrent, pieces, pieceBytes, requestedBy, requestedAt]
  rfl

theorem slate_foldl {α σ : Type} (view : σ → Slate) {f : σ → α → σ} (each : ∀ s a, view (f s a) = view s) (l : List α)
    (s : σ) : view (l.foldl f s) = view s := by
  induction l generalizing s with
  | nil => rfl
  | cons a tail ih => exact (ih (f s a)).trans (each s a)

def Slate.strikes (keys : List BlockKey) (d : Slate) : Slate :=
  keys.foldl (fun d k => d.strike (ofLex k).1 (ofLex k).2) d

theorem Booked.strikes {d : Slate} (booked : Booked d) (keys : List BlockKey) : Booked (d.strikes keys) := by
  induction keys generalizing d with
  | nil => exact booked
  | cons k tail ih => exact ih (booked.strike (ofLex k).1 (ofLex k).2)

theorem frame_strikes (keys : List BlockKey) (d : Slate) :
    (d.strikes keys).torrent = d.torrent ∧ (d.strikes keys).pieceBytes = d.pieceBytes := by
  induction keys generalizing d with
  | nil => exact ⟨rfl, rfl⟩
  | cons k tail ih => exact ih (d.strike (ofLex k).1 (ofLex k).2)

theorem requestedBy_strikes (keys : List BlockKey) (d : Slate) (k : BlockKey) :
    (d.strikes keys).requestedBy.get? k = if k ∈ keys then none else d.requestedBy.get? k := by
  induction keys generalizing d with
  | nil => rfl
  | cons j tail ih =>
    refine (ih (d.strike (ofLex j).1 (ofLex j).2)).trans ?_
    have first : (d.strike (ofLex j).1 (ofLex j).2).requestedBy.get? k = if j = k then none else d.requestedBy.get? k :=
      get?_erase ..
    rw [first]
    by_cases later : k ∈ tail
    · rw [if_pos later, if_pos (List.mem_cons_of_mem j later)]
    · by_cases same : j = k
      · rw [if_neg later, if_pos same, if_pos (same ▸ List.mem_cons_self)]
      · rw [if_neg later, if_neg same, if_neg (by simp [later, Ne.symm same])]

theorem slate_releaseBlocks (keys : List BlockKey) {d : Slate} {m : OrdMap BlockKey (List ConnId)}
    (start : w.sess.slate = { d with requestedBy := m }) :
    (keys.foldl (fun w k => w.map (fun s => s.releaseBlock k)) w).sess.slate = { d.strikes keys with requestedBy := m } := by
  induction keys generalizing w d with
  | nil => exact start
  | cons k tail ih =>
    refine ih (w := w.map (fun s => s.releaseBlock k)) (d := d.strike (ofLex k).1 (ofLex k).2) ?_
    exact congrArg (fun e : Slate => (⟨e.torrent, e.pieces.clearBlockRequested (ofLex k).1 (ofLex k).2
      (blocksOf e.torrent (ofLex k).1), e.requestedBy, e.requestedAt.erase k, e.pieceBytes⟩ : Slate)) start

theorem slate_detach (conn : ConnId) (w : World H) :
    (releaseRequests conn (w.map (fun s => { s with peers := s.peers.erase conn }))).sess.slate =
      { w.sess.slate.strikes (askedAlone conn w.sess.requestedBy) with
        requestedBy := struckOut conn w.sess.requestedBy } := by
  unfold releaseRequests
  dsimp only
  apply slate_releaseBlocks
  simp only [World.map, slate, sess_inflightDecs]
  rfl

theorem isSome_struckOut {conn : ConnId} {m : OrdMap BlockKey (List ConnId)}
    (asked : ∀ k reqs, m.get? k = some reqs → reqs ≠ []) (k : BlockKey) :
    ((struckOut conn m).get? k).isSome = (if k ∈ askedAlone conn m then none else m.get? k).isSome := by
  have alone : k ∈ askedAlone conn m ↔ ∃ reqs, m.get? k = some reqs ∧ conn ∈ reqs ∧ reqs.erase conn = [] := by
    unfold askedAlone
    simp only [List.mem_map, List.mem_filter, List.contains_iff_mem, List.isEmpty_iff]
    constructor
    · rintro ⟨e, ⟨⟨listed, here⟩, empty⟩, rfl⟩
      exact ⟨e.2, (mem_entries_iff m e.1 e.2).mp listed, here, empty⟩
    · rintro ⟨reqs, found, here, empty⟩
      exact ⟨(k, reqs), ⟨⟨(mem_entries_iff m k reqs).mpr found, here⟩, empty⟩, rfl⟩
  rw [struckOut, get?_filter, get?_mapValues]
  cases found : m.get? k with
  | none => simp
  | some reqs =>
    rw [Option.map_some, Option.filter_some]
    by_cases listed : k ∈ askedAlone conn m
    · obtain ⟨others, same, here, empty⟩ := alone.mp listed
      rw [found] at same
      cases same
      rw [if_pos listed, empty]
      rfl
    · have left : reqs.erase conn ≠ [] := by
        intro empty
        by_cases here : conn ∈ reqs
        · exact listed (alone.mpr ⟨reqs, found, here, empty⟩)
        · rw [List.erase_of_not_mem here] at empty
          exact asked k reqs found empty
      rw [if_neg listed]
      simp [left]

theorem booked_parting (parting : Parting w v) (booked : Booked w.sess.slate) : Booked v.sess.slate := by
  cases parting with
  | idle same => exact slate_of_ledger same.ledger ▸ booked
  | detach conn attached =>
    rw [slate_detach]
    refine (booked.strikes _).relist _ (fun k => ?_) (fun k reqs found => (get?_struckOut found).1)
    rw [requestedBy_strikes]
    exact isSome_struckOut booked.asked k

theorem slate_cancelSkipped (w : World H) (k : BlockKey) :
    (cancelSkipped w k).sess.slate = w.sess.slate ∨
      (cancelSkipped w k).sess.slate = w.sess.slate.strike (ofLex k).1 (ofLex k).2 := by
  unfold cancelSkipped
  split
  · exact .inl rfl
  · rename_i reqs found
    right
    have cancelled := slate_foldl (fun w : World H => w.sess.slate) (f := cancelRequester (ofLex k).1 (ofLex k).2)
      (fun _ _ => rfl) reqs (w.map (fun s => { s with requestedBy := s.requestedBy.erase k }))
    exact slate_releaseBlocks [k] (d := w.sess.slate) (m := w.sess.requestedBy.erase k) cancelled

theorem slate_timeoutBlock (maxTimeouts : Nat) (acc : World H × List ConnId) (k : BlockKey) :
    (timeoutBlock maxTimeouts acc k).1.sess.slate = acc.1.sess.slate ∨
      (timeoutBlock maxTimeouts acc k).1.sess.slate = acc.1.sess.slate.strike (ofLex k).1 (ofLex k).2 := by
  unfold timeoutBlock
  split
  · exact .inl rfl
  · rename_i reqs found
    right
    have timedOut := slate_foldl (fun acc : World H × List ConnId => acc.1.sess.slate)
      (f := timeoutRequester (ofLex k).1 (ofLex k).2 maxTimeouts) (fun _ _ => rfl) reqs acc
    dsimp only
    generalize reqs.foldl (timeoutRequester (ofLex k).1 (ofLex k).2 maxTimeouts) acc = out at timedOut ⊢
    have listed := congrArg (fun d : Slate => { d with requestedBy := d.requestedBy.erase k }) timedOut
    exact slate_releaseBlocks [k] (w := out.1.map (fun s => { s with requestedBy := s.requestedBy.erase k }))
      (d := acc.1.sess.slate) (m := acc.1.sess.requestedBy.erase k) listed

theorem booked_withdraw {conn : ConnId} {index start : Nat} {reqs : List ConnId} (booked : Booked w.sess.slate)
    (found : w.sess.requestedBy.get? (blockKey index (start / BLOCK_LEN % 2 ^ 16)) = some reqs) (listed : conn ∈ reqs) :
    Booked (cancelPeerRequest conn index start w).2.sess.slate := by
  have outstanding : (w.sess.requestedBy.get? (blockKey index (start / BLOCK_LEN % 2 ^ 16))).filter
      (fun reqs => reqs.contains conn) = some reqs := by
    rw [found, Option.filter_some, if_pos (List.contains_iff_mem.mpr listed)]
  unfold cancelPeerRequest
  simp only [outstanding]
  split_ifs with last
  · exact booked.strike index (start / BLOCK_LEN % 2 ^ 16)
  · refine booked.relist (w.sess.requestedBy.insert _ (reqs.erase conn)) (fun k => ?_) (fun k others there => ?_)
    · rw [get?_insert]
      split_ifs with same
      · rw [← same, show w.sess.slate.requestedBy.get? _ = some reqs from found]
        rfl
      · rfl
    · rw [get?_insert] at there
      split_ifs at there
      · cases there
        simpa using last
      · exact booked.asked k others there

theorem booked_installed (env : Env) (t : Torrent) (absent : w.sess.torrent = none) (booked : Booked w.sess.slate) :
    Booked (installed env t w.sess).slate := by
  obtain ⟨unasked, untouched⟩ := booked.bare absent
  have fresh := installed_spec env t w.sess
  have roster : (installed env t w.sess).roster = w.sess.roster := roster_recomputePriorities _
  have requestedBy : (installed env t w.sess).requestedBy = w.sess.requestedBy := congrArg Roster.requestedBy roster
  have requestedAt : (installed env t w.sess).requestedAt = w.sess.requestedAt := congrArg Roster.requestedAt roster
  have pieces : (installed env t w.sess).pieces = PieceTracker.new t.pieceCount t.pieceLength := fresh.pieces
  refine booked_fresh (fun k => ?_) (fun k => ?_) (fun i => ?_) ?_ ?_
  · change (installed env t w.sess).requestedBy.get? k = none
    rw [requestedBy]
    exact unasked k
  · change (installed env t w.sess).requestedAt.get? k = none
    have timed : (w.sess.requestedAt.get? k).isSome = (w.sess.slate.requestedBy.get? k).isSome := booked.timed k
    rw [unasked k] at timed
    rw [requestedAt]
    exact Option.isNone_iff_eq_none.mp (by simpa using timed)
  · change (installed env t w.sess).pieceBytes.get? i = none
    rw [fresh.pieceBytes]
    exact untouched i
  · change (installed env t w.sess).pieces.Tallied _
    rw [pieces]
    exact tallied_new ..
  · intro i b
    change (installed env t w.sess).pieces.blockRequested i b = false
    rw [pieces]
    rfl

theorem booked_initial {s : TorrentSession} (initial : Initial s) : Booked s.slate := by
  obtain ⟨roster, -, ⟨count, length, bits, fresh⟩, -⟩ := unasked_initial initial
  have requestedBy : s.requestedBy = ∅ := congrArg Roster.requestedBy roster
  have requestedAt : s.requestedAt = ∅ := congrArg Roster.requestedAt roster
  have pieceBytes := (nothing_gathered_initial initial).1
  refine booked_fresh (fun k => ?_) (fun k => ?_) (fun i => ?_) ?_ fun i b => ?_
  · simp [slate, requestedBy]
  · simp [slate, requestedAt]
  · simp [slate, pieceBytes]
  · change s.pieces.Tallied _
    rw [fresh]
    exact ⟨nofun, rfl, nofun, nofun, nofun, nofun⟩
  · change s.pieces.blockRequested i b = false
    rw [fresh]
    rfl

theorem booked_chore (chore : Chore w v) (sound : Sound w.sess) (booked : Booked w.sess.slate) :
    Booked v.sess.slate := by
  cases chore with
  | part parting => exact booked_parting parting booked
  | commit conn piece inside => exact booked
  | release conn w => exact booked
  | issue env conn piece block len attached pledged torrent known wanted free room =>
    rename_i p t info
    have blocks : blocksOf w.sess.torrent piece = blockCountFor info.len := by simp [blocksOf, torrent, known]
    have placed : block < blocksOf w.sess.torrent piece := blocks ▸ (Picker.pickBlock_eq_some free).2.1
    have issued := booked.issue torrent placed (Picker.pickBlock_unreceived free) conn env.now
    change Booked ⟨w.sess.torrent, w.sess.pieces.markBlockRequested piece block (blockCountFor info.len), _, _, _⟩
    rw [← blocks]
    exact issued
  | cancel w k =>
    rcases slate_cancelSkipped w k with same | struck
    · exact same ▸ booked
    · exact struck ▸ booked.strike _ _
  | timeout maxTimeouts w toBan k =>
    rcases slate_timeoutBlock maxTimeouts (w, toBan) k with same | struck
    · exact same ▸ booked
    · exact struck ▸ booked.strike _ _
  | withdraw conn index start found outstanding => exact booked_withdraw booked found outstanding
  | judge w index => exact booked
  | take w => exact booked
  | fetch fetched window traced =>
    obtain ⟨flights, pieces⟩ := fetched.pieces
    have lifted := booked.lift flights pieces ((congrArg (fun t => t.inFlight.len) pieces).symm.trans fetched.raised.length)
      (fun i aloft => (congrArg (fun t => t.isInFlight i) pieces).symm.trans (fetched.raised.flights i aloft))
    have torrent : v.sess.torrent = w.sess.torrent := congrArg Ledger.torrent fetched.ledger
    have requestedBy : v.sess.requestedBy = w.sess.requestedBy := congrArg Ledger.requestedBy fetched.ledger
    have requestedAt : v.sess.requestedAt = w.sess.requestedAt := congrArg Ledger.requestedAt fetched.ledger
    have pieceBytes : v.sess.pieceBytes = w.sess.pieceBytes := congrArg Ledger.pieceBytes fetched.ledger
    rw [slate, torrent, requestedBy, requestedAt, pieceBytes]
    exact lifted
  | install env t absent => exact booked_installed env t (sound.absent absent) booked
  | refetch fails fetching => exact booked
  | abandon fails fetching => exact booked
  | fail w => exact booked

end Chores

/-! ### Piece messages and verdicts -/

section Pieces
variable {H : Type} {w : World H} {conn : ConnId} {index start : Nat} {data : Bytes} {t : Torrent} {info : PieceInfo}

theorem slate_resolveBlock (conn : ConnId) (start length totalBlocks : Nat) (sized : totalBlocks = blocksOf w.sess.torrent index) (b : Nat) :
    (resolveBlock conn index start length totalBlocks w b).sess.slate = w.sess.slate.strike index (b % 2 ^ 16) := by
  have resolved := slate_foldl (fun w : World H => w.sess.slate) (f := resolveRequest conn index start length)
    (fun v c => by unfold resolveRequest; dsimp only; split_ifs <;> rfl)
    ((w.sess.requestedBy.get? (blockKey index (b % 2 ^ 16))).getD []) w
  have struck := congrArg (fun d : Slate => (⟨d.torrent, d.pieces.clearBlockRequested index (b % 2 ^ 16) totalBlocks,
    d.requestedBy.erase (blockKey index (b % 2 ^ 16)), d.requestedAt.erase (blockKey index (b % 2 ^ 16)),
    d.pieceBytes⟩ : Slate)) resolved
  refine struck.trans ?_
  rw [sized]
  rfl

theorem slate_resolveBlocks (conn : ConnId) (start length totalBlocks : Nat) (sized : totalBlocks = blocksOf w.sess.torrent index)
    (blocks : List Nat) :
    (blocks.foldl (resolveBlock conn index start length totalBlocks) w).sess.slate =
      w.sess.slate.strikes (blocks.map fun b => blockKey index (b % 2 ^ 16)) := by
  induction blocks generalizing w with
  | nil => rfl
  | cons b tail ih =>
    have first := slate_resolveBlock conn start length totalBlocks sized b
    have torrent := congrArg Slate.torrent first
    refine (ih (w := resolveBlock conn index start length totalBlocks w b) ?_).trans ?_
    · exact sized.trans (congrArg (fun t => blocksOf t index) torrent.symm)
    · rw [first]
      rfl

theorem Booked.unrequested_of_struck {d : Slate} (booked : Booked d) {keys : List BlockKey} {i b : Nat}
    (struck : blockKey i b ∈ keys) : (d.strikes keys).pieces.blockRequested i b = false := by
  by_contra still
  have listed := (booked.strikes keys).listed i b (by simpa using still)
  rw [requestedBy_strikes, if_pos struck] at listed
  cases listed

theorem booked_storeBytes (booked : Booked w.sess.slate) (torrent : w.sess.torrent = some t)
    (known : t.pieceInfo index = .ok info) (exact : (w.sess.tracker index).Exact)
    (inside : start + data.length ≤ info.len)
    (free : ∀ b ∈ overlapped start data.length, w.sess.pieces.blockRequested index (b % 2 ^ 16) = false) :
    Booked (storeBytes conn index start data info.len w).sess.slate := by
  have stored := booked.store torrent known exact inside (pieceInfo_len_lt known) free
  unfold storeBytes
  dsimp only
  split_ifs with duplicate complete
  · exact booked.duplicate torrent exact duplicate
  · unfold handOver
    split
    · exact stored
    · exact stored.takeOff index
  · exact stored

theorem booked_acceptPiece (env : Env) (conn : ConnId) (booked : Booked w.sess.slate) (torrent : w.sess.torrent = some t)
    (known : t.pieceInfo index = .ok info) (exact : (w.sess.tracker index).Exact)
    (inside : start + data.length ≤ info.len) :
    Booked (acceptPiece env conn index start data info.len w).sess.slate := by
  have sized : blockCountFor info.len = blocksOf w.sess.torrent index := by simp [blocksOf, torrent, known]
  have resolved := slate_resolveBlocks conn start data.length _ sized (overlapped start data.length)
  unfold acceptPiece
  dsimp only
  generalize (overlapped start data.length).foldl
    (resolveBlock conn index start data.length (blockCountFor info.len)) w = v at resolved ⊢
  have kept := frame_strikes ((overlapped start data.length).map fun b => blockKey index (b % 2 ^ 16)) w.sess.slate
  have torrent' : v.sess.torrent = some t := ((congrArg Slate.torrent resolved).trans kept.1).trans torrent
  have pieceBytes : v.sess.pieceBytes = w.sess.pieceBytes := (congrArg Slate.pieceBytes resolved).trans kept.2
  have tracker : v.sess.tracker index = w.sess.tracker index := by
    rw [tracker, pieceBytes]
    rfl
  refine booked_storeBytes ?_ torrent' known ?_ inside ?_
  · exact resolved ▸ booked.strikes _
  · change (v.sess.tracker index).Exact
    rw [tracker]
    exact exact
  · intro b member
    have struck := booked.unrequested_of_struck (List.mem_map_of_mem (f := fun b => blockKey index (b % 2 ^ 16)) member)
    rw [← resolved] at struck
    exact struck

end Pieces
end TypeBit.Session
