import TypeBit.Metainfo.Spans
import TypeBit.Session.Disk
import Mathlib.Order.Bounds.Basic

/-! Selective download: the multipliers that the file priorities give the pieces, and the files that are
opened for them. Both follow the wanted bytes for every choice of priorities exactly when the torrent's
files are aligned with its pieces. -/

namespace TypeBit.Session
open Metainfo

def FilePriority.multiplier : FilePriority → Int
  | .skip => 0
  | .normal => 1
  | .high => 4

def Wanted (t : Torrent) (multipliers : List Int) (k : Nat) : Prop :=
  ∃ p m, multipliers[p]? = some m ∧ 0 < m ∧ t.Shares p k

def StaysOpen (t : Torrent) (s : TorrentSession) (k : Nat) : Prop :=
  s.files.length = t.files.length ∧ (handle s.files k).isSome = true

/-- The multipliers follow the wanted bytes, and so do the files that are opened. -/
structure SelectsWanted (t : Torrent) (priorities : List FilePriority) : Prop where
  positive : ∀ p m, (computePiecePriorities t priorities).1[p]? = some m →
    (0 < m ↔ ∃ k, t.Shares p k ∧ priorities.getD k .normal ≠ .skip)
  highest : ∀ p m, (computePiecePriorities t priorities).1[p]? = some m → 0 < m →
    IsGreatest { x | ∃ k, t.Shares p k ∧ priorities.getD k .normal ≠ .skip ∧
      x = (priorities.getD k .normal).multiplier } m
  length : (computePiecePriorities t priorities).1.length = t.pieceCount
  counted : (computePiecePriorities t priorities).2 =
    (computePiecePriorities t priorities).1.countP (fun m => decide (0 < m))
  opens : ∀ {H : Type} (host : Host H) (w : World H), w.sess.torrent = some t →
    w.sess.pieces.pieceCount = t.pieceCount → w.sess.piecePriorities = (computePiecePriorities t priorities).1 →
    ∀ k, ((handle (openFiles host w).2.sess.files k).isSome = true →
        StaysOpen t w.sess k ∨ Wanted t (computePiecePriorities t priorities).1 k) ∧
      (StaysOpen t w.sess k → (handle (openFiles host w).2.sess.files k).isSome = true) ∧
      ((openFiles host w).1 = .ok () → Wanted t (computePiecePriorities t priorities).1 k →
        (handle (openFiles host w).2.sess.files k).isSome = true)

/-! ### The walk over the files -/

section Walk
variable {pl n : Nat}

def InFile (pl : Nat) (files : List FileEntry) (abs p k : Nat) : Prop :=
  ∃ f, files[k]? = some f ∧ (abs + ((lengths files).take k).sum) / pl ≤ p ∧
    p * pl < abs + ((lengths files).take k).sum + f.length

theorem inFile_zero (f : FileEntry) (tail : List FileEntry) (abs p : Nat) :
    InFile pl (f :: tail) abs p 0 ↔ abs / pl ≤ p ∧ p * pl < abs + f.length := by
  simp [InFile]

theorem inFile_succ (f : FileEntry) (tail : List FileEntry) (abs p k : Nat) :
    InFile pl (f :: tail) abs p (k + 1) ↔ InFile pl tail (abs + f.length) p k := by
  simp [InFile, lengths_cons, Nat.add_assoc]

theorem inFile_spans (t : Torrent) (p k : Nat) : InFile t.pieceLength t.files 0 p k ↔ t.Spans p k := by
  simp [InFile, Torrent.Spans, Torrent.startOf]

theorem mem_filePieces (positive : 0 < pl) {abs len p : Nat} (below : p < n) (fits : abs + len < 2 ^ 64) :
    (filePieces pl n abs len).1 ≤ p ∧ p < (filePieces pl n abs len).2 ↔ abs / pl ≤ p ∧ p * pl < abs + len := by
  have last : p < divCeil (abs + len) pl ↔ p * pl < abs + len := Tiling.lt_count_iff positive
  simp only [filePieces, wadd_of_lt fits]
  omega

theorem length_markPieces (flags : List Bool) (range : Nat × Nat) : (markPieces flags range).length = flags.length := by
  simp [markPieces]

theorem getD_markPieces {flags : List Bool} {p : Nat} (below : p < flags.length) (range : Nat × Nat) :
    (markPieces flags range).getD p false = true ↔ flags.getD p false = true ∨ range.1 ≤ p ∧ p < range.2 := by
  simp [markPieces, List.getD_eq_getElem?_getD, below]

def MarkedBy (pl : Nat) (priorities : List FilePriority) (prio : FilePriority) (files : List FileEntry)
    (fi abs p : Nat) : Prop :=
  ∃ k, InFile pl files abs p k ∧ priorities.getD (fi + k) .normal = prio

theorem markedBy_nil (priorities : List FilePriority) (prio : FilePriority) (fi abs p : Nat) :
    ¬ MarkedBy pl priorities prio [] fi abs p := by
  rintro ⟨k, ⟨f, found, _⟩, _⟩
  cases found

theorem markedBy_cons (priorities : List FilePriority) (prio : FilePriority) (f : FileEntry) (tail : List FileEntry)
    (fi abs p : Nat) :
    MarkedBy pl priorities prio (f :: tail) fi abs p ↔
      (priorities.getD fi .normal = prio ∧ abs / pl ≤ p ∧ p * pl < abs + f.length) ∨
        MarkedBy pl priorities prio tail (fi + 1) (abs + f.length) p := by
  constructor
  · rintro ⟨k, inside, same⟩
    cases k with
    | zero => exact Or.inl ⟨same, (inFile_zero f tail abs p).mp inside⟩
    | succ k => exact Or.inr ⟨k, (inFile_succ f tail abs p k).mp inside, by rw [Nat.add_right_comm]; exact same⟩
  · rintro (⟨same, inside⟩ | ⟨k, inside, same⟩)
    · exact ⟨0, (inFile_zero f tail abs p).mpr inside, same⟩
    · exact ⟨k + 1, (inFile_succ f tail abs p k).mpr inside, by rw [← Nat.add_assoc, Nat.add_right_comm]; exact same⟩

theorem priorityFlags_spec (positive : 0 < pl) (priorities : List FilePriority) {files : List FileEntry} {fi abs : Nat}
    {need high : List Bool} (fits : abs + (lengths files).sum < 2 ^ 64) (sizedNeed : need.length = n)
    (sizedHigh : high.length = n) {p : Nat} (below : p < n) :
    ((priorityFlags pl n priorities files fi abs need high).1.getD p false = true ↔
        need.getD p false = true ∨ MarkedBy pl priorities .normal files fi abs p) ∧
      ((priorityFlags pl n priorities files fi abs need high).2.getD p false = true ↔
        high.getD p false = true ∨ MarkedBy pl priorities .high files fi abs p) := by
  induction files generalizing fi abs need high with
  | nil => simp [priorityFlags, markedBy_nil]
  | cons f tail ih =>
    rw [lengths_cons, List.sum_cons] at fits
    have next : satAdd abs f.length = abs + f.length := by
      unfold satAdd
      omega
    have rest : abs + f.length + (lengths tail).sum < 2 ^ 64 := by omega
    have range := mem_filePieces positive below (show abs + f.length < 2 ^ 64 by omega)
    rw [priorityFlags, next, markedBy_cons, markedBy_cons]
    cases chosen : priorities.getD fi .normal with
    | skip =>
      obtain ⟨first, second⟩ := @ih (fi + 1) (abs + f.length) _ _ rest sizedNeed sizedHigh
      simpa using ⟨first, second⟩
    | normal =>
      obtain ⟨first, second⟩ := @ih (fi + 1) (abs + f.length) _ _ rest
        ((length_markPieces need (filePieces pl n abs f.length)).trans sizedNeed) sizedHigh
      rw [getD_markPieces (sizedNeed ▸ below), range, or_assoc] at first
      simpa using ⟨first, second⟩
    | high =>
      obtain ⟨first, second⟩ := @ih (fi + 1) (abs + f.length) _ _ rest sizedNeed
        ((length_markPieces high (filePieces pl n abs f.length)).trans sizedHigh)
      rw [getD_markPieces (sizedHigh ▸ below), range, or_assoc] at second
      simpa using ⟨first, second⟩

end Walk

section Multipliers
variable {t : Torrent} (sound : Sound t) (priorities : List FilePriority)

def Marked (t : Torrent) (priorities : List FilePriority) (prio : FilePriority) (p : Nat) : Prop :=
  ∃ k, t.Spans p k ∧ priorities.getD k .normal = prio

theorem length_computePiecePriorities (t : Torrent) (priorities : List FilePriority) :
    (computePiecePriorities t priorities).1.length = t.pieceCount := by
  unfold computePiecePriorities
  dsimp only
  split_ifs with none
  · exact none.symm
  · simp

include sound in
theorem multiplier_cases {p : Nat} (below : p < t.pieceCount) :
    ((computePiecePriorities t priorities).1[p]? = some 4 ∧ Marked t priorities .high p) ∨
      ((computePiecePriorities t priorities).1[p]? = some 1 ∧ ¬ Marked t priorities .high p ∧
        Marked t priorities .normal p) ∨
      ((computePiecePriorities t priorities).1[p]? = some 0 ∧ ¬ Marked t priorities .high p ∧
        ¬ Marked t priorities .normal p) := by
  have marked : ∀ prio, MarkedBy t.pieceLength priorities prio t.files 0 0 p ↔ Marked t priorities prio p := by
    intro prio
    simp only [MarkedBy, Marked, inFile_spans, Nat.zero_add]
  have blank : (List.replicate t.pieceCount false).length = t.pieceCount := List.length_replicate
  have unset : (List.replicate t.pieceCount false).getD p false = false := by
    simp [List.getD_eq_getElem?_getD, below]
  have fits : 0 + (lengths t.files).sum < 2 ^ 64 := by
    have small := sound.fits
    omega
  obtain ⟨needed, high⟩ := @priorityFlags_spec _ _ sound.positive priorities t.files 0 0 _ _ fits blank blank p below
  rw [unset, marked] at needed high
  simp only [Bool.false_eq_true, false_or] at needed high
  unfold computePiecePriorities
  dsimp only
  rw [if_neg (by omega : t.pieceCount ≠ 0), List.getElem?_map, List.getElem?_range below, Option.map_some]
  by_cases top : Marked t priorities .high p
  · exact Or.inl ⟨by rw [if_pos (high.mpr top)], top⟩
  · by_cases wanted : Marked t priorities .normal p
    · exact Or.inr (Or.inl ⟨by rw [if_neg (mt high.mp top), if_pos (needed.mpr wanted)], top, wanted⟩)
    · exact Or.inr (Or.inr ⟨by rw [if_neg (mt high.mp top), if_neg (mt needed.mp wanted)], top, wanted⟩)

include sound in
theorem multiplier_pos_iff {p : Nat} {m : Int} (found : (computePiecePriorities t priorities).1[p]? = some m) :
    0 < m ↔ ∃ k, t.Spans p k ∧ priorities.getD k .normal ≠ .skip := by
  have below : p < t.pieceCount := by
    rw [← length_computePiecePriorities t priorities]
    exact (List.getElem?_eq_some_iff.mp found).1
  have marked : (∃ k, t.Spans p k ∧ priorities.getD k .normal ≠ .skip) ↔
      Marked t priorities .high p ∨ Marked t priorities .normal p := by
    constructor
    · rintro ⟨k, spans, chosen⟩
      cases prio : priorities.getD k .normal with
      | skip => exact absurd prio chosen
      | normal => exact Or.inr ⟨k, spans, prio⟩
      | high => exact Or.inl ⟨k, spans, prio⟩
    · rintro (⟨k, spans, prio⟩ | ⟨k, spans, prio⟩)
      · exact ⟨k, spans, by rw [prio]; decide⟩
      · exact ⟨k, spans, by rw [prio]; decide⟩
  rw [marked]
  rcases multiplier_cases sound priorities below with ⟨value, top⟩ | ⟨value, _, wanted⟩ | ⟨value, top, wanted⟩
  · cases found.symm.trans value
    simp [top]
  · cases found.symm.trans value
    simp [wanted]
  · cases found.symm.trans value
    simp [top, wanted]

include sound in
theorem multiplier_highest {p : Nat} {m : Int} (found : (computePiecePriorities t priorities).1[p]? = some m)
    (positive : 0 < m) :
    IsGreatest { x | ∃ k, t.Spans p k ∧ priorities.getD k .normal ≠ .skip ∧
      x = (priorities.getD k .normal).multiplier } m := by
  have below : p < t.pieceCount := by
    rw [← length_computePiecePriorities t priorities]
    exact (List.getElem?_eq_some_iff.mp found).1
  rcases multiplier_cases sound priorities below with ⟨value, k, spans, prio⟩ | ⟨value, top, k, spans, prio⟩ | ⟨value, _⟩
  · cases found.symm.trans value
    refine ⟨⟨k, spans, by rw [prio]; decide, by rw [prio]; rfl⟩, ?_⟩
    rintro x ⟨j, _, _, rfl⟩
    cases priorities.getD j .normal <;> decide
  · cases found.symm.trans value
    refine ⟨⟨k, spans, by rw [prio]; decide, by rw [prio]; rfl⟩, ?_⟩
    rintro x ⟨j, other, _, rfl⟩
    cases chosen : priorities.getD j .normal with
    | skip => decide
    | normal => decide
    | high => exact absurd ⟨j, other, chosen⟩ top
  · cases found.symm.trans value
    exact absurd positive (lt_irrefl 0)

end Multipliers

/-! ### Opening files -/

section Opening
variable {H : Type} (host : Host H)

/-- The file numbered `k` of a list that starts at `abs` spans a piece with a positive multiplier. -/
def Selected (pl n : Nat) (multipliers : List Int) (files : List FileEntry) (abs k : Nat) : Prop :=
  ∃ p m, p < n ∧ multipliers[p]? = some m ∧ 0 < m ∧ InFile pl files abs p k

theorem fileHasSelectedPiece_iff {s : TorrentSession} {pl abs : Nat} {f : FileEntry} (tail : List FileEntry)
    (positive : 0 < pl) (fits : abs + f.length < 2 ^ 64) :
    fileHasSelectedPiece s abs f.length pl = true ↔
      Selected pl s.pieces.pieceCount s.piecePriorities (f :: tail) abs 0 := by
  unfold fileHasSelectedPiece Selected
  simp only [List.any_eq_true, decide_eq_true_eq, inFile_zero]
  constructor
  · rintro ⟨m, member, positive'⟩
    obtain ⟨i, found⟩ := List.mem_iff_getElem?.mp member
    rw [List.getElem?_drop, List.getElem?_take] at found
    split_ifs at found with inside
    have below : (filePieces pl s.pieces.pieceCount abs f.length).1 + i < s.pieces.pieceCount :=
      lt_of_lt_of_le inside (Nat.min_le_right ..)
    exact ⟨_, m, below, found, positive', (mem_filePieces positive below fits).mp ⟨Nat.le_add_right .., inside⟩⟩
  · rintro ⟨p, m, below, found, positive', inside⟩
    obtain ⟨low, high⟩ := (mem_filePieces positive below fits).mpr inside
    refine ⟨m, List.mem_iff_getElem?.mpr ⟨p - (filePieces pl s.pieces.pieceCount abs f.length).1, ?_⟩, positive'⟩
    rw [List.getElem?_drop, List.getElem?_take, Nat.add_sub_cancel' low, if_pos high]
    exact found

theorem isSome_handle_set {files : List (Option Nat)} {fi k id : Nat} (inside : fi < files.length) :
    (handle (files.set fi (some id)) k).isSome = true ↔ k = fi ∨ (handle files k).isSome = true := by
  unfold handle
  rw [List.getElem?_set]
  by_cases same : fi = k
  · subst same
    simp [inside]
  · simp [same, Ne.symm same]

theorem openLoop_spec {pl : Nat} (positive : 0 < pl) {files : List FileEntry} {fi abs : Nat} {w : World H}
    (fits : abs + (lengths files).sum < 2 ^ 64) (room : fi + files.length ≤ w.sess.files.length) (k : Nat) :
    ((handle (openLoop host pl files fi abs w).2.sess.files k).isSome = true → (handle w.sess.files k).isSome = true ∨
        ∃ j, k = fi + j ∧ Selected pl w.sess.pieces.pieceCount w.sess.piecePriorities files abs j) ∧
      ((handle w.sess.files k).isSome = true →
        (handle (openLoop host pl files fi abs w).2.sess.files k).isSome = true) ∧
      ((openLoop host pl files fi abs w).1 = .ok () →
        ∀ j, k = fi + j → Selected pl w.sess.pieces.pieceCount w.sess.piecePriorities files abs j →
          (handle (openLoop host pl files fi abs w).2.sess.files k).isSome = true) := by
  induction files generalizing fi abs w with
  | nil =>
    refine ⟨Or.inl, id, ?_⟩
    rintro _ j _ ⟨p, m, _, _, _, f, found, _⟩
    cases found
  | cons f tail ih =>
    rw [lengths_cons, List.sum_cons] at fits
    rw [List.length_cons] at room
    have next : satAdd abs f.length = abs + f.length := by
      unfold satAdd
      omega
    have rest : abs + f.length + (lengths tail).sum < 2 ^ 64 := by omega
    have here := fileHasSelectedPiece_iff (s := w.sess) tail positive (show abs + f.length < 2 ^ 64 by omega)
    have later : ∀ j, Selected pl w.sess.pieces.pieceCount w.sess.piecePriorities (f :: tail) abs (j + 1) ↔
        Selected pl w.sess.pieces.pieceCount w.sess.piecePriorities tail (abs + f.length) j := by
      intro j
      simp only [Selected, inFile_succ]
    rw [openLoop, next]
    split
    · rename_i chosen
      obtain ⟨selected, closed⟩ := Bool.and_eq_true_iff.mp chosen
      split
      · rename_i e h refused
        exact ⟨Or.inl, id, nofun⟩
      · rename_i id_ h opened
        dsimp only
        generalize (if w.sess.cfg.preallocation = .off then h
          else host.diskPrealloc h id_ w.sess.cfg.preallocation f.length) = u
        have stored := fun k => @isSome_handle_set w.sess.files fi k id_ (by omega)
        obtain ⟨only, kept, all⟩ := @ih (fi + 1) (abs + f.length)
          ((w.setHost u).map (fun s => { s with files := s.files.set fi (some id_) })) rest
          (by simp only [World.map, World.setHost, List.length_set]; omega)
        simp only [World.map, World.setHost] at only kept all ⊢
        refine ⟨?_, ?_, ?_⟩
        · intro open_
          rcases only open_ with before | ⟨j, place, chosen⟩
          · rcases (stored k).mp before with mine | before
            · exact Or.inr ⟨0, by omega, here.mp selected⟩
            · exact Or.inl before
          · exact Or.inr ⟨j + 1, by omega, (later j).mpr chosen⟩
        · exact fun before => kept ((stored k).mpr (Or.inr before))
        · intro done j place chosen
          cases j with
          | zero => exact kept ((stored k).mpr (Or.inl (by omega)))
          | succ j => exact all done j (by omega) ((later j).mp chosen)
    · rename_i chosen
      obtain ⟨only, kept, all⟩ := @ih (fi + 1) (abs + f.length) w rest (by omega)
      refine ⟨?_, kept, ?_⟩
      · intro open_
        rcases only open_ with before | ⟨j, place, chosen⟩
        · exact Or.inl before
        · exact Or.inr ⟨j + 1, by omega, (later j).mpr chosen⟩
      · intro done j place selected
        cases j with
        | zero =>
          have open_ : (handle w.sess.files k).isSome = true := by
            rw [Bool.and_eq_true_iff, not_and] at chosen
            have isOpen := chosen (here.mpr selected)
            rw [show k = fi by omega]
            simpa [Option.isSome_iff_ne_none] using isOpen
          exact kept open_
        | succ j => exact all done j (by omega) ((later j).mp selected)

theorem openFiles_spec {t : Torrent} (sound : Sound t) {w : World H} (torrent : w.sess.torrent = some t) (k : Nat) :
    ((handle (openFiles host w).2.sess.files k).isSome = true → StaysOpen t w.sess k ∨
        Selected t.pieceLength w.sess.pieces.pieceCount w.sess.piecePriorities t.files 0 k) ∧
      (StaysOpen t w.sess k → (handle (openFiles host w).2.sess.files k).isSome = true) ∧
      ((openFiles host w).1 = .ok () →
        Selected t.pieceLength w.sess.pieces.pieceCount w.sess.piecePriorities t.files 0 k →
          (handle (openFiles host w).2.sess.files k).isSome = true) := by
  have fits : 0 + (lengths t.files).sum < 2 ^ 64 := by
    have small := sound.fits
    omega
  unfold openFiles
  simp only [torrent]
  by_cases same : w.sess.files.length = t.files.length
  · rw [if_neg (not_not.mpr same)]
    have room : 0 + t.files.length ≤ w.sess.files.length := by omega
    obtain ⟨only, kept, all⟩ := openLoop_spec host sound.positive fits room k
    refine ⟨?_, fun stays => kept stays.2, fun done selected => all done k (Nat.zero_add k).symm selected⟩
    intro opened
    rcases only opened with before | ⟨j, place, selected⟩
    · exact Or.inl ⟨same, before⟩
    · exact Or.inr (by rwa [place, Nat.zero_add])
  · rw [if_pos same]
    have closed : ∀ k, (handle (List.replicate t.files.length none) k).isSome = false := by
      intro k
      simp only [handle, List.getElem?_replicate]
      split_ifs <;> rfl
    have room : 0 + t.files.length ≤
        (w.map (fun s => { s with files := List.replicate t.files.length none })).sess.files.length := by
      simp [World.map]
    obtain ⟨only, kept, all⟩ := openLoop_spec host sound.positive fits room k
    refine ⟨?_, fun stays => absurd stays.1 same, fun done selected => all done k (Nat.zero_add k).symm selected⟩
    intro opened
    rcases only opened with before | ⟨j, place, selected⟩
    · rw [show (w.map (fun s => { s with files := List.replicate t.files.length none })).sess.files =
        List.replicate t.files.length none from rfl, closed] at before
      cases before
    · exact Or.inr (by rwa [place, Nat.zero_add])

end Opening

/-! ### Exactly the wanted bytes -/

section Exact
variable {t : Torrent}

theorem selectsWanted_of_agree (sound : Sound t) (agree : ∀ p < t.pieceCount, ∀ k, t.Shares p k ↔ t.Spans p k)
    (priorities : List FilePriority) : SelectsWanted t priorities := by
  have inside : ∀ {p m}, (computePiecePriorities t priorities).1[p]? = some m → p < t.pieceCount := by
    intro p m found
    rw [← length_computePiecePriorities t priorities]
    exact (List.getElem?_eq_some_iff.mp found).1
  refine ⟨?_, ?_, length_computePiecePriorities t priorities, ?_, ?_⟩
  · intro p m found
    simp only [agree p (inside found)]
    exact multiplier_pos_iff sound priorities found
  · intro p m found positive
    simp only [agree p (inside found)]
    exact multiplier_highest sound priorities found positive
  · unfold computePiecePriorities
    dsimp only
    split_ifs <;> rfl
  · intro H host w torrent count multipliers k
    have wanted : Selected t.pieceLength w.sess.pieces.pieceCount w.sess.piecePriorities t.files 0 k ↔
        Wanted t (computePiecePriorities t priorities).1 k := by
      rw [count, multipliers]
      constructor
      · rintro ⟨p, m, below, found, positive, spans⟩
        exact ⟨p, m, found, positive, (agree p below k).mpr ((inFile_spans t p k).mp spans)⟩
      · rintro ⟨p, m, found, positive, shares⟩
        exact ⟨p, m, inside found, found, positive, (inFile_spans t p k).mpr ((agree p (inside found) k).mp shares)⟩
    rw [← wanted]
    exact openFiles_spec host sound torrent k

theorem agree_of_selectsWanted (sound : Sound t) (exact_ : ∀ priorities, SelectsWanted t priorities) :
    ∀ p < t.pieceCount, ∀ k, t.Shares p k ↔ t.Spans p k := by
  intro p below k
  have single : ∀ j, j < t.files.length →
      (((List.replicate t.files.length FilePriority.skip).set k .normal).getD j .normal ≠ .skip ↔ j = k) := by
    intro j known
    rw [List.getD_eq_getElem?_getD, List.getElem?_set]
    by_cases same : k = j
    · subst same
      simp [known]
    · simp [same, Ne.symm same, known]
  have only : ∀ {R : Nat → Prop}, (∀ j, R j → j < t.files.length) →
      ((∃ j, R j ∧ ((List.replicate t.files.length FilePriority.skip).set k .normal).getD j .normal ≠ .skip) ↔ R k) := by
    intro R known
    constructor
    · rintro ⟨j, holds, chosen⟩
      exact (single j (known j holds)).mp chosen ▸ holds
    · exact fun holds => ⟨k, holds, (single k (known k holds)).mpr rfl⟩
  obtain ⟨m, found⟩ : ∃ m, (computePiecePriorities t ((List.replicate t.files.length FilePriority.skip).set k
      .normal)).1[p]? = some m :=
    ⟨_, List.getElem?_eq_getElem (by rw [length_computePiecePriorities]; exact below)⟩
  have byBytes := (exact_ ((List.replicate t.files.length FilePriority.skip).set k .normal)).positive p m found
  have byRange := multiplier_pos_iff sound ((List.replicate t.files.length FilePriority.skip).set k .normal) found
  rw [only (fun j shares => by
    obtain ⟨_, _, f, _, _, _, file, _⟩ := shares
    exact (List.getElem?_eq_some_iff.mp file).1)] at byBytes
  rw [only (fun j spans => by
    obtain ⟨f, file, _⟩ := spans
    exact (List.getElem?_eq_some_iff.mp file).1)] at byRange
  exact byBytes.symm.trans byRange

/-- Whatever the priorities, the multipliers and the open files of an accepted torrent follow the wanted
bytes, exactly when its files, for v1 its empty ones, start at piece boundaries. -/
theorem selects_wanted_iff (digests : Digests) (data : Bytes) (t : Torrent)
    (accepted : Torrent.fromBytes digests data = .ok t) (fits : (lengths t.files).sum < 2 ^ 64) :
    (∀ priorities, SelectsWanted t priorities) ↔ t.Aligned := by
  have sound := sound_of_fits (fromBytes_shaped accepted) fits
  have few := pieceCount_le_layoutPieces accepted
  constructor
  · exact fun exact_ => aligned_of_shares_iff_spans sound few (agree_of_selectsWanted sound exact_)
  · exact fun aligned => selectsWanted_of_agree sound
      (fun p below k => shares_iff_spans sound few aligned below k)

end Exact

def flatHash (b : UInt8) : Bytes := ascii "32:" ++ List.replicate 32 b

def twoFiles (first : String) : Bytes :=
  ascii "d4:infod9:file tree" ++
    ascii "d1:ad0:d6:lengthi" ++ ascii first ++ ascii "e11:pieces root" ++ flatHash 1 ++ ascii "ee" ++
    ascii "1:bd0:d6:lengthi1" ++ ascii "e11:pieces root" ++ flatHash 2 ++ ascii "eee" ++
    ascii "12:meta versioni2e" ++ ascii "4:name1:x" ++ ascii "12:piece lengthi16384ee" ++
    ascii "12:piece layersd" ++ flatHash 1 ++ flatHash 1 ++ flatHash 2 ++ flatHash 2 ++ ascii "ee"

/-- The first file fills its piece. -/
theorem selects_wanted_filled :
    ∃ t, Torrent.fromBytes zeroDigests (twoFiles "16384") = .ok t ∧ ∀ priorities, SelectsWanted t priorities := by
  have accepted : (Torrent.fromBytes zeroDigests (twoFiles "16384")).toOption.map
      (fun t => (lengths t.files, t.pieceLength)) = some ([16384, 1], 16384) := by
    decide +kernel
  obtain ⟨t, ok, sizes⟩ := map_toOption_eq_some.mp accepted
  simp only [Prod.mk.injEq] at sizes
  refine ⟨t, ok, (selects_wanted_iff zeroDigests (twoFiles "16384") t ok (by rw [sizes.1]; decide)).mpr ?_⟩
  intro k f file _
  have known := (List.getElem?_eq_some_iff.mp file).1
  have count : t.files.length = 2 := by
    have counted := congrArg List.length sizes.1
    rwa [lengths, List.length_map] at counted
  left
  rw [Torrent.startOf, sizes.1, sizes.2]
  rcases k with _ | _ | k
  · decide
  · decide
  · omega

/-- The first file does not: the piece of the second one is never asked for, with all files wanted. -/
theorem wanted_piece_unselected : ¬ ∀ (digests : Digests) (data : Bytes) (t : Torrent),
    Torrent.fromBytes digests data = .ok t → ∀ priorities, SelectsWanted t priorities := by
  intro always
  have accepted : (Torrent.fromBytes zeroDigests (twoFiles "1")).toOption.map
      (fun t => (t.files.map FileEntry.length, (computePiecePriorities t []).1, t.pieceInfo 1, t.pieceAbsOffset 1)) =
        some ([1, 1], [1, 0], .ok ⟨1, 0, 1⟩, .ok 1) := by
    decide +kernel
  obtain ⟨t, ok, computed⟩ := map_toOption_eq_some.mp accepted
  simp only [Prod.mk.injEq] at computed
  obtain ⟨sizes, multipliers, known, placed⟩ := computed
  have second : (t.files.map FileEntry.length)[1]? = some 1 := by rw [sizes]; rfl
  rw [List.getElem?_map] at second
  obtain ⟨f, file, size⟩ := Option.map_eq_some_iff.mp second
  have shares : t.Shares 1 1 := by
    refine ⟨_, 1, f, 1, known, placed, file, le_refl 1, by decide, ?_, ?_⟩
    · rw [Torrent.startOf, lengths, sizes]
      decide
    · rw [Torrent.startOf, lengths, sizes, size]
      decide
  have positive := ((always zeroDigests (twoFiles "1") t ok []).positive 1 0 (by rw [multipliers]; rfl)).mpr
    ⟨1, shares, by decide⟩
  exact absurd positive (lt_irrefl 0)

end TypeBit.Session
