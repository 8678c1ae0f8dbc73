import TypeBit.Session.Sound

/-! What is gathered of one piece: the range tracker, the buffer and the Piece messages since the
tracker was last cleared say the same, before and after every window that is stored. -/

namespace TypeBit.Session
open Metainfo Leech Wire Ranges Patch OrdMap Finset

/-! ### Histories -/

def remember (piece : Nat) (wins : List (Nat × Bytes)) : Effect → List (Nat × Bytes)
  | .supplied p start data => if p = piece then wins ++ [(start, data)] else wins
  | .cleared p => if p = piece then [] else wins
  | _ => wins

/-- The windows accepted for a piece since its byte tracker was last cleared. -/
def since (piece : Nat) (trace : List Effect) : List (Nat × Bytes) := trace.foldl (remember piece) []

theorem since_append (piece : Nat) (trace : List Effect) (e : Effect) :
    since piece (trace ++ [e]) = remember piece (since piece trace) e := by
  simp [since]

theorem since_quiet (piece : Nat) (trace : List Effect) {more : List Effect} (quiet : ∀ e ∈ more, e.quiet = true) :
    since piece (trace ++ more) = since piece trace := by
  induction more using List.reverseRecOn with
  | nil => rw [List.append_nil]
  | append_singleton more e ih =>
    rw [← List.append_assoc, since_append, ih (fun e' member => quiet e' (by simp [member]))]
    have silent := quiet e (by simp)
    cases e <;> first | rfl | cases silent

def TorrentSession.pieceLen (s : TorrentSession) (piece : Nat) : Option Nat :=
  s.torrent.bind (fun t => (t.pieceInfo piece).toOption.map PieceInfo.len)

theorem pieceLen_of_known {s : TorrentSession} {t : Torrent} {piece : Nat} {info : PieceInfo}
    (torrent : s.torrent = some t) (known : t.pieceInfo piece = .ok info) : s.pieceLen piece = some info.len := by
  rw [TorrentSession.pieceLen, torrent, Option.bind_some, known]
  rfl

theorem pieceInfo_len_lt {t : Torrent} {piece : Nat} {info : PieceInfo} (known : t.pieceInfo piece = .ok info) :
    info.len < 2 ^ 32 := by
  unfold Torrent.pieceInfo at known
  dsimp only at known
  split at known
  · split at known
    · cases known
    · obtain ⟨place, _, built⟩ := bind_eq_ok.mp known
      cases built
      exact Nat.mod_lt _ (by decide)
  · obtain ⟨place, _, built⟩ := bind_eq_ok.mp known
    cases built
    exact Nat.mod_lt _ (by decide)

/-! ### Filling a buffer -/

section Fill
variable {start : Nat} {data : Bytes} {gaps : List (Nat × Nat)}

theorem fillBuffer_spec (within : ∀ g ∈ gaps, start ≤ g.1 ∧ g.1 < g.2 ∧ g.2 ≤ start + data.length) {buf : Bytes}
    (fits : start + data.length ≤ buf.length) :
    (fillBuffer start data gaps buf).length = buf.length ∧
      ∀ j, (fillBuffer start data gaps buf)[j]? = if j ∈ cells gaps then data[j - start]? else buf[j]? := by
  induction gaps generalizing buf with
  | nil => simp [fillBuffer]
  | cons g tail ih =>
    obtain ⟨low, filled, high⟩ := within g (by simp)
    have part : ((data.drop (g.1 - start)).take (g.2 - g.1)).length = g.2 - g.1 := by
      rw [List.length_take, List.length_drop]
      omega
    have room : g.1 + ((data.drop (g.1 - start)).take (g.2 - g.1)).length ≤ buf.length := by omega
    have spliced := length_splice room
    obtain ⟨length, bytes⟩ := ih (fun g' member => within g' (by simp [member])) (by rw [spliced]; exact fits)
    refine ⟨length.trans spliced, fun j => (bytes j).trans ?_⟩
    rw [getElem?_splice room, part, cells_cons]
    by_cases later : j ∈ cells tail
    · rw [if_pos later, if_pos (mem_union_right _ later)]
    · by_cases now : j ∈ Ico g.1 g.2
      · have bounds := mem_Ico.mp now
        rw [if_neg later, if_pos (mem_union_left _ now), if_pos (by omega),
          List.getElem?_take_of_lt (by omega), List.getElem?_drop]
        congr 1
        omega
      · have outside : ¬ (g.1 ≤ j ∧ j < g.1 + (g.2 - g.1)) := by
          rw [mem_Ico] at now
          omega
        rw [if_neg later, if_neg outside, if_neg (by simp only [mem_union, now, later, or_self, not_false_eq_true])]

end Fill

/-! ### One piece -/

section Piece
variable {H : Type}

structure Gathered (w : World H) (piece : Nat) : Prop where
  exact : (w.sess.tracker piece).Exact
  covered : ∀ j, j ∈ cells (w.sess.tracker piece).ranges ↔ (first (since piece w.trace) j).isSome
  inside : ∀ j ∈ cells (w.sess.tracker piece).ranges, ∃ len, w.sess.pieceLen piece = some len ∧ j < len
  buffer : ∀ buf, w.sess.assembling.get? piece = some buf → w.sess.pieceLen piece = some buf.length ∧
    ∀ j ∈ cells (w.sess.tracker piece).ranges, buf[j]? = first (since piece w.trace) j
  absent : w.sess.assembling.get? piece = none → cells (w.sess.tracker piece).ranges = ∅ ∨
    ∃ len, w.sess.pieceLen piece = some len ∧ cells (w.sess.tracker piece).ranges = range len

theorem Gathered.congr {w v : World H} {piece : Nat} (gathered : Gathered w piece)
    (tracker : v.sess.tracker piece = w.sess.tracker piece)
    (assembling : v.sess.assembling.get? piece = w.sess.assembling.get? piece)
    (history : since piece v.trace = since piece w.trace)
    (lengths : ∀ len, w.sess.pieceLen piece = some len → v.sess.pieceLen piece = some len) : Gathered v piece := by
  refine ⟨tracker ▸ gathered.exact, ?_, ?_, ?_, ?_⟩
  · rw [tracker, history]
    exact gathered.covered
  · intro j member
    rw [tracker] at member
    obtain ⟨len, known, below⟩ := gathered.inside j member
    exact ⟨len, lengths len known, below⟩
  · intro buf found
    rw [assembling] at found
    rw [tracker, history]
    obtain ⟨length, bytes⟩ := gathered.buffer buf found
    exact ⟨lengths _ length, bytes⟩
  · intro none
    rw [assembling] at none
    rw [tracker]
    rcases gathered.absent none with empty | ⟨len, known, full⟩
    · exact Or.inl empty
    · exact Or.inr ⟨len, lengths len known, full⟩

theorem gathered_nothing {w : World H} {piece : Nat} (tracker : w.sess.pieceBytes.get? piece = none)
    (assembling : w.sess.assembling.get? piece = none) (history : since piece w.trace = []) : Gathered w piece := by
  have empty : w.sess.tracker piece = PieceBytes.new := by rw [TorrentSession.tracker, tracker, Option.getD_none]
  refine ⟨empty ▸ PieceBytes.exact_new, ?_, ?_, ?_, ?_⟩
  · simp [empty, history, PieceBytes.new, first]
  · simp [empty, PieceBytes.new]
  · intro buf found
    rw [assembling] at found
    cases found
  · exact fun _ => Or.inl (by simp [empty, PieceBytes.new])

variable {w : World H} {index start : Nat} {data : Bytes} {len : Nat}

theorem first_supplied (w : World H) (index start : Nat) (data : Bytes) (j : Nat) :
    first (since index (w.emit (.supplied index start data)).trace) j =
      (first (since index w.trace) j).or (covering (start, data) j) := by
  rw [World.emit, since_append, remember, if_pos rfl, first_append]

theorem covered_supplied (gathered : Gathered w index) (j : Nat) :
    j ∈ cells ((w.sess.tracker index).add start (start + data.length)).1.ranges ↔
      (first (since index (w.emit (.supplied index start data)).trace) j).isSome := by
  rw [PieceBytes.add_cells gathered.exact, mem_union, mem_Ico, first_supplied, Option.isSome_or,
    Bool.or_eq_true, gathered.covered, isSome_covering]

theorem first_supplied_old (gathered : Gathered w index) {j : Nat}
    (old : j ∈ cells (w.sess.tracker index).ranges) :
    first (since index (w.emit (.supplied index start data)).trace) j = first (since index w.trace) j := by
  obtain ⟨b, present⟩ := Option.isSome_iff_exists.mp ((gathered.covered j).mp old)
  rw [first_supplied, present, Option.some_or]

theorem first_supplied_new (gathered : Gathered w index) {j : Nat}
    (missing : j ∉ cells (w.sess.tracker index).ranges) (inside : start ≤ j) :
    first (since index (w.emit (.supplied index start data)).trace) j = data[j - start]? := by
  have none : first (since index w.trace) j = none := by
    rw [gathered.covered, Option.not_isSome_iff_eq_none] at missing
    exact missing
  rw [first_supplied, none, Option.none_or, covering, if_pos inside]

theorem add_full (gathered : Gathered w index) (full : cells (w.sess.tracker index).ranges = range len)
    (inside : start + data.length ≤ len) : ((w.sess.tracker index).add start (start + data.length)).2 = 0 := by
  rw [PieceBytes.add_count gathered.exact, full, card_eq_zero, sdiff_eq_empty_iff_subset]
  intro j member
  have bounds := mem_Ico.mp member
  exact mem_range.mpr (by omega)

theorem base_spec (gathered : Gathered w index) (known : w.sess.pieceLen index = some len)
    (inside : start + data.length ≤ len)
    (fresh : ((w.sess.tracker index).add start (start + data.length)).2 ≠ 0) :
    ((w.sess.assembling.get? index).getD (List.replicate len 0)).length = len ∧
      ∀ j ∈ cells (w.sess.tracker index).ranges,
        ((w.sess.assembling.get? index).getD (List.replicate len 0))[j]? = first (since index w.trace) j := by
  cases found : w.sess.assembling.get? index with
  | some buf =>
    obtain ⟨length, bytes⟩ := gathered.buffer buf found
    rw [known] at length
    cases length
    exact ⟨rfl, bytes⟩
  | none =>
    rcases gathered.absent found with empty | ⟨len', known', full⟩
    · refine ⟨List.length_replicate, ?_⟩
      simp [empty]
    · rw [known] at known'
      cases known'
      exact absurd (add_full gathered full inside) fresh

theorem buffered_spec (gathered : Gathered w index) (known : w.sess.pieceLen index = some len)
    (inside : start + data.length ≤ len)
    (fresh : ((w.sess.tracker index).add start (start + data.length)).2 ≠ 0) :
    (w.sess.buffered index start data len).length = len ∧
      ∀ j ∈ cells ((w.sess.tracker index).add start (start + data.length)).1.ranges,
        (w.sess.buffered index start data len)[j]? =
          first (since index (w.emit (.supplied index start data)).trace) j := by
  obtain ⟨length, bytes⟩ := base_spec gathered known inside fresh
  have gaps := cells_gaps gathered.exact.normal (start + data.length) start
  have within : ∀ g ∈ (w.sess.tracker index).newRanges start (start + data.length),
      start ≤ g.1 ∧ g.1 < g.2 ∧ g.2 ≤ start + data.length := fun g member => mem_gaps member
  obtain ⟨length', bytes'⟩ := fillBuffer_spec within (length.symm ▸ inside)
  refine ⟨length'.trans length, ?_⟩
  intro j member
  rw [PieceBytes.add_cells gathered.exact, mem_union, mem_Ico] at member
  refine (bytes' j).trans ?_
  rw [PieceBytes.newRanges, gaps]
  by_cases old : j ∈ cells (w.sess.tracker index).ranges
  · rw [if_neg (by simp [old]), bytes j old, first_supplied_old gathered old]
  · have window : start ≤ j ∧ j < start + data.length := member.resolve_left old
    rw [if_pos (by simp [old, window]), first_supplied_new gathered old window.1]

theorem gathered_of_buffer {v : World H} (gathered : Gathered w index) (known : w.sess.pieceLen index = some len)
    (small : len < 2 ^ 32) (inside : start + data.length ≤ len)
    (stored : Stored index start data (w.emit (.supplied index start data)) v)
    (history : since index v.trace = since index (w.emit (.supplied index start data)).trace)
    (buffer : ∀ buf, v.sess.assembling.get? index = some buf → buf.length = len ∧
      ∀ j ∈ cells ((w.sess.tracker index).add start (start + data.length)).1.ranges,
        buf[j]? = first (since index (w.emit (.supplied index start data)).trace) j)
    (absent : v.sess.assembling.get? index = none →
      cells ((w.sess.tracker index).add start (start + data.length)).1.ranges = range len) :
    Gathered v index := by
  have tracker : v.sess.tracker index = ((w.sess.tracker index).add start (start + data.length)).1 := by
    rw [TorrentSession.tracker, stored.pieceBytes, get?_insert_self]
    rfl
  have lengths : v.sess.pieceLen index = some len := by
    rw [TorrentSession.pieceLen, stored.torrent]
    exact known
  refine ⟨?_, ?_, ?_, ?_, ?_⟩
  · rw [tracker]
    exact PieceBytes.add_exact gathered.exact (by omega)
  · intro j
    rw [tracker, history]
    exact covered_supplied gathered j
  · intro j member
    rw [tracker, PieceBytes.add_cells gathered.exact, mem_union, mem_Ico] at member
    refine ⟨len, lengths, ?_⟩
    rcases member with old | window
    · obtain ⟨len', known', below⟩ := gathered.inside j old
      rw [known] at known'
      cases known'
      exact below
    · omega
  · intro buf found
    obtain ⟨length, bytes⟩ := buffer buf found
    rw [tracker, history]
    exact ⟨length ▸ lengths, bytes⟩
  · intro none
    rw [tracker]
    exact Or.inr ⟨len, lengths, absent none⟩

theorem complete_cells (gathered : Gathered w index) (known : w.sess.pieceLen index = some len) (small : len < 2 ^ 32)
    (inside : start + data.length ≤ len)
    (complete : len ≤ ((w.sess.tracker index).add start (start + data.length)).1.total) :
    cells ((w.sess.tracker index).add start (start + data.length)).1.ranges = range len := by
  refine (PieceBytes.add_exact gathered.exact (by omega)).full ?_ complete
  intro j member
  rw [PieceBytes.add_cells gathered.exact, mem_union, mem_Ico] at member
  rcases member with old | window
  · obtain ⟨len', known', below⟩ := gathered.inside j old
    rw [known] at known'
    cases known'
    exact mem_range.mpr below
  · exact mem_range.mpr (by omega)

theorem gathered_store (gathered : Gathered w index) (known : w.sess.pieceLen index = some len) (small : len < 2 ^ 32)
    (filled : data.length ≠ 0) (inside : start + data.length ≤ len) (conn : ConnId) :
    Gathered (storeBytes conn index start data len (w.emit (.supplied index start data))) index := by
  have stored := stored_storeBytes conn index start data len (w.emit (.supplied index start data))
  rcases storeBytes_cases conn index start data len (w.emit (.supplied index start data)) with
    ⟨duplicate, same⟩ | ⟨fresh, _, kept⟩ | ⟨fresh, complete, handed⟩
  · -- nothing was missing, so neither the tracker nor any first byte changes
    have covers : Ico start (start + data.length) ⊆ cells (w.sess.tracker index).ranges := by
      have none : ((w.sess.tracker index).add start (start + data.length)).2 = 0 := duplicate
      rw [PieceBytes.add_count gathered.exact, card_eq_zero, sdiff_eq_empty_iff_subset] at none
      exact none
    have unchanged : cells ((w.sess.tracker index).add start (start + data.length)).1.ranges =
        cells (w.sess.tracker index).ranges := by
      rw [PieceBytes.add_cells gathered.exact, union_eq_left.mpr covers]
    refine gathered_of_buffer gathered known small inside stored (by rw [same.trace]) ?_ ?_
    · intro buf found
      rw [same.assembling] at found
      obtain ⟨length, bytes⟩ := gathered.buffer buf found
      rw [known] at length
      cases length
      refine ⟨rfl, fun j member => ?_⟩
      rw [unchanged] at member
      rw [bytes j member, first_supplied_old gathered member]
    · intro none
      rw [same.assembling] at none
      rcases gathered.absent none with empty | ⟨len', known', full⟩
      · have here := covers (mem_Ico.mpr ⟨le_refl start, by omega⟩)
        rw [empty] at here
        simp at here
      · rw [known] at known'
        cases known'
        rw [unchanged, full]
  · refine gathered_of_buffer gathered known small inside stored (by rw [kept.trace]) ?_ ?_
    · intro buf found
      rw [kept.assembling, get?_insert_self] at found
      cases found
      exact buffered_spec gathered known inside fresh
    · intro none
      rw [kept.assembling, get?_insert_self] at none
      cases none
  · refine gathered_of_buffer gathered known small inside stored ?_ ?_ ?_
    · rw [handed.trace, since_append]
      rfl
    · intro buf found
      rw [handed.assembling, get?_erase_self] at found
      cases found
    · exact fun _ => complete_cells gathered known small inside complete

theorem gathered_store_other {piece : Nat} (gathered : Gathered w piece) (other : index ≠ piece) (conn : ConnId) :
    Gathered (storeBytes conn index start data len (w.emit (.supplied index start data))) piece := by
  have stored := stored_storeBytes conn index start data len (w.emit (.supplied index start data))
  have silent : since piece (w.emit (.supplied index start data)).trace = since piece w.trace := by
    rw [World.emit, since_append, remember, if_neg other]
  have lengths : ∀ n, w.sess.pieceLen piece = some n →
      (storeBytes conn index start data len (w.emit (.supplied index start data))).sess.pieceLen piece = some n := by
    intro n known
    rw [TorrentSession.pieceLen, stored.torrent]
    exact known
  have tracker : (storeBytes conn index start data len (w.emit (.supplied index start data))).sess.tracker piece =
      w.sess.tracker piece := by
    rw [TorrentSession.tracker, stored.pieceBytes, get?_insert_ne _ _ other]
    rfl
  rcases storeBytes_cases conn index start data len (w.emit (.supplied index start data)) with
    ⟨_, same⟩ | ⟨_, _, kept⟩ | ⟨_, _, handed⟩
  · exact gathered.congr tracker (by rw [same.assembling]; rfl) (by rw [same.trace, silent]) lengths
  · refine gathered.congr tracker ?_ (by rw [kept.trace, silent]) lengths
    rw [kept.assembling, get?_insert_ne _ _ other]
    rfl
  · refine gathered.congr tracker ?_ ?_ lengths
    · rw [handed.assembling, get?_erase_ne _ other, get?_insert_ne _ _ other]
      rfl
    · rw [handed.trace, since_append, ← silent]
      rfl

end Piece

end TypeBit.Session
