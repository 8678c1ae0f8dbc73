import TypeBit.Session.Balance
import TypeBit.Session.Completion

/-! The pipelines of the peers. A peer has as many requests in flight as blocks are recorded as
requested from it, as long as every Piece message answers one request of its sender, no connection
comes back while requests still name it, and no piece fails while its blocks are requested. -/

namespace TypeBit.Session
open Metainfo Leech Wire OrdMap Option PieceTracker TorrentSession

def asked (requestedBy : OrdMap BlockKey (List ConnId)) (conn : ConnId) : Nat :=
  (requestedBy.entries.filter (fun e => e.2.contains conn)).length

/-- Every attached peer has exactly those requests in flight. -/
def PipelineEven (s : TorrentSession) : Prop :=
  ∀ c p, s.peers.get? c = some p → p.requestsInFlight = asked s.requestedBy c

/-! ### The desk -/

structure Desk where
  torrent : Option Torrent
  pieces : PieceTracker
  burdens : ConnId → Option (Nat × Option Nat)
  requestedBy : OrdMap BlockKey (List ConnId)

def TorrentSession.desk (s : TorrentSession) : Desk := ⟨s.torrent, s.pieces, burdensOf s.peers, s.requestedBy⟩

def blocksOf (torrent : Option Torrent) (piece : Nat) : Nat :=
  match torrent with
  | none => 1
  | some t =>
      match t.pieceInfo piece with
      | .ok info => blockCountFor info.len
      | .error _ => 1

/-- The desk is in order: `owed` are the requests of each peer that were answered and not yet taken off it. -/
structure Squared (owed : ConnId → Nat) (d : Desk) : Prop where
  counts : ∀ c n i, d.burdens c = some (n, i) → n = asked d.requestedBy c + owed c
  pledged : ∀ c n i, d.burdens c = some (n, some i) → i < d.pieces.pieceCount
  distinct : ∀ k reqs, d.requestedBy.get? k = some reqs → reqs.Nodup
  marked : ∀ k reqs, d.requestedBy.get? k = some reqs →
    (ofLex k).1 < d.pieces.pieceCount ∧
      (d.pieces.isHave (ofLex k).1 = true ∨ d.pieces.blockRequested (ofLex k).1 (ofLex k).2 = true)
  flagged : d.pieces.Flagged (blocksOf d.torrent)
  bare : d.torrent = none → d.pieces.pieceCount = 0

section Desk
variable {d : Desk} {owed : ConnId → Nat}

theorem asked_eq (m : OrdMap BlockKey (List ConnId)) (c : ConnId) :
    asked m c = m.total (fun _ reqs => if reqs.contains c then 1 else 0) :=
  (total_indicator m (fun _ reqs => reqs.contains c)).symm

theorem asked_erase (m : OrdMap BlockKey (List ConnId)) (k : BlockKey) (c : ConnId) :
    asked m c = (if c ∈ (m.get? k).getD [] then 1 else 0) + asked (m.erase k) c := by
  rw [asked_eq, asked_eq]
  cases found : m.get? k with
  | none =>
    rw [erase_of_absent found]
    simp
  | some reqs =>
    rw [total_erase found]
    simp

theorem asked_insert (m : OrdMap BlockKey (List ConnId)) (k : BlockKey) (reqs : List ConnId) (c : ConnId) :
    asked (m.insert k reqs) c = (if c ∈ reqs then 1 else 0) + asked (m.erase k) c := by
  rw [asked_eq, asked_eq, total_insert]
  simp

def Desk.relieve (picked : List ConnId) (d : Desk) : Desk :=
  { d with burdens := fun c => if c ∈ picked then (d.burdens c).map (fun b => (b.1 - 1, b.2)) else d.burdens c }

def Desk.strike (k : BlockKey) (d : Desk) : Desk :=
  { d with
    requestedBy := d.requestedBy.erase k
    pieces := d.pieces.clearBlockRequested (ofLex k).1 (ofLex k).2 (blocksOf d.torrent (ofLex k).1) }

theorem relieve_nil (d : Desk) : d.relieve [] = d := by
  simp [Desk.relieve]

theorem relieve_cons {c : ConnId} {tail : List ConnId} (fresh : c ∉ tail) (d : Desk) :
    (d.relieve [c]).relieve tail = d.relieve (c :: tail) := by
  simp only [Desk.relieve, Desk.mk.injEq, true_and, and_true]
  funext b
  by_cases same : b = c
  · subst same
    simp [fresh]
  · simp [same]

variable {reqs : List ConnId}

theorem relieve_foldl {σ : Type} (view : σ → Desk) (takes : ConnId → Bool) {f : σ → ConnId → σ}
    (each : ∀ a c, view (f a c) = (view a).relieve (if takes c then [c] else []))
    (distinct : reqs.Nodup) (a : σ) : view (reqs.foldl f a) = (view a).relieve (reqs.filter takes) := by
  induction reqs generalizing a with
  | nil => exact (relieve_nil _).symm
  | cons c tail ih =>
    obtain ⟨fresh, rest⟩ := List.nodup_cons.mp distinct
    rw [List.foldl_cons, ih rest, each, List.filter_cons]
    split_ifs
    · exact relieve_cons (fun member => fresh (List.mem_of_mem_filter member)) _
    · rw [relieve_nil]

theorem Squared.strike (squared : Squared owed d) (k : BlockKey) {picked : List ConnId}
    (among : picked ⊆ (d.requestedBy.get? k).getD []) :
    Squared (fun c => owed c + if c ∈ (d.requestedBy.get? k).getD [] ∧ c ∉ picked then 1 else 0)
      ((d.relieve picked).strike k) := by
  have released := released_clearBlockRequested d.pieces (ofLex k).1 (ofLex k).2
    (blocksOf d.torrent (ofLex k).1)
  have burden : ∀ c n i, ((d.relieve picked).strike k).burdens c = some (n, i) →
      ∃ m, d.burdens c = some (m, i) ∧ n = if c ∈ picked then m - 1 else m := by
    intro c n i found
    simp only [Desk.strike, Desk.relieve] at found
    split_ifs at found with taken
    · obtain ⟨⟨m, j⟩, before, same⟩ := map_eq_some_iff.mp found
      cases same
      exact ⟨m, before, (if_pos taken).symm⟩
    · exact ⟨n, found, (if_neg taken).symm⟩
  refine ⟨?_, ?_, ?_, ?_, ?_, ?_⟩
  · intro c n i found
    obtain ⟨m, before, rfl⟩ := burden c n i found
    have count := squared.counts c m i before
    rw [asked_erase d.requestedBy k c] at count
    simp only [Desk.strike, Desk.relieve]
    by_cases taken : c ∈ picked
    · have listed := among taken
      rw [if_pos listed] at count
      simp only [taken, if_true, not_true, and_false, if_false]
      omega
    · by_cases listed : c ∈ (d.requestedBy.get? k).getD []
      · rw [if_pos listed] at count
        simp only [listed, taken, if_false, not_false_iff, and_self, if_true]
        omega
      · rw [if_neg listed] at count
        simp only [listed, taken, false_and, if_false]
        omega
  · intro c n i found
    obtain ⟨m, before, _⟩ := burden c n (some i) found
    exact released.count ▸ squared.pledged c m i before
  · intro j reqs found
    simp only [Desk.strike, get?_erase] at found
    split_ifs at found
    exact squared.distinct j reqs found
  · intro j reqs found
    simp only [Desk.strike, get?_erase] at found
    split_ifs at found with same
    obtain ⟨inside, kept⟩ := squared.marked j reqs found
    have other : ¬ ((ofLex j).1 = (ofLex k).1 ∧ (ofLex j).2 = (ofLex k).2) := by
      rintro ⟨first, second⟩
      exact same (ofLex.injective (Prod.ext first.symm second.symm))
    refine ⟨released.count ▸ inside, kept.imp (fun have_ => ?_) (fun flag => ?_)⟩
    · unfold isHave at have_ ⊢
      rw [← have_]
      exact congrArg (fun b => Bitfield.get b (ofLex j).1) released.haves
    · exact (blockRequested_clear_other _ _ _ squared.flagged other).trans flag
  · exact flagged_clearBlockRequested _ _ _ squared.flagged
  · intro none
    exact released.count.trans (squared.bare none)

theorem Squared.strikeAll (squared : Squared (fun _ => 0) d) (k : BlockKey) :
    Squared (fun _ => 0) ((d.relieve ((d.requestedBy.get? k).getD [])).strike k) := by
  have struck := squared.strike k (List.Subset.refl _)
  have nobody : (fun c => 0 + if c ∈ (d.requestedBy.get? k).getD [] ∧ c ∉ (d.requestedBy.get? k).getD [] then 1 else 0) =
      fun _ : ConnId => 0 := by
    funext c
    simp
  rwa [nobody] at struck

variable {conn : ConnId}

theorem Squared.withdraw (squared : Squared (fun _ => 0) d) {k : BlockKey}
    (found : d.requestedBy.get? k = some reqs) (listed : conn ∈ reqs) :
    Squared (fun _ => 0) { d.relieve [conn] with requestedBy := d.requestedBy.insert k (reqs.erase conn) } := by
  have unique := squared.distinct k reqs found
  have split := fun c => asked_erase d.requestedBy k c
  rw [found, getD_some] at split
  refine ⟨?_, ?_, ?_, ?_, squared.flagged, squared.bare⟩
  · intro c n i burden
    simp only [Desk.relieve, List.mem_singleton] at burden
    rw [asked_insert]
    split_ifs at burden with same
    · subst same
      obtain ⟨⟨m, j⟩, before, equal⟩ := map_eq_some_iff.mp burden
      cases equal
      have count := squared.counts c m j before
      rw [split c, if_pos listed] at count
      rw [if_neg (fun member => (List.Nodup.mem_erase_iff unique).mp member |>.1 rfl)]
      omega
    · have count := squared.counts c n i burden
      rw [split c] at count
      have still : c ∈ reqs.erase conn ↔ c ∈ reqs := List.mem_erase_of_ne same
      simp only [still]
      exact count
  · intro c n i burden
    simp only [Desk.relieve, List.mem_singleton] at burden
    split_ifs at burden with same
    · obtain ⟨⟨m, j⟩, before, equal⟩ := map_eq_some_iff.mp burden
      cases equal
      exact squared.pledged c m i before
    · exact squared.pledged c n i burden
  · intro j others there
    rw [get?_insert] at there
    split_ifs at there
    · cases there
      exact unique.erase conn
    · exact squared.distinct j others there
  · intro j others there
    rw [get?_insert] at there
    split_ifs at there with same
    · exact same ▸ squared.marked k reqs found
    · exact squared.marked j others there

theorem Squared.issue (squared : Squared (fun _ => 0) d) {piece block load : Nat} {commitment : Option Nat}
    (burden : d.burdens conn = some (load, commitment)) (inside : piece < d.pieces.pieceCount)
    (placed : block < blocksOf d.torrent piece) (missing : d.pieces.isHave piece = false)
    (free : d.pieces.blockRequested piece block = false) : Squared (fun _ => 0) { d with
      pieces := d.pieces.markBlockRequested piece block (blocksOf d.torrent piece)
      burdens := fun c => if c = conn then some (load + 1, commitment) else d.burdens c
      requestedBy := d.requestedBy.insert (blockKey piece block)
        ((d.requestedBy.get? (blockKey piece block)).getD [] ++ [conn]) } := by
  have unlisted : d.requestedBy.get? (blockKey piece block) = none := by
    cases found : d.requestedBy.get? (blockKey piece block) with
    | none => rfl
    | some reqs =>
      rcases (squared.marked _ reqs found).2 with have_ | flag
      · exact absurd have_ (by rw [show (ofLex (blockKey piece block)).1 = piece from rfl, missing]; exact Bool.false_ne_true)
      · exact absurd flag (by
          rw [show (ofLex (blockKey piece block)).1 = piece from rfl,
            show (ofLex (blockKey piece block)).2 = block from rfl, free]
          exact Bool.false_ne_true)
  have flags := fun i b => blockRequested_mark piece block (blocksOf d.torrent piece) squared.flagged rfl
    inside placed i b
  rw [unlisted, getD_none, List.nil_append]
  refine ⟨?_, ?_, ?_, ?_, ?_, ?_⟩
  · intro c n i found
    dsimp only at found ⊢
    rw [asked_insert, erase_of_absent unlisted]
    split_ifs at found with same
    · cases found
      have count := squared.counts conn load commitment burden
      rw [same, if_pos (List.mem_singleton_self conn)]
      omega
    · rw [if_neg (by simpa using same)]
      have count := squared.counts c n i found
      omega
  · intro c n i found
    dsimp only at found ⊢
    rw [pieceCount_markBlockRequested]
    split_ifs at found
    · cases found
      exact squared.pledged conn load i burden
    · exact squared.pledged c n i found
  · intro j reqs found
    dsimp only at found
    rw [get?_insert] at found
    split_ifs at found
    · cases found
      exact List.nodup_singleton conn
    · exact squared.distinct j reqs found
  · intro j reqs found
    dsimp only at found ⊢
    rw [pieceCount_markBlockRequested, isHave, haveBits_markBlockRequested, flags]
    rw [get?_insert] at found
    split_ifs at found with same
    · subst same
      refine ⟨inside, Or.inr ?_⟩
      simp [blockKey]
    · obtain ⟨known, kept⟩ := squared.marked j reqs found
      refine ⟨known, kept.imp id (fun flag => ?_)⟩
      rw [flag, Bool.true_or]
  · exact flagged_markBlockRequested piece block _ squared.flagged rfl
  · intro none
    dsimp only
    rw [pieceCount_markBlockRequested]
    exact squared.bare none

def clearFlags (torrent : Option Torrent) (keys : List BlockKey) (t : PieceTracker) : PieceTracker :=
  keys.foldl (fun t k => t.clearBlockRequested (ofLex k).1 (ofLex k).2 (blocksOf torrent (ofLex k).1)) t

theorem clearFlags_spec {torrent : Option Torrent} {t : PieceTracker} (flagged : t.Flagged (blocksOf torrent))
    (keys : List BlockKey) :
    (clearFlags torrent keys t).Flagged (blocksOf torrent) ∧ (clearFlags torrent keys t).pieceCount = t.pieceCount ∧
      (clearFlags torrent keys t).haveBits = t.haveBits ∧
      ∀ k, k ∉ keys → (clearFlags torrent keys t).blockRequested (ofLex k).1 (ofLex k).2 =
        t.blockRequested (ofLex k).1 (ofLex k).2 := by
  induction keys generalizing t with
  | nil => exact ⟨flagged, rfl, rfl, fun _ _ => rfl⟩
  | cons j tail ih =>
    have released := released_clearBlockRequested t (ofLex j).1 (ofLex j).2 (blocksOf torrent (ofLex j).1)
    obtain ⟨kept, count, haves, flags⟩ :=
      ih (flagged_clearBlockRequested (ofLex j).1 (ofLex j).2 (blocksOf torrent (ofLex j).1) flagged)
    refine ⟨kept, count.trans released.count, haves.trans released.haves, fun k unlisted => ?_⟩
    obtain ⟨apart, others⟩ := not_or.mp (fun member => unlisted (List.mem_cons.mpr member))
    refine (flags k others).trans (blockRequested_clear_other _ _ _ flagged ?_)
    rintro ⟨first, second⟩
    exact apart (ofLex.injective (Prod.ext first second))

def struckOut (conn : ConnId) (m : OrdMap BlockKey (List ConnId)) : OrdMap BlockKey (List ConnId) :=
  (m.mapValues (fun _ reqs => reqs.erase conn)).filter (fun _ reqs => !reqs.isEmpty)

def askedAlone (conn : ConnId) (m : OrdMap BlockKey (List ConnId)) : List BlockKey :=
  ((m.entries.filter (fun e => e.2.contains conn)).filter (fun e => (e.2.erase conn).isEmpty)).map Prod.fst

theorem get?_struckOut {m : OrdMap BlockKey (List ConnId)} {k : BlockKey} (found : (struckOut conn m).get? k = some reqs) :
    reqs ≠ [] ∧ ∃ before, m.get? k = some before ∧ reqs = before.erase conn := by
  rw [struckOut, get?_filter] at found
  obtain ⟨mapped, nonempty⟩ := filter_eq_some_iff.mp found
  rw [get?_mapValues] at mapped
  obtain ⟨before, there, rfl⟩ := map_eq_some_iff.mp mapped
  exact ⟨by simpa using nonempty, before, there, rfl⟩

theorem asked_struckOut {conn c : ConnId} (other : c ≠ conn) (m : OrdMap BlockKey (List ConnId)) :
    asked (struckOut conn m) c = asked m c := by
  rw [asked_eq, asked_eq, struckOut, total_filter, total_mapValues]
  refine total_congr fun k reqs _ => ?_
  have still : c ∈ reqs.erase conn ↔ c ∈ reqs := List.mem_erase_of_ne other
  by_cases listed : c ∈ reqs
  · have nonempty : (!(reqs.erase conn).isEmpty) = true := by
      simpa using List.ne_nil_of_mem (still.mpr listed)
    simp [nonempty, still, listed]
  · simp [still, listed]

theorem Squared.part (squared : Squared (fun _ => 0) d) (conn : ConnId) :
    Squared (fun _ => 0)
      ⟨d.torrent, clearFlags d.torrent (askedAlone conn d.requestedBy) d.pieces,
        fun c => if c = conn then none else d.burdens c, struckOut conn d.requestedBy⟩ := by
  obtain ⟨flagged, count, haves, flags⟩ := clearFlags_spec squared.flagged (askedAlone conn d.requestedBy)
  refine ⟨?_, ?_, ?_, ?_, flagged, fun none => count.trans (squared.bare none)⟩
  · intro c n i burden
    dsimp only at burden ⊢
    split_ifs at burden with same
    rw [asked_struckOut same]
    exact squared.counts c n i burden
  · intro c n i burden
    dsimp only at burden ⊢
    split_ifs at burden
    exact count ▸ squared.pledged c n i burden
  · intro k reqs found
    obtain ⟨_, before, there, rfl⟩ := get?_struckOut found
    exact (squared.distinct k before there).erase conn
  · intro k reqs found
    obtain ⟨nonempty, before, there, rfl⟩ := get?_struckOut found
    obtain ⟨inside, kept⟩ := squared.marked k before there
    have remains : k ∉ askedAlone conn d.requestedBy := by
      intro member
      obtain ⟨e, listed, rfl⟩ := List.mem_map.mp member
      obtain ⟨hit, empty⟩ := List.mem_filter.mp listed
      have same := (mem_entries_iff _ e.1 e.2).mp (List.mem_of_mem_filter hit)
      rw [there] at same
      cases same
      exact nonempty (List.isEmpty_iff.mp empty)
    dsimp only
    rw [count, flags k remains, isHave, haves]
    exact ⟨inside, kept⟩

theorem Squared.congr {u : Desk} (squared : Squared owed d) (torrent : u.torrent = d.torrent)
    (count : u.pieces.pieceCount = d.pieces.pieceCount) (haves : u.pieces.haveBits = d.pieces.haveBits)
    (requested : u.pieces.requested = d.pieces.requested) (burdens : u.burdens = d.burdens)
    (requestedBy : u.requestedBy = d.requestedBy) : Squared owed u := by
  refine ⟨?_, ?_, ?_, ?_, ?_, ?_⟩
  · rw [burdens, requestedBy]
    exact squared.counts
  · rw [burdens, count]
    exact squared.pledged
  · rw [requestedBy]
    exact squared.distinct
  · unfold isHave blockRequested
    rw [requestedBy, count, haves, requested]
    exact squared.marked
  · unfold Flagged
    rw [requested, torrent]
    exact squared.flagged
  · rw [torrent, count]
    exact squared.bare

end Desk

/-! ### Chores -/

section Chores
variable {H : Type} {w v : World H}

theorem desk_of_ledger (same : v.sess.ledger = w.sess.ledger) : v.sess.desk = w.sess.desk :=
  congrArg (fun l : Ledger => (⟨l.torrent, l.pieces, l.burdens, l.requestedBy⟩ : Desk)) same

theorem desk_mapPeer (w : World H) (c : ConnId) {f : Peer → Peer}
    (lighter : ∀ p, burden (f p) = ((burden p).1 - 1, (burden p).2)) :
    (w.mapPeer c f).sess.desk = w.sess.desk.relieve [c] := by
  simp only [desk, World.mapPeer, World.map, Desk.relieve, Desk.mk.injEq, true_and, and_true]
  funext b
  simp only [burdensOf, get?_modify, List.mem_singleton]
  by_cases same : c = b
  · subst same
    cases w.sess.peers.get? c with
    | none => simp
    | some p => simp [lighter]
  · simp [same, Ne.symm same]

theorem desk_releaseBlocks (keys : List BlockKey) (w : World H) :
    (keys.foldl (fun w k => w.map (fun s => s.releaseBlock k)) w).sess.desk =
      { w.sess.desk with pieces := clearFlags w.sess.torrent keys w.sess.pieces } := by
  induction keys generalizing w with
  | nil => rfl
  | cons k tail ih => exact ih (w.map (fun s => s.releaseBlock k))

theorem sess_inflightDecs {α : Type} (l : List α) (w : World H) : (l.foldl (fun w _ => w.inflightDec) w).sess = w.sess := by
  induction l generalizing w with
  | nil => rfl
  | cons a tail ih => exact ih w.inflightDec

theorem desk_detach (conn : ConnId) (w : World H) :
    (releaseRequests conn (w.map (fun s => { s with peers := s.peers.erase conn }))).sess.desk =
      ⟨w.sess.torrent, clearFlags w.sess.torrent (askedAlone conn w.sess.requestedBy) w.sess.pieces,
        fun c => if c = conn then none else burdensOf w.sess.peers c, struckOut conn w.sess.requestedBy⟩ := by
  unfold releaseRequests
  dsimp only
  rw [desk_releaseBlocks]
  simp only [World.map, desk, sess_inflightDecs, Desk.mk.injEq, true_and]
  refine ⟨rfl, ?_, rfl⟩
  funext c
  simp only [burdensOf, get?_erase]
  by_cases same : conn = c
  · simp [same]
  · simp [same, Ne.symm same]

theorem squared_parting (parting : Parting w v) (squared : Squared (fun _ => 0) w.sess.desk) :
    Squared (fun _ => 0) v.sess.desk := by
  cases parting with
  | idle same => exact desk_of_ledger same.ledger ▸ squared
  | detach conn attached =>
    rw [desk_detach]
    exact squared.part conn

theorem squared_struck {u : World H} {k : BlockKey} {reqs : List ConnId} (squared : Squared (fun _ => 0) w.sess.desk)
    (found : w.sess.requestedBy.get? k = some reqs)
    (relieved : u.sess.desk = { w.sess.desk.relieve reqs with requestedBy := w.sess.requestedBy.erase k }) :
    Squared (fun _ => 0) (u.map (fun s => s.releaseBlock k)).sess.desk := by
  have struck := squared.strikeAll k
  rw [show w.sess.desk.requestedBy.get? k = some reqs from found, getD_some] at struck
  have pieces : u.sess.pieces = w.sess.pieces := congrArg Desk.pieces relieved
  have torrent : u.sess.torrent = w.sess.torrent := congrArg Desk.torrent relieved
  have outcome : (u.map (fun s => s.releaseBlock k)).sess.desk = (w.sess.desk.relieve reqs).strike k := by
    refine (desk_releaseBlocks [k] u).trans ?_
    rw [relieved, pieces, torrent]
    rfl
  rw [outcome]
  exact struck

theorem squared_cancelSkipped (k : BlockKey) (squared : Squared (fun _ => 0) w.sess.desk) :
    Squared (fun _ => 0) (cancelSkipped w k).sess.desk := by
  unfold cancelSkipped
  split
  · exact squared
  · rename_i reqs found
    have relieved := relieve_foldl (fun w : World H => w.sess.desk) (fun _ => true)
      (f := cancelRequester (ofLex k).1 (ofLex k).2) (fun w c => desk_mapPeer w c (fun _ => rfl))
      (squared.distinct k reqs found) (w.map (fun s => { s with requestedBy := s.requestedBy.erase k }))
    rw [List.filter_true] at relieved
    exact squared_struck squared found relieved

theorem squared_timeoutBlock (maxTimeouts : Nat) (toBan : List ConnId) (k : BlockKey)
    (squared : Squared (fun _ => 0) w.sess.desk) :
    Squared (fun _ => 0) (timeoutBlock maxTimeouts (w, toBan) k).1.sess.desk := by
  unfold timeoutBlock
  split
  · exact squared
  · rename_i reqs found
    have relieved := relieve_foldl (fun acc : World H × List ConnId => acc.1.sess.desk) (fun _ => true)
      (f := timeoutRequester (ofLex k).1 (ofLex k).2 maxTimeouts) (fun acc c => desk_mapPeer acc.1 c (fun _ => rfl))
      (squared.distinct k reqs found) (w, toBan)
    rw [List.filter_true] at relieved
    refine squared_struck squared found ?_
    exact congrArg (fun d : Desk => { d with requestedBy := d.requestedBy.erase k }) relieved

theorem squared_withdraw {conn : ConnId} {index start : Nat} {reqs : List ConnId}
    (squared : Squared (fun _ => 0) w.sess.desk)
    (found : w.sess.requestedBy.get? (blockKey index (start / BLOCK_LEN % 2 ^ 16)) = some reqs) (listed : conn ∈ reqs) :
    Squared (fun _ => 0) (cancelPeerRequest conn index start w).2.sess.desk := by
  have outstanding : (w.sess.requestedBy.get? (blockKey index (start / BLOCK_LEN % 2 ^ 16))).filter
      (fun reqs => reqs.contains conn) = some reqs := by
    rw [found, filter_some, if_pos (List.contains_iff_mem.mpr listed)]
  unfold cancelPeerRequest
  simp only [outstanding]
  rw [desk_mapPeer _ conn (fun _ => rfl)]
  split_ifs with last
  · have alone : reqs = [conn] := by
      have shorter := List.length_erase_of_mem listed
      rw [List.isEmpty_iff.mp last, List.length_nil] at shorter
      obtain ⟨c, rfl⟩ := List.length_eq_one_iff.mp (by have := List.length_pos_of_mem listed; omega : reqs.length = 1)
      rw [List.mem_singleton.mp listed]
    subst alone
    have struck := squared.strikeAll (blockKey index (start / BLOCK_LEN % 2 ^ 16))
    rw [show w.sess.desk.requestedBy.get? _ = some [conn] from found, getD_some] at struck
    exact struck
  · exact squared.withdraw found listed

theorem squared_issueRequest (env : Env) {conn : ConnId} {piece block len : Nat} {p : Peer} {t : Torrent}
    {info : PieceInfo} (squared : Squared (fun _ => 0) w.sess.desk) (attached : w.sess.peers.get? conn = some p)
    (pledged : p.currentPiece = some piece) (torrent : w.sess.torrent = some t) (known : t.pieceInfo piece = .ok info)
    (free : Picker.pickBlock w.sess.pieces piece (blockCountFor info.len) true = some block) :
    Squared (fun _ => 0) (issueRequest env conn piece block (blockCountFor info.len) len w).sess.desk := by
  have blocks : blocksOf w.sess.torrent piece = blockCountFor info.len := by simp [blocksOf, torrent, known]
  have burden : w.sess.desk.burdens conn = some (p.requestsInFlight, some piece) := by
    simp [desk, burdensOf, Session.burden, attached, pledged]
  obtain ⟨missing, inside, unasked⟩ := Picker.pickBlock_eq_some free
  have issued := squared.issue burden (squared.pledged conn _ piece burden) (blocks ▸ inside) missing unasked
  refine issued.congr rfl ?_ ?_ ?_ ?_ rfl
  · simp only [desk, issueRequest, World.mapPeer, World.map, World.mapCache, blocks]
  · simp only [desk, issueRequest, World.mapPeer, World.map, World.mapCache, blocks]
  · simp only [desk, issueRequest, World.mapPeer, World.map, World.mapCache, blocks]
  · funext c
    simp only [desk, issueRequest, World.mapPeer, World.map, World.mapCache, burdensOf, get?_modify]
    by_cases same : conn = c
    · subst same
      simp [attached, Session.burden, Peer.send, Peer.sendRaw, pledged]
    · simp [same, Ne.symm same]

theorem squared_commit (conn : ConnId) (piece : Option Nat) (squared : Squared (fun _ => 0) w.sess.desk)
    (inside : ∀ i, piece = some i → i < w.sess.pieces.pieceCount) :
    Squared (fun _ => 0) (w.mapPeer conn (fun p => { p with currentPiece := piece })).sess.desk := by
  have burden : ∀ c n i, burdensOf (w.sess.peers.modify conn (fun p => { p with currentPiece := piece })) c = some (n, i) →
      ∃ j, burdensOf w.sess.peers c = some (n, j) ∧ (i = j ∨ i = piece) := by
    intro c n i found
    simp only [burdensOf, get?_modify] at found ⊢
    split_ifs at found
    · cases there : w.sess.peers.get? c with
      | none => simp [there] at found
      | some p =>
        simp only [there, map_some, Session.burden, some.injEq, Prod.mk.injEq] at found
        exact ⟨p.currentPiece, by rw [← found.1]; rfl, Or.inr found.2.symm⟩
    · exact ⟨i, found, Or.inl rfl⟩
  refine ⟨?_, ?_, squared.distinct, squared.marked, squared.flagged, squared.bare⟩
  · intro c n i found
    obtain ⟨j, before, _⟩ := burden c n i found
    exact squared.counts c n j before
  · intro c n i found
    obtain ⟨j, before, same | chosen⟩ := burden c n (some i) found
    · exact squared.pledged c n i (same ▸ before)
    · exact inside i chosen.symm

theorem squared_installed (env : Env) (t : Torrent) (absent : w.sess.torrent = none)
    (squared : Squared (fun _ => 0) w.sess.desk) : Squared (fun _ => 0) (installed env t w.sess).desk := by
  have none : w.sess.pieces.pieceCount = 0 := squared.bare absent
  have fresh := installed_spec env t w.sess
  have roster : (installed env t w.sess).roster = w.sess.roster := roster_recomputePriorities _
  have burdens : burdensOf (installed env t w.sess).peers = burdensOf w.sess.peers :=
    congrArg (fun r => burdensOf r.peers) roster
  have requestedBy : (installed env t w.sess).requestedBy = w.sess.requestedBy := congrArg Roster.requestedBy roster
  have pieces : (installed env t w.sess).pieces = PieceTracker.new t.pieceCount t.pieceLength := fresh.pieces
  have torrent : (installed env t w.sess).torrent = some t := fresh.torrent
  simp only [desk, burdens, requestedBy, pieces, torrent]
  refine ⟨squared.counts, ?_, squared.distinct, ?_, ?_, nofun⟩
  · intro c n i found
    have inside : i < w.sess.pieces.pieceCount := squared.pledged c n i found
    omega
  · intro k reqs found
    have inside : (ofLex k).1 < w.sess.pieces.pieceCount := (squared.marked k reqs found).1
    omega
  · intro i flags found
    cases found

theorem squared_chore (chore : Chore w v) (sound : Sound w.sess) (squared : Squared (fun _ => 0) w.sess.desk) :
    Squared (fun _ => 0) v.sess.desk := by
  cases chore with
  | part parting => exact squared_parting parting squared
  | commit conn piece inside =>
    refine squared_commit conn (some piece) squared ?_
    rintro i same
    cases same
    exact inside
  | release conn w => exact squared_commit conn none squared nofun
  | issue env conn piece block len attached pledged torrent known wanted free room =>
    exact squared_issueRequest env squared attached pledged torrent known free
  | cancel w k => exact squared_cancelSkipped k squared
  | timeout maxTimeouts w toBan k => exact squared_timeoutBlock maxTimeouts toBan k squared
  | withdraw conn index start found outstanding => exact squared_withdraw squared found outstanding
  | judge w index => exact squared
  | take w => exact squared
  | fetch fetched window traced =>
    obtain ⟨flights, pieces⟩ := fetched.pieces
    have torrent : v.sess.torrent = w.sess.torrent := congrArg Ledger.torrent fetched.ledger
    have burdens : burdensOf v.sess.peers = burdensOf w.sess.peers := congrArg Ledger.burdens fetched.ledger
    have requestedBy : v.sess.requestedBy = w.sess.requestedBy := congrArg Ledger.requestedBy fetched.ledger
    have flown : ∀ {α : Type} (f : PieceTracker → α), f { w.sess.pieces with inFlight := flights } = f w.sess.pieces →
        f v.sess.pieces = f w.sess.pieces := by
      intro α f same
      rw [pieces, same]
    exact squared.congr torrent (flown pieceCount rfl) (flown haveBits rfl)
      (flown requested rfl) burdens requestedBy
  | install env t absent => exact squared_installed env t (sound.absent absent) squared
  | refetch fails fetching => exact squared
  | abandon fails fetching => exact squared
  | fail w => exact squared

theorem sound_atoms (atoms : Atoms w v) (sound : Sound w.sess) : Sound v.sess := by
  induction atoms with
  | refl => exact sound
  | tail _ last ih => exact sound_atom last ih

theorem squared_chores (chores : Chores w v) (sound : Sound w.sess) (squared : Squared (fun _ => 0) w.sess.desk) :
    Sound v.sess ∧ Squared (fun _ => 0) v.sess.desk := by
  induction chores with
  | refl => exact ⟨sound, squared⟩
  | tail _ last ih => exact ⟨sound_atoms last.atoms ih.1, squared_chore last ih.1 ih.2⟩

end Chores

/-! ### Deeds, verdicts and new peers -/

section Events
variable {H : Type} {w v : World H}

theorem desk_of_kept {s u : TorrentSession} (kept : u.kept = s.kept) (roster : u.roster = s.roster) : u.desk = s.desk := by
  have torrent : u.torrent = s.torrent := congrArg Kept.torrent kept
  have pieces : u.pieces = s.pieces := congrArg Kept.pieces kept
  have peers : u.peers = s.peers := congrArg Roster.peers roster
  have requestedBy : u.requestedBy = s.requestedBy := congrArg Roster.requestedBy roster
  simp only [desk, torrent, pieces, peers, requestedBy]

theorem roster_resume (env : Env) (w : World H) : (resume env w).sess.roster = w.sess.roster := by
  unfold resume
  split
  · rfl
  · exact roster_refreshCompletion _

theorem squared_stop (host : Host H) (squared : Squared (fun _ => 0) w.sess.desk) :
    Squared (fun _ => 0) (stop host w).sess.desk := by
  unfold stop
  split
  · exact squared
  · have closed := (idle_emit w (e := .announced .stopped) rfl).trans
      (Idle.foldl (fun (v : World H) c => idle_emit v (e := .closed c) rfl) w.sess.peers.keys _)
    have same := desk_of_ledger closed.ledger
    rw [← same] at squared
    exact ⟨fun c n i found => (nomatch found), fun c n i found => (nomatch found), squared.distinct, squared.marked,
      squared.flagged, squared.bare⟩

theorem squared_deed {host : Host H} {env : Env} {e : Event H} (deed : Deed host env e w v) (silent : e.spoken = false)
    (squared : Squared (fun _ => 0) w.sess.desk) : Squared (fun _ => 0) v.sess.desk := by
  cases deed with
  | start halted =>
    have same : (started env w.sess).desk = w.sess.desk :=
      desk_of_kept (kept_refreshCompletion _) (roster_refreshCompletion _)
    exact same ▸ squared
  | pause running => exact squared
  | resume paused => exact desk_of_kept (kept_resume env w) (roster_resume env w) ▸ squared
  | stop running => exact squared_stop host squared
  | setFilePriority file prio w =>
    exact desk_of_kept (kept_setFilePriority file prio w.sess) (roster_setFilePriority file prio w.sess) ▸ squared
  | setFilePriorities priorities w =>
    exact desk_of_kept (kept_setFilePriorities priorities w.sess) (roster_setFilePriorities priorities w.sess) ▸ squared
  | setHoldData hold w =>
    exact desk_of_kept (kept_recomputePriorities { w.sess with holdDataUntilPriorities := hold })
      (roster_recomputePriorities { w.sess with holdDataUntilPriorities := hold }) ▸ squared
  | verify verifying torrent located written => cases silent
  | share state w => exact squared

def Unrequested (piece : Nat) (s : TorrentSession) : Prop := ∀ block, s.requestedBy.get? (blockKey piece block) = none

theorem squared_forget (index : Nat) (unrequested : Unrequested index w.sess) (squared : Squared (fun _ => 0) w.sess.desk) :
    Squared (fun _ => 0) (w.map (forgetPiece index)).sess.desk := by
  refine ⟨squared.counts, squared.pledged, squared.distinct, ?_, ?_, squared.bare⟩
  · intro k reqs found
    obtain ⟨inside, kept⟩ := squared.marked k reqs found
    have other : index ≠ (ofLex k).1 := by
      intro same
      have none := unrequested (ofLex k).2
      rw [same, show blockKey (ofLex k).1 (ofLex k).2 = k from rfl] at none
      rw [show w.sess.requestedBy.get? k = some reqs from found] at none
      cases none
    refine ⟨inside, kept.imp id (fun flag => ?_)⟩
    have same : (w.map (forgetPiece index)).sess.desk.pieces.requested.get? (ofLex k).1 =
        w.sess.pieces.requested.get? (ofLex k).1 := get?_erase_ne _ other
    unfold blockRequested at flag ⊢
    rw [same]
    exact flag
  · intro i flags found
    have erased : (w.sess.pieces.requested.erase index).get? i = some flags := found
    exact squared.flagged i flags (get?_of_erase erased)

theorem squared_settle (index : Nat) (shape : w.sess.pieces.haveBits.len = w.sess.pieces.pieceCount)
    (squared : Squared (fun _ => 0) w.sess.desk) : Squared (fun _ => 0) (w.map (settlePiece index)).sess.desk := by
  have burdens : burdensOf (w.map (settlePiece index)).sess.peers = burdensOf w.sess.peers := by
    refine burdensOf_mapValues (fun c p => ?_)
    split_ifs <;> rfl
  refine ⟨?_, ?_, squared.distinct, ?_, ?_, squared.bare⟩
  · intro c n i found
    exact squared.counts c n i ((congrFun burdens c).symm.trans found)
  · intro c n i found
    exact squared.pledged c n i ((congrFun burdens c).symm.trans found)
  · intro k reqs found
    obtain ⟨inside, kept⟩ := squared.marked k reqs found
    refine ⟨inside, ?_⟩
    have held : ∀ i, (w.map (settlePiece index)).sess.desk.pieces.isHave i =
        (w.sess.pieces.isHave i || (decide (index = i) && decide (index < w.sess.pieces.haveBits.len))) :=
      fun i => Bitfield.get_set w.sess.pieces.haveBits index i
    rw [held]
    by_cases same : index = (ofLex k).1
    · left
      have below : index < w.sess.pieces.haveBits.len := by
        rw [shape, same]
        exact inside
      simp [same.symm, below]
    · rcases kept with present | flag
      · left
        rw [show w.sess.pieces.isHave (ofLex k).1 = true from present, Bool.true_or]
      · right
        have untouched : (w.map (settlePiece index)).sess.desk.pieces.requested.get? (ofLex k).1 =
            w.sess.pieces.requested.get? (ofLex k).1 := get?_erase_ne _ same
        unfold blockRequested at flag ⊢
        rw [untouched]
        exact flag
  · intro i flags found
    have erased : (w.sess.pieces.requested.erase index).get? i = some flags := found
    exact squared.flagged i flags (get?_of_erase erased)

theorem squared_partings (partings : Partings w v) (squared : Squared (fun _ => 0) w.sess.desk) :
    Squared (fun _ => 0) v.sess.desk := by
  induction partings with
  | refl => exact squared
  | tail _ last ih => exact squared_parting last ih

theorem squared_completePieceFailed (env : Env) (index totalBlocks : Nat) (unrequested : Unrequested index w.sess)
    (squared : Squared (fun _ => 0) w.sess.desk) :
    Squared (fun _ => 0) (completePieceFailed env index totalBlocks w).sess.desk := by
  have forgotten : Squared (fun _ => 0) ((w.map (forgetPiece index)).emit (.cleared index)).sess.desk :=
    squared_forget index unrequested squared
  have punished := squared_partings (partings_punishCorruptSuppliers env index totalBlocks _) forgotten
  exact punished

theorem squared_verified {host : Host H} (env : Env) {piece : Nat} {ok : Bool} {data : Bytes} (sound : Sound w.sess)
    (orderly : ok = true ∨ w.sess.verifying.get? piece = none ∨ Unrequested piece w.sess)
    (squared : Squared (fun _ => 0) w.sess.desk) :
    Squared (fun _ => 0) (onVerified host env piece ok data w).2.sess.desk := by
  unfold onVerified
  split
  · exact squared
  · rename_i totalBlocks verifying
    have judged : Squared (fun _ => 0) (w.map (fun s => { s with verifying := s.verifying.erase piece })).sess.desk := squared
    dsimp only
    split
    · exact judged
    · rename_i t torrent
      cases ok with
      | false =>
        have unrequested : Unrequested piece w.sess := by
          rcases orderly with bad | absent | free
          · cases bad
          · rw [verifying] at absent
            cases absent
          · exact free
        exact squared_completePieceFailed env piece totalBlocks unrequested judged
      | true =>
        rw [if_pos rfl]
        unfold completePieceVerified
        split
        · exact judged
        · rename_i abs located
          have same := sess_writeAbs host abs data (w.map (fun s => { s with verifying := s.verifying.erase piece }))
          split
          · rename_i e u failed
            rw [failed] at same
            exact same ▸ judged
          · rename_i u done
            rw [done] at same
            have pieces := congrArg pieces same
            have shape : u.sess.pieces.haveBits.len = u.sess.pieces.pieceCount := by
              rw [show u.sess.pieces = w.sess.pieces from pieces]
              exact sound.shape
            have settled := squared_settle piece shape (same ▸ judged)
            unfold announceCompletion
            split
            · exact settled
            · exact settled

theorem squared_attachPeer (env : Env) {conn : ConnId} {addr : NetAddr} (outbound : Bool) (source : DiscoverySource)
    (fresh : w.sess.bans.isBanned addr env.now = true ∨ asked w.sess.requestedBy conn = 0)
    (squared : Squared (fun _ => 0) w.sess.desk) :
    Squared (fun _ => 0) (attachPeer env conn addr outbound source w).sess.desk := by
  unfold attachPeer
  split
  · exact squared
  · rename_i welcome
    have unasked := fresh.resolve_left welcome
    have burdens : ∀ (peer : Peer), Session.burden peer = (0, none) → ∀ c,
        burdensOf (w.sess.peers.insert conn peer) c = if c = conn then some (0, none) else burdensOf w.sess.peers c := by
      intro peer light c
      simp only [burdensOf, get?_insert]
      by_cases same : conn = c
      · simp [same, light]
      · simp [same, Ne.symm same]
    refine ⟨?_, ?_, squared.distinct, squared.marked, squared.flagged, squared.bare⟩
    · intro c n i found
      rw [show (_ : Desk).burdens c = _ from burdens _ rfl c] at found
      split_ifs at found with same
      · cases found
        rw [same]
        exact unasked.symm
      · exact squared.counts c n i found
    · intro c n i found
      rw [show (_ : Desk).burdens c = _ from burdens _ rfl c] at found
      split_ifs at found
      · cases found
      · exact squared.pledged c n i found

end Events

/-! ### Piece messages -/

section Pieces
variable {H : Type} {w : World H}

/-- How many requests of its sender a window answers: those for the blocks it overlaps. -/
def answered (conn : ConnId) (index : Nat) (blocks : List Nat) (requestedBy : OrdMap BlockKey (List ConnId)) : Nat :=
  blocks.countP (fun b => decide (conn ∈ (requestedBy.get? (blockKey index (b % 2 ^ 16))).getD []))

def due (conn : ConnId) (n : Nat) (c : ConnId) : Nat := if c = conn then n else 0

theorem due_zero (conn : ConnId) : due conn 0 = fun _ => 0 := by
  funext c
  exact ite_self 0

theorem desk_resolveRequest (conn : ConnId) (index start len : Nat) (w : World H) (c : ConnId) :
    (resolveRequest conn index start len w c).sess.desk =
      w.sess.desk.relieve (if decide (c ≠ conn) then [c] else []) := by
  unfold resolveRequest
  dsimp only
  by_cases sender : c = conn
  · rw [if_neg (not_not.mpr sender), if_neg (by simpa using sender), relieve_nil]
    rfl
  · rw [if_pos sender, if_pos (by simpa using sender)]
    exact desk_mapPeer w c (fun _ => rfl)

theorem squared_resolveBlock {conn : ConnId} {index totalBlocks n : Nat} (start len b : Nat)
    (sized : totalBlocks = blocksOf w.sess.torrent index) (squared : Squared (due conn n) w.sess.desk) :
    (resolveBlock conn index start len totalBlocks w b).sess.torrent = w.sess.torrent ∧
      (resolveBlock conn index start len totalBlocks w b).sess.requestedBy =
        w.sess.requestedBy.erase (blockKey index (b % 2 ^ 16)) ∧
      Squared (due conn (n + answered conn index [b] w.sess.requestedBy))
        (resolveBlock conn index start len totalBlocks w b).sess.desk := by
  have distinct : ((w.sess.requestedBy.get? (blockKey index (b % 2 ^ 16))).getD []).Nodup := by
    cases found : w.sess.requestedBy.get? (blockKey index (b % 2 ^ 16)) with
    | none => exact List.nodup_nil
    | some reqs => exact squared.distinct _ reqs found
  have relieved := relieve_foldl (fun w : World H => w.sess.desk) (fun c => decide (c ≠ conn))
    (desk_resolveRequest conn index start len) distinct w
  have outcome : (resolveBlock conn index start len totalBlocks w b).sess.desk =
      (w.sess.desk.relieve (((w.sess.requestedBy.get? (blockKey index (b % 2 ^ 16))).getD []).filter
        (fun c => decide (c ≠ conn)))).strike (blockKey index (b % 2 ^ 16)) := by
    have resolved := congrArg (fun d : Desk => (⟨d.torrent, d.pieces.clearBlockRequested index (b % 2 ^ 16) totalBlocks,
      d.burdens, d.requestedBy.erase (blockKey index (b % 2 ^ 16))⟩ : Desk)) relieved
    refine resolved.trans ?_
    rw [sized]
    rfl
  refine ⟨congrArg Desk.torrent outcome, congrArg Desk.requestedBy outcome, ?_⟩
  rw [outcome]
  have among : ((w.sess.requestedBy.get? (blockKey index (b % 2 ^ 16))).getD []).filter (fun c => decide (c ≠ conn)) ⊆
      (w.sess.desk.requestedBy.get? (blockKey index (b % 2 ^ 16))).getD [] :=
    fun _ member => List.mem_of_mem_filter member
  have struck := squared.strike (blockKey index (b % 2 ^ 16)) among
  have owed : (fun c => due conn n c +
      if c ∈ (w.sess.desk.requestedBy.get? (blockKey index (b % 2 ^ 16))).getD [] ∧
        c ∉ ((w.sess.requestedBy.get? (blockKey index (b % 2 ^ 16))).getD []).filter (fun c => decide (c ≠ conn)) then 1
      else 0) = due conn (n + answered conn index [b] w.sess.requestedBy) := by
    funext c
    unfold due
    by_cases sender : c = conn
    · subst sender
      simp [answered, desk]
    · simp only [sender, if_false, Nat.zero_add, List.mem_filter, ne_eq, not_false_iff, decide_true, and_true]
      exact if_neg (fun both => both.2 both.1)
  rwa [owed] at struck

theorem squared_resolveBlocks {conn : ConnId} {index totalBlocks n : Nat} (start len : Nat) {blocks : List Nat}
    (apart : blocks.Pairwise (fun a b => a % 2 ^ 16 ≠ b % 2 ^ 16)) (sized : totalBlocks = blocksOf w.sess.torrent index)
    (squared : Squared (due conn n) w.sess.desk) :
    Squared (due conn (n + answered conn index blocks w.sess.requestedBy))
        (blocks.foldl (resolveBlock conn index start len totalBlocks) w).sess.desk ∧
      asked w.sess.requestedBy conn = answered conn index blocks w.sess.requestedBy +
        asked (blocks.foldl (resolveBlock conn index start len totalBlocks) w).sess.requestedBy conn := by
  induction blocks generalizing w n with
  | nil => exact ⟨squared, (Nat.zero_add _).symm⟩
  | cons b tail ih =>
    obtain ⟨others, rest⟩ := List.pairwise_cons.mp apart
    obtain ⟨torrent, requestedBy, first⟩ := squared_resolveBlock start len b sized squared
    have same : answered conn index tail (w.sess.requestedBy.erase (blockKey index (b % 2 ^ 16))) =
        answered conn index tail w.sess.requestedBy := by
      refine List.countP_congr fun c member => ?_
      have other : blockKey index (b % 2 ^ 16) ≠ blockKey index (c % 2 ^ 16) := by
        intro equal
        exact others c member (congrArg (fun k => (ofLex k).2) equal)
      rw [get?_erase_ne _ other]
    have split : answered conn index (b :: tail) w.sess.requestedBy =
        answered conn index [b] w.sess.requestedBy + answered conn index tail w.sess.requestedBy := by
      simp only [answered, List.countP_cons, List.countP_nil]
      omega
    obtain ⟨squared', counted⟩ := ih rest (by rw [torrent]; exact sized) first
    rw [requestedBy, same] at squared' counted
    refine ⟨?_, ?_⟩
    · rw [split, ← Nat.add_assoc]
      exact squared'
    · rw [split, asked_erase w.sess.requestedBy (blockKey index (b % 2 ^ 16)) conn, counted, List.foldl_cons]
      simp only [answered, List.countP_cons, List.countP_nil, decide_eq_true_eq]
      omega

theorem Squared.settle {d : Desk} {conn : ConnId} {n : Nat} (squared : Squared (due conn n) d)
    (one : n = 1 ∨ n = 0 ∧ asked d.requestedBy conn = 0) : Squared (fun _ => 0) (d.relieve [conn]) := by
  refine ⟨?_, ?_, squared.distinct, squared.marked, squared.flagged, squared.bare⟩
  · intro c m i found
    simp only [Desk.relieve, List.mem_singleton] at found
    split_ifs at found with same
    · subst same
      obtain ⟨⟨before, j⟩, there, equal⟩ := map_eq_some_iff.mp found
      cases equal
      have count := squared.counts c before j there
      rw [due, if_pos rfl] at count
      dsimp only [Desk.relieve]
      omega
    · have count := squared.counts c m i found
      rw [due, if_neg same] at count
      exact count
  · intro c m i found
    simp only [Desk.relieve, List.mem_singleton] at found
    split_ifs at found
    · obtain ⟨⟨before, j⟩, there, equal⟩ := map_eq_some_iff.mp found
      cases equal
      exact squared.pledged c before i there
    · exact squared.pledged c m i found

theorem overlapped_apart (start : Nat) {len : Nat} (short : len ≤ BLOCK_LEN) :
    (overlapped start len).Pairwise (fun a b => a % 2 ^ 16 ≠ b % 2 ^ 16) := by
  have close : (start + len - 1) / BLOCK_LEN ≤ start / BLOCK_LEN + 1 := by
    have bound : start + len - 1 ≤ start + BLOCK_LEN := by omega
    exact (Nat.div_le_div_right bound).trans_eq (Nat.add_div_right start (by decide))
  unfold overlapped
  refine (List.pairwise_lt_range' 1).imp_of_mem fun first second smaller same => ?_
  rw [List.mem_range'_1] at first second
  omega

theorem requested_markAllCovered (index pieceLen totalBlocks : Nat) (pb : PieceBytes) (blocks : List Nat)
    (t : PieceTracker) :
    (blocks.foldl (markCovered index pieceLen totalBlocks pb) t).requested = t.requested := by
  induction blocks generalizing t with
  | nil => rfl
  | cons b tail ih =>
    refine (ih _).trans ?_
    unfold markCovered
    split_ifs
    · exact requested_markBlockReceived _ _ _ _
    · rfl

theorem requested_storeBytes (conn : ConnId) (index start : Nat) (data : Bytes) (pieceLen : Nat) (w : World H) :
    (storeBytes conn index start data pieceLen w).sess.pieces.requested = w.sess.pieces.requested := by
  have marked := requested_markAllCovered index pieceLen (blockCountFor pieceLen)
    ((w.sess.tracker index).add start (start + data.length)).1 (overlapped start data.length) w.sess.pieces
  unfold storeBytes
  dsimp only
  split_ifs
  · rfl
  · unfold handOver
    split
    · exact marked
    · exact marked
  · exact marked

theorem squared_storeBytes (conn : ConnId) (index start : Nat) (data : Bytes) (pieceLen : Nat)
    (squared : Squared (fun _ => 0) w.sess.desk) :
    Squared (fun _ => 0) (storeBytes conn index start data pieceLen w).sess.desk := by
  have stored := stored_storeBytes conn index start data pieceLen w
  refine squared.congr stored.torrent stored.count stored.haves
    (requested_storeBytes conn index start data pieceLen w) ?_ ?_
  · unfold storeBytes
    dsimp only
    split_ifs
    · rfl
    · unfold handOver
      split <;> rfl
    · rfl
  · unfold storeBytes
    dsimp only
    split_ifs
    · rfl
    · unfold handOver
      split <;> rfl
    · rfl

theorem squared_acceptPiece (env : Env) {conn : ConnId} {index start : Nat} {data : Bytes} {t : Torrent}
    {info : PieceInfo} (torrent : w.sess.torrent = some t) (known : t.pieceInfo index = .ok info)
    (short : data.length ≤ BLOCK_LEN)
    (one : answered conn index (overlapped start data.length) w.sess.requestedBy = 1 ∨
      asked w.sess.requestedBy conn = 0)
    (squared : Squared (fun _ => 0) w.sess.desk) :
    Squared (fun _ => 0) (acceptPiece env conn index start data info.len w).sess.desk := by
  have sized : blockCountFor info.len = blocksOf w.sess.torrent index := by simp [blocksOf, torrent, known]
  rw [← due_zero conn] at squared
  obtain ⟨resolved, counted⟩ := squared_resolveBlocks start data.length (overlapped_apart start short) sized squared
  rw [Nat.zero_add] at resolved
  unfold acceptPiece
  dsimp only
  refine squared_storeBytes conn index start data info.len ?_
  have relieved := desk_mapPeer ((overlapped start data.length).foldl
    (resolveBlock conn index start data.length (blockCountFor info.len)) w) conn
    (f := fun p => { p with requestsInFlight := p.requestsInFlight - 1, lastRealAt := env.now, requestsTimedOut := 0 })
    (fun _ => rfl)
  have few : answered conn index (overlapped start data.length) w.sess.requestedBy = 1 ∨
      answered conn index (overlapped start data.length) w.sess.requestedBy = 0 ∧
        asked ((overlapped start data.length).foldl
          (resolveBlock conn index start data.length (blockCountFor info.len)) w).sess.requestedBy conn = 0 := by
    omega
  have settled := resolved.settle few
  rw [← relieved] at settled
  exact settled

end Pieces

/-! ### What a peer says -/

section Heard
variable {H : Type} (digests : Digests) (host : Host H) (env : Env)

def heardIn (conn : ConnId) : Nat → World H → List (Message × World H)
  | 0, _ => []
  | fuel + 1, w =>
      match w.sess.peers.get? conn with
      | none => []
      | some p =>
          let v := w.mapPeer conn (fun q => { q with msgs := p.msgs.poll.2 })
          match p.msgs.poll.1 with
          | .ok (some msg) =>
              match dispatch digests host env conn msg v with
              | (.ok _, u) => (msg, v) :: heardIn conn fuel u
              | (.error _, _) => [(msg, v)]
          | _ => []

def greeted (conn : ConnId) (buf : Bytes) (w : World H) : Option (World H) :=
  if buf.length ≥ HANDSHAKE_LEN then
    match Handshake.parse (buf.take HANDSHAKE_LEN) with
    | .error _ => none
    | .ok their =>
        match onHandshake env conn their (w.mapPeer conn (fun p =>
          { p with handshakeBuf := [], msgs := p.msgs.feed (buf.drop HANDSHAKE_LEN) })) with
        | (.error _, _) => none
        | (.ok _, w) => some w
  else none

def listening (conn : ConnId) (data : Bytes) (w : World H) : Option (World H) :=
  match w.sess.peers.get? conn with
  | none => none
  | some peer =>
      let w := w.mapPeer conn (fun p => p.onDataIn data.length env.now)
      if peer.phase = .handshake then greeted env conn (peer.handshakeBuf ++ data) w
      else some (if peer.phase = .ready ∧ peer.handshakeBuf = [] then
        w.mapPeer conn (fun p => { p with msgs := p.msgs.feed data }) else w)

/-- The messages that some bytes of a peer complete, each with the world it meets. -/
def heard (conn : ConnId) (data : Bytes) (w : World H) : List (Message × World H) :=
  match listening env conn data w with
  | none => []
  | some u => heardIn digests host env conn (((u.sess.peers.get? conn).map (fun p => p.msgs.buf.length)).getD 0 + 1) u

theorem greeted_cases (conn : ConnId) (buf : Bytes) (w : World H) :
    (greeted env conn buf w = none ∧ Partings w (onHandshakeData digests host env conn buf w)) ∨
      ∃ u, greeted env conn buf w = some u ∧ Partings w u ∧
        onHandshakeData digests host env conn buf w = drainAll digests host env conn u := by
  unfold greeted onHandshakeData
  by_cases whole : buf.length ≥ HANDSHAKE_LEN
  · rw [if_pos whole, if_pos whole]
    cases parsed : Handshake.parse (buf.take HANDSHAKE_LEN) with
    | error e => exact Or.inl ⟨rfl, partings_dropPeer env conn w⟩
    | ok their =>
      dsimp only
      have fed := (idle_mapPeer w conn (f := fun p => { p with
        handshakeBuf := [], msgs := p.msgs.feed (buf.drop HANDSHAKE_LEN) }) (fun _ => rfl)).partings
      generalize w.mapPeer conn _ = v at fed ⊢
      have shaken := partings_onHandshake env conn their v
      rcases outcome : onHandshake env conn their v with ⟨refused | done, u⟩
      · rw [outcome] at shaken
        exact Or.inl ⟨rfl, (fed.trans shaken).trans (partings_dropPeer env conn u)⟩
      · rw [outcome] at shaken
        exact Or.inr ⟨u, rfl, fed.trans shaken, rfl⟩
  · rw [if_neg whole, if_neg whole]
    exact Or.inl ⟨rfl, (idle_mapPeer w conn (f := fun p => { p with handshakeBuf := buf }) (fun _ => rfl)).partings⟩

theorem listening_cases (conn : ConnId) (data : Bytes) (w : World H) :
    (listening env conn data w = none ∧ Partings w (onData digests host env conn data w)) ∨
      ∃ u, listening env conn data w = some u ∧ Partings w u ∧
        onData digests host env conn data w = drainAll digests host env conn u := by
  unfold listening onData
  cases found : w.sess.peers.get? conn with
  | none => exact Or.inl ⟨rfl, Relation.ReflTransGen.refl⟩
  | some peer =>
    dsimp only
    have counted := (idle_mapPeer w conn (f := fun p => p.onDataIn data.length env.now) (fun _ => rfl)).partings
    generalize w.mapPeer conn (fun p => p.onDataIn data.length env.now) = v at counted ⊢
    by_cases shaking : peer.phase = .handshake
    · rw [if_pos shaking, if_pos shaking]
      rcases greeted_cases digests host env conn (peer.handshakeBuf ++ data) v with
        ⟨none, parted⟩ | ⟨u, greeted, parted, drained⟩
      · exact Or.inl ⟨none, counted.trans parted⟩
      · exact Or.inr ⟨u, greeted, counted.trans parted, drained⟩
    · rw [if_neg shaking, if_neg shaking]
      refine Or.inr ⟨_, rfl, ?_, rfl⟩
      split_ifs
      · exact counted.trans
          (idle_mapPeer v conn (f := fun p => { p with msgs := p.msgs.feed data }) (fun _ => rfl)).partings
      · exact counted

end Heard

section Orderly
variable {H : Type} {digests : Digests} {host : Host H} {env : Env} {w v : World H}

def Admits (s : TorrentSession) (index start len : Nat) : Prop :=
  ∃ t info, s.torrent = some t ∧ t.pieceInfo index = .ok info ∧ len ≠ 0 ∧ len ≤ BLOCK_LEN ∧ start + len ≤ info.len ∧
    (start + len - 1) / BLOCK_LEN % 2 ^ 16 < blockCountFor info.len

/-- A Piece message answers exactly one request of its sender, unless it is refused or its sender has none. -/
def Answers (conn : ConnId) (msg : Message) (s : TorrentSession) : Prop :=
  ∀ index start data, msg = .piece index start data → Admits s index start data.length →
    answered conn index (overlapped start data.length) s.requestedBy = 1 ∨ asked s.requestedBy conn = 0

/-- Every connection is new when it is attached, every Piece message of a peer answers one request of
it, and a bad verdict finds no block of its piece requested. -/
def Orderly (digests : Digests) (host : Host H) (env : Env) (e : Event H) (w : World H) : Prop :=
  match e with
  | .attach conn addr _ _ => w.sess.bans.isBanned addr env.now = true ∨ asked w.sess.requestedBy conn = 0
  | .data conn bytes => ∀ m ∈ heard digests host env conn bytes w, Answers conn m.1 m.2.sess
  | .verified piece ok _ => ok = true ∨ w.sess.verifying.get? piece = none ∨ Unrequested piece w.sess
  | _ => True

variable {conn : ConnId}

theorem squared_onPiece {index start : Nat} {data : Bytes} (one : Admits w.sess index start data.length →
      answered conn index (overlapped start data.length) w.sess.requestedBy = 1 ∨ asked w.sess.requestedBy conn = 0)
    (squared : Squared (fun _ => 0) w.sess.desk) : Squared (fun _ => 0) (onPiece env conn index start data w).2.sess.desk := by
  unfold onPiece
  split
  · exact squared
  · rename_i t torrent
    split
    · exact squared
    · rename_i info known
      split
      · exact squared
      · rename_i valid
        split
        · exact squared
        · rename_i counted
          have short : data.length ≤ BLOCK_LEN := by omega
          have admitted : Admits w.sess index start data.length :=
            ⟨t, info, torrent, known, by omega, short, by omega, by omega⟩
          exact squared_acceptPiece env torrent known short (one admitted) squared

theorem squared_dispatch {msg : Message} (one : Answers conn msg w.sess) (sound : Sound w.sess)
    (squared : Squared (fun _ => 0) w.sess.desk) : Sound (dispatch digests host env conn msg w).2.sess ∧
      Squared (fun _ => 0) (dispatch digests host env conn msg w).2.sess.desk := by
  refine ⟨(moves_dispatch digests host env conn msg w).invariant
    (P := fun u => Sound u.sess) (fun move before => sound_atoms move.atoms before) sound, ?_⟩
  by_cases piece : ∃ index start data, msg = .piece index start data
  · obtain ⟨index, start, data, rfl⟩ := piece
    exact squared_onPiece (one index start data rfl) squared
  · have other : ∀ index start data, msg ≠ .piece index start data :=
      fun index start data same => piece ⟨index, start, data, same⟩
    exact (squared_chores (errands_dispatch digests host env conn other w).chores sound squared).2

theorem squared_drain {fuel : Nat}
    (each : ∀ m ∈ heardIn digests host env conn fuel w, Answers conn m.1 m.2.sess) (sound : Sound w.sess)
    (squared : Squared (fun _ => 0) w.sess.desk) : Squared (fun _ => 0) (drain digests host env conn fuel w).sess.desk := by
  induction fuel generalizing w with
  | zero => exact squared
  | succ fuel ih =>
    rw [drain]
    rw [heardIn] at each
    cases found : w.sess.peers.get? conn with
    | none => exact squared
    | some p =>
      rw [found] at each
      dsimp only at each ⊢
      have polled := (idle_mapPeer w conn (f := fun q => { q with msgs := p.msgs.poll.2 }) (fun _ => rfl)).chores
      obtain ⟨sound, squared⟩ := squared_chores polled sound squared
      generalize w.mapPeer conn (fun q => { q with msgs := p.msgs.poll.2 }) = v at each sound squared ⊢
      generalize p.msgs.poll.1 = next at each ⊢
      rcases next with bad | _ | msg
      · exact squared_partings (partings_noteProtocolViolation env conn v) squared
      · exact squared
      · dsimp only at each ⊢
        rcases outcome : dispatch digests host env conn msg v with ⟨refused | done, u⟩
        · rw [outcome] at each
          obtain ⟨_, acted⟩ := squared_dispatch (each (msg, v) (List.mem_singleton_self _)) sound squared
          rw [outcome] at acted
          exact squared_partings (partings_noteProtocolViolation env conn u) acted
        · rw [outcome] at each
          obtain ⟨still, acted⟩ := squared_dispatch (each (msg, v) List.mem_cons_self) sound squared
          rw [outcome] at still acted
          exact ih (fun m member => each m (List.mem_cons_of_mem _ member)) still acted

theorem squared_onData {data : Bytes}
    (each : ∀ m ∈ heard digests host env conn data w, Answers conn m.1 m.2.sess) (sound : Sound w.sess)
    (squared : Squared (fun _ => 0) w.sess.desk) : Squared (fun _ => 0) (onData digests host env conn data w).sess.desk := by
  rcases listening_cases digests host env conn data w with ⟨_, parted⟩ | ⟨u, heeded, parted, drained⟩
  · exact squared_partings parted squared
  · rw [heard, heeded] at each
    obtain ⟨sound, squared⟩ := squared_chores (Partings.chores parted) sound squared
    rw [drained]
    exact squared_drain each sound squared

theorem squared_step {e : Event H} (orderly : Orderly digests host env e w) (sound : Sound w.sess)
    (squared : Squared (fun _ => 0) w.sess.desk) :
    Sound (step digests host env e w).sess ∧ Squared (fun _ => 0) (step digests host env e w).sess.desk := by
  refine ⟨run_of_atoms (P := fun u => Sound u.sess) sound_atom digests host [(env, e)] sound, ?_⟩
  cases silent : e.spoken with
  | false =>
    rcases step_chores digests host env silent w with chores | ⟨u, deed, chores⟩
    · exact (squared_chores chores sound squared).2
    · exact (squared_chores chores (sound_atoms deed.atoms sound) (squared_deed deed silent squared)).2
  | true =>
    cases e with
    | attach conn addr outbound source => exact squared_attachPeer env outbound source orderly squared
    | data conn bytes => exact squared_onData orderly sound squared
    | verified piece ok data => exact squared_verified env sound orderly squared
    | _ => cases silent

/-- A session before its first event: nobody is attached, nothing is requested or verified, and at most some pieces
are restored. -/
structure Unasked (s : TorrentSession) : Prop where
  roster : s.roster = ⟨∅, ∅, ∅⟩
  verifying : s.verifying = ∅
  pieces : ∃ count length bits, s.pieces = { PieceTracker.new count length with haveBits := bits }
  bare : s.torrent = none → s.pieces.pieceCount = 0

variable {s : TorrentSession}

theorem unasked_initial (initial : Initial s) : Unasked s := by
  induction initial with
  | torrent t cfg now => exact ⟨rfl, rfl, ⟨_, _, _, rfl⟩, nofun⟩
  | magnet ih webSeeds cfg now => exact ⟨rfl, rfl, ⟨_, _, _, rfl⟩, fun _ => rfl⟩
  | restored fresh haveBytes priorities up down reputation now ih =>
    rename_i s
    obtain ⟨bits, _, kept⟩ := kept_applySavedState haveBytes priorities up down reputation now s
    obtain ⟨count, length, before, fresh⟩ := ih.pieces
    have pieces := congrArg Kept.pieces kept
    have torrent := congrArg Kept.torrent kept
    refine ⟨(roster_applySavedState haveBytes priorities up down reputation now s).trans ih.roster,
      (congrArg Kept.verifying kept).trans ih.verifying, ⟨count, length, bits, pieces.trans ?_⟩, fun none => ?_⟩
    · change { s.pieces with haveBits := bits } = _
      rw [fresh]
    · exact (congrArg pieceCount pieces).trans (ih.bare (torrent.symm.trans none))

theorem squared_initial (initial : Initial s) : Squared (fun _ => 0) s.desk := by
  obtain ⟨roster, -, ⟨count, length, bits, fresh⟩, bare⟩ := unasked_initial initial
  have requested : s.pieces.requested = ∅ := congrArg requested fresh
  have peers : s.peers = ∅ := congrArg Roster.peers roster
  have requestedBy : s.requestedBy = ∅ := congrArg Roster.requestedBy roster
  refine ⟨?_, ?_, ?_, ?_, ?_, bare⟩
  · intro c n i found
    simp [desk, burdensOf, peers] at found
  · intro c n i found
    simp [desk, burdensOf, peers] at found
  · intro k reqs found
    simp [desk, requestedBy] at found
  · intro k reqs found
    simp [desk, requestedBy] at found
  · intro i flags found
    simp [desk, requested] at found

theorem Squared.even (squared : Squared (fun _ => 0) s.desk) : PipelineEven s := by
  intro c p found
  have burden : s.desk.burdens c = some (p.requestsInFlight, p.currentPiece) := by
    simp [desk, burdensOf, Session.burden, found]
  exact squared.counts c _ _ burden

theorem squared_run {events early : List (Env × Event H)} (begins : early <+: events) (sound : Sound w.sess)
    (squared : Squared (fun _ => 0) w.sess.desk)
    (orderly : ∀ moment ∈ moments digests host events w, Orderly digests host moment.1.1 moment.1.2 moment.2) :
    Squared (fun _ => 0) (run digests host early w).sess.desk := by
  induction early generalizing events w with
  | nil => exact squared
  | cons e tail ih =>
    obtain ⟨late, rfl⟩ := begins
    obtain ⟨still, stepped⟩ := squared_step (orderly (e, w) List.mem_cons_self) sound squared
    refine ih (List.prefix_append tail late) still stepped ?_
    exact fun moment member => orderly moment (List.mem_cons_of_mem _ member)

/-- In every state of every run that stays orderly, each attached peer has as many requests in flight as
blocks are recorded as requested from it. -/
theorem pipeline_even_when_orderly {s : TorrentSession} {io : DiskCache.State H} (initial : Initial s)
    {events : List (Env × Event H)}
    (orderly : ∀ moment ∈ moments digests host events ⟨s, io, []⟩, Orderly digests host moment.1.1 moment.1.2 moment.2) :
    ∀ early, early <+: events → PipelineEven (run digests host early ⟨s, io, []⟩).sess :=
  fun _ begins => (squared_run begins (sound_initial initial) (squared_initial initial) orderly).even

end Orderly

namespace Sample

def pair : Torrent :=
  { torrent with
    totalSize := 16385
    files := [⟨[ascii "a"], 16385, none⟩]
    v1Hashes := some [List.replicate 20 9, List.replicate 20 8] }

def paired : World Unit := ⟨fromTorrent pair .default 0, funded, []⟩

/-- A peer that has both pieces is asked for them, and sends the second one some times. -/
def delivery (times : Nat) : List (Env × Event Unit) :=
  [(env, .start), (env, .attach 1 NetAddr.unspecified true .manual),
    (env, .data 1 (handshake.encode ++ (Message.bitfield [0xC0]).encode ++ Message.unchoke.encode)), (env, .fill 1)] ++
    List.replicate times (env, .data 1 (Message.piece 1 0 [5]).encode)

def answersOne (conn : ConnId) (m : Message × World Unit) : Bool :=
  match m.1 with
  | .piece index start data => decide (answered conn index (overlapped start data.length) m.2.sess.requestedBy = 1)
  | _ => true

theorem answers_of_answersOne {conn : ConnId} {messages : List (Message × World Unit)}
    (all : messages.all (answersOne conn) = true) : ∀ m ∈ messages, Answers conn m.1 m.2.sess := by
  intro m member index start data same admits
  have one := List.all_eq_true.mp all m member
  rw [answersOne, same] at one
  exact Or.inl (of_decide_eq_true one)

end Sample

/-- Both blocks are requested, and the second piece arrives once. -/
theorem pipeline_even_when_orderly_delivered :
    PipelineEven (run Sample.digests Sample.host (Sample.delivery 1) Sample.paired).sess := by
  refine pipeline_even_when_orderly (.torrent Sample.pair .default 0) ?_ (Sample.delivery 1) (List.prefix_refl _)
  intro moment member
  simp only [Sample.delivery, List.replicate, List.cons_append, List.nil_append, moments, List.mem_cons,
    List.not_mem_nil, or_false] at member
  rcases member with rfl | rfl | rfl | rfl | rfl
  · exact trivial
  · exact Or.inr (by decide)
  · exact Sample.answers_of_answersOne (by decide)
  · exact trivial
  · exact Sample.answers_of_answersOne (by decide)

/-- The second piece arrives twice; the peer is relieved of a request that it still has. -/
theorem duplicate_piece_unbalances_pipeline :
    ¬ ∀ w : World Unit, Reachable Sample.digests Sample.host w → PipelineEven w.sess := by
  intro even
  have reachable : Reachable Sample.digests Sample.host
      (run Sample.digests Sample.host (Sample.delivery 2) Sample.paired) :=
    ⟨_, _, Sample.delivery 2, .torrent Sample.pair .default 0, rfl⟩
  have count : ((run Sample.digests Sample.host (Sample.delivery 2) Sample.paired).sess.peers.get? 1).map
      Peer.requestsInFlight = some 0 := by decide
  obtain ⟨p, attached, none⟩ := map_eq_some_iff.mp count
  have left := even _ reachable 1 p attached
  have still : asked (run Sample.digests Sample.host (Sample.delivery 2) Sample.paired).sess.requestedBy 1 = 1 := by
    decide
  rw [none, still] at left
  cases left

end TypeBit.Session
