import TypeBit.Session.Fitting

/-! What a metadata fetch waits for. Its counter is the number of pieces it asked for and did not get, as long as
no piece is asked for twice, none comes unasked, and a fetch without a piece to ask for meets no peer to ask. -/

namespace TypeBit.Session
open Metainfo Leech Wire OrdMap
set_option maxRecDepth 20000

namespace MetadataFetch

def awaits (m : MetadataFetch) (p : Nat) : Bool := m.requested.get p && !m.pieces.contains p

def awaited (m : MetadataFetch) : Nat := (List.range m.requested.len).countP m.awaits

/-- The counter is right, what came was asked for, and there is a bit for every piece: at most one while the size
is unknown. -/
structure Tracked (m : MetadataFetch) : Prop where
  outstanding : m.outstanding = m.awaited
  asked : ∀ p, m.pieces.contains p = true → m.requested.get p = true
  unsized : m.size = 0 → (∀ p, m.pieces.contains p = false) ∧ m.requested.len ≤ 1
  sized : m.size ≠ 0 → m.requested.len = m.pieceCount

variable {m : MetadataFetch}

theorem awaited_of_none (none : ∀ p < m.requested.len, m.awaits p = false) : m.awaited = 0 := by
  refine List.countP_eq_zero.mpr fun p member => ?_
  rw [none p (List.mem_range.mp member)]
  exact Bool.false_ne_true

variable {p : Nat}

theorem inside_of_get (present : m.requested.get p = true) : p < m.requested.len := by
  by_contra past
  rw [Bitfield.get_of_ge (by omega)] at present
  cases present

theorem awaited_le : m.awaited ≤ m.requested.len := by
  have bound := List.countP_le_length (p := m.awaits) (l := List.range m.requested.len)
  rwa [List.length_range] at bound

theorem awaited_flip (got : MetadataFetch) (inside : p < m.requested.len)
    (len : got.requested.len = m.requested.len) (before : m.awaits p = false) (after : got.awaits p = true)
    (same : ∀ q, q ≠ p → got.awaits q = m.awaits q) : got.awaited = m.awaited + 1 := by
  unfold awaited
  rw [len]
  exact Bitfield.countP_range_flip inside before after same

theorem tracked_empty : empty.Tracked where
  outstanding := rfl
  asked _ present := by cases present
  unsized _ := ⟨fun _ => rfl, Nat.zero_le 1⟩
  sized sized := absurd rfl sized

theorem Tracked.request (tracked : m.Tracked) (inside : p < m.requested.len) (free : m.requested.get p = false) :
    ({ m with requested := m.requested.set p, outstanding := m.outstanding + 1 } : MetadataFetch).Tracked := by
  have missing : m.pieces.contains p = false := by
    by_contra present
    rw [Bool.not_eq_false] at present
    rw [tracked.asked p present] at free
    cases free
  refine ⟨?_, fun q present => ?_, fun unsized => ?_, fun sized => ?_⟩
  · refine (congrArg (· + 1) tracked.outstanding).trans (awaited_flip _ inside (Bitfield.len_set ..) ?_ ?_ ?_).symm
    · rw [awaits, free, Bool.false_and]
    · simp [awaits, Bitfield.get_set, inside, missing]
    · intro q other
      simp [awaits, Bitfield.get_set, other.symm]
  · rw [Bitfield.get_set, tracked.asked q present, Bool.true_or]
  · rw [Bitfield.len_set]
    exact tracked.unsized unsized
  · rw [Bitfield.len_set]
    exact tracked.sized sized

theorem Tracked.ask (tracked : m.Tracked) (free : m.requested.get 0 = false) : m.asked.Tracked := by
  by_cases blank : m.requested.isEmpty = true
  · have zero : m.requested.len = 0 := of_decide_eq_true blank
    have unsized : m.size = 0 := by
      by_contra sized
      have count := tracked.sized sized
      rw [zero, pieceCount, if_neg sized, divCeil, METADATA_PIECE] at count
      omega
    have waiting : m.awaited = 0 := awaited_of_none fun p inside => by omega
    have base : ({ m with requested := Bitfield.new 1 } : MetadataFetch).Tracked := by
      refine ⟨?_, fun q present => ?_, fun _ => ⟨(tracked.unsized unsized).1, Nat.le_refl 1⟩, fun sized => absurd unsized sized⟩
      · rw [awaited_of_none fun p _ => ?_]
        · exact tracked.outstanding.trans waiting
        · rw [awaits, Bitfield.get_new, Bool.false_and]
      · rw [show m.pieces.contains q = false from (tracked.unsized unsized).1 q] at present
        cases present
    have asked := base.request (p := 0) (Nat.one_pos) (Bitfield.get_new 1 0)
    rw [MetadataFetch.asked, if_pos blank]
    exact asked
  · have inside : 0 < m.requested.len := by
      have nonempty : m.requested.len ≠ 0 := by simpa [Bitfield.isEmpty] using blank
      omega
    rw [MetadataFetch.asked, if_neg blank]
    exact tracked.request inside free

theorem len_asked (m : MetadataFetch) : m.asked.requested.len ≠ 0 := by
  change ((if m.requested.isEmpty then Bitfield.new 1 else m.requested).set 0).len ≠ 0
  rw [Bitfield.len_set]
  split
  · exact Nat.one_ne_zero
  · rename_i filled
    simpa [Bitfield.isEmpty] using filled

theorem Tracked.reject (tracked : m.Tracked)
    (pending : m.requested.get p = true → m.pieces.contains p = false) : (m.rejected p).Tracked := by
  unfold rejected
  split
  · rename_i present
    have missing := pending present
    refine ⟨?_, fun q received => ?_, fun unsized => ?_, fun sized => ?_⟩
    · have flip := awaited_flip (m := { m with outstanding := m.outstanding - 1, requested := m.requested.clear p })
        m (p := p) (by rw [Bitfield.len_clear]; exact inside_of_get present) (Bitfield.len_clear ..).symm
        (by simp [awaits, Bitfield.get_clear]) (by simp [awaits, present, missing])
        (fun q other => by simp [awaits, Bitfield.get_clear, other.symm])
      have counted := tracked.outstanding
      change m.outstanding - 1 = _
      omega
    · have other : p ≠ q := by
        rintro rfl
        rw [show m.pieces.contains p = true from received] at missing
        cases missing
      rw [Bitfield.get_clear, tracked.asked q received]
      simp [other]
    · rw [Bitfield.len_clear]
      exact tracked.unsized unsized
    · rw [Bitfield.len_clear]
      exact tracked.sized sized
  · exact tracked

theorem len_clearAll (pieces : List Nat) (b : Bitfield) : (pieces.foldl Bitfield.clear b).len = b.len := by
  induction pieces generalizing b with
  | nil => rfl
  | cons p tail ih => exact (ih (b.clear p)).trans (Bitfield.len_clear b p)

theorem get_clearAll (pieces : List Nat) (b : Bitfield) (q : Nat) :
    (pieces.foldl Bitfield.clear b).get q = (b.get q && decide (q ∉ pieces)) := by
  induction pieces generalizing b with
  | nil => simp
  | cons p tail ih =>
    rw [List.foldl_cons, ih, Bitfield.get_clear, Bool.and_assoc]
    simp [eq_comm]

theorem Tracked.unanswered_eq (tracked : m.Tracked) : m.unanswered = (List.range m.requested.len).filter m.awaits := by
  refine List.filter_congr fun p member => ?_
  have inside := List.mem_range.mp member
  have numbered : (decide (m.pieceCount = 0) || decide (p < m.pieceCount)) = true := by
    by_cases unsized : m.size = 0
    · simp [pieceCount, unsized]
    · rw [tracked.sized unsized] at inside
      simp [inside]
  rw [numbered, Bool.and_true]
  rfl

theorem Tracked.release (tracked : m.Tracked) : m.release.Tracked := by
  have given : ∀ p, m.release.requested.get p = (m.requested.get p && decide (p ∉ m.unanswered)) := get_clearAll _ _
  have len : m.release.requested.len = m.requested.len := len_clearAll _ _
  have members : ∀ p, p ∈ m.unanswered ↔ p < m.requested.len ∧ m.awaits p = true := by
    intro p
    rw [tracked.unanswered_eq, List.mem_filter, List.mem_range]
  refine ⟨?_, fun p present => ?_, fun unsized => ?_, fun sized => ?_⟩
  · have gone : m.release.awaited = 0 := by
      refine awaited_of_none fun p inside => ?_
      by_contra waits
      rw [Bool.not_eq_false, awaits, given, Bool.and_eq_true, Bool.and_eq_true, decide_eq_true_eq] at waits
      obtain ⟨⟨present, kept⟩, missing⟩ := waits
      refine kept ((members p).mpr ⟨len ▸ inside, ?_⟩)
      rw [awaits, present, Bool.true_and]
      exact missing
    have counted : m.unanswered.length = m.awaited := by
      rw [tracked.unanswered_eq, awaited, List.countP_eq_length_filter]
    change m.outstanding - m.unanswered.length = _
    rw [gone, counted, tracked.outstanding, Nat.sub_self]
  · have received : m.pieces.contains p = true := present
    rw [given, tracked.asked p received, Bool.true_and, decide_eq_true_eq, members, awaits, received]
    simp
  · rw [len]
    exact tracked.unsized unsized
  · rw [len]
    exact tracked.sized sized

theorem store_fresh (missing : m.pieces.contains p = false) (data : Bytes) : m.store p data = { m with
      pieces := m.pieces.insert p data, outstanding := m.outstanding - 1, requested := m.requested.set p } := by
  rw [store, missing, if_neg Bool.false_ne_true]

theorem Tracked.store {m : MetadataFetch} (tracked : m.Tracked) {p : Nat} (sized : m.size ≠ 0)
    (inside : p < m.requested.len)
    (due : m.pieces.contains p = true ∨ m.requested.get p = true ∨ m.outstanding = 0) (data : Bytes) :
    (m.store p data).Tracked := by
  by_cases received : m.pieces.contains p = true
  · rw [MetadataFetch.store, if_pos received]
    exact tracked
  · have missing : m.pieces.contains p = false := by simpa using received
    have contains : ∀ q, (m.pieces.insert p data).contains q = (decide (p = q) || m.pieces.contains q) := by
      intro q
      unfold contains
      rw [get?_insert]
      split_ifs with same
      · simp [same]
      · simp [same]
    have others : ∀ q, q ≠ p → (m.store p data).awaits q = m.awaits q := by
      intro q other
      rw [store_fresh missing]
      simp [awaits, Bitfield.get_set, contains, other.symm]
    have here : (m.store p data).awaits p = false := by
      rw [store_fresh missing]
      simp [awaits, contains]
    have len : (m.store p data).requested.len = m.requested.len := by
      rw [store_fresh missing]
      exact Bitfield.len_set ..
    refine ⟨?_, fun q present => ?_, fun unsized => ?_, fun _ => ?_⟩
    · have counted := tracked.outstanding
      by_cases waits : m.awaits p = true
      · have flip := awaited_flip (m := m.store p data) m (p := p) (len ▸ inside) len.symm here waits
          (fun q other => (others q other).symm)
        rw [store_fresh missing] at flip ⊢
        change m.outstanding - 1 = _
        omega
      · have same : (m.store p data).awaited = m.awaited := by
          unfold awaited
          rw [len]
          refine List.countP_congr fun q _ => ?_
          by_cases target : q = p
          · rw [target, here]
            simp [waits]
          · rw [others q target]
        have idle : m.outstanding = 0 := by
          rcases due with received | present | idle
          · rw [received] at missing
            cases missing
          · exact absurd (by rw [awaits, present, missing]; rfl) waits
          · exact idle
        rw [same, ← counted, store_fresh missing]
        change m.outstanding - 1 = m.outstanding
        omega
    · rw [store_fresh missing] at present ⊢
      rw [contains, Bool.or_eq_true, decide_eq_true_eq] at present
      rw [Bitfield.get_set]
      rcases present with rfl | before
      · simp [inside]
      · rw [tracked.asked q before, Bool.true_or]
    · rw [store_fresh missing] at unsized
      exact absurd unsized sized
    · rw [len, tracked.sized sized, store_fresh missing]
      rfl

theorem Tracked.resize (tracked : m.Tracked) (unsized : m.size = 0) (idle : m.outstanding = 0)
    (total : Nat) : (m.sized total).Tracked := by
  rw [MetadataFetch.sized, if_pos unsized]
  refine ⟨?_, fun p present => ?_, fun zero => ⟨(tracked.unsized unsized).1, ?_⟩, fun known => ?_⟩
  · rw [awaited_of_none fun p _ => ?_]
    · exact idle
    · rw [awaits, Bitfield.get_new, Bool.false_and]
  · rw [show m.pieces.contains p = false from (tracked.unsized unsized).1 p] at present
    cases present
  · have zero' : total = 0 := zero
    change divCeil total METADATA_PIECE ≤ 1
    rw [zero', divCeil, METADATA_PIECE]
    omega
  · exact (if_neg known).symm

theorem Tracked.first (tracked : m.Tracked) (unsized : m.size = 0) {p total : Nat}
    (inside : p < (m.sized total).requested.len) (data : Bytes) : ((m.sized total).store p data).Tracked := by
  have bound : m.outstanding ≤ 1 := by
    rw [tracked.outstanding]
    exact awaited_le.trans (tracked.unsized unsized).2
  -- what was asked for before the size was known is forgotten, and at most one answer was due
  let blank : MetadataFetch := { m with requested := Bitfield.new 0, outstanding := 0 }
  have forgotten : blank.Tracked := by
    refine ⟨rfl, fun q present => ?_, fun _ => ⟨(tracked.unsized unsized).1, Nat.zero_le 1⟩, fun known => absurd unsized known⟩
    rw [show m.pieces.contains q = false from (tracked.unsized unsized).1 q] at present
    cases present
  have resized : blank.sized total = { m.sized total with outstanding := 0 } := by
    rw [MetadataFetch.sized, MetadataFetch.sized, if_pos unsized, if_pos (show blank.size = 0 from unsized)]
  have known : (blank.sized total).size ≠ 0 := by
    intro zero
    rw [MetadataFetch.sized, if_pos unsized] at inside
    rw [MetadataFetch.sized, if_pos (show blank.size = 0 from unsized)] at zero
    have none : total = 0 := zero
    have room : p < divCeil total METADATA_PIECE := inside
    rw [none, divCeil, METADATA_PIECE] at room
    omega
  have there : p < (blank.sized total).requested.len := by
    rw [resized]
    exact inside
  have kept := (forgotten.resize unsized rfl total).store known there (.inr (.inr (by rw [resized]))) data
  have missing : (m.sized total).pieces.contains p = false := by
    rw [MetadataFetch.sized, if_pos unsized]
    exact (tracked.unsized unsized).1 p
  have same : (m.sized total).store p data = (blank.sized total).store p data := by
    rw [resized, store_fresh missing, store_fresh (m := { m.sized total with outstanding := 0 }) missing]
    have due : (m.sized total).outstanding - 1 = 0 := by
      rw [MetadataFetch.sized, if_pos unsized]
      exact Nat.sub_eq_zero_of_le bound
    rw [due]
    rfl
  rw [same]
  exact kept

end MetadataFetch

/-! ### The fetch of a session -/

def Side.Unserved (x : Side) : Prop := ∀ conn a, x.facets conn = some a → a.extMetadata = none

/-- The fetch is tracked, and one that could not ask for anything has nobody to ask. -/
structure Tracking (x : Side) : Prop where
  tracked : ∀ m, x.metadata = some m → m.Tracked
  unserved : ∀ m, x.metadata = some m → m.size = 0 → m.requested.len = 0 → x.Unserved
  fetching : x.metadata ≠ none → x.torrent = none

section Tracking
variable {x y : Side}

theorem Tracking.downloaded (tracking : Tracking x) (n : Nat) : Tracking { x with downloaded := n } :=
  ⟨tracking.tracked, tracking.unserved, tracking.fetching⟩

theorem Tracking.counted (tracking : Tracking x) {n : Nat} (counts : Counts n x y) : Tracking y := by
  rw [counts.rest]
  exact tracking.downloaded _

theorem Tracking.goes (tracking : Tracking x) {m n : MetadataFetch} (found : x.metadata = some m) (next : n.Tracked)
    (room : n.size = 0 → n.requested.len = 0 → m.size = 0 ∧ m.requested.len = 0 ∨ x.Unserved) :
    Tracking { x with metadata := some n } := by
  refine ⟨fun got same => ?_, fun got same unsized blank => ?_, fun _ => ?_⟩
  · cases same
    exact next
  · cases same
    rcases room unsized blank with ⟨size, len⟩ | unserved
    · exact tracking.unserved m found size len
    · exact unserved
  · exact tracking.fetching (by rw [found]; exact Option.some_ne_none m)

theorem tracking_of_ended (ended : x.metadata = none) : Tracking x := by
  refine ⟨fun m found => ?_, fun m found => ?_, fun found => absurd ended found⟩
  · rw [ended] at found
    cases found
  · rw [ended] at found
    cases found

theorem Tracking.peers (tracking : Tracking x) {facets : ConnId → Option Facet}
    (fewer : ∀ conn a, facets conn = some a → a.extMetadata = none ∨
      ∃ b, x.facets conn = some b ∧ b.extMetadata = a.extMetadata) : Tracking { x with facets := facets } := by
  refine ⟨tracking.tracked, fun m found unsized blank conn a told => ?_, tracking.fetching⟩
  rcases fewer conn a told with silent | ⟨b, before, same⟩
  · exact silent
  · exact same ▸ tracking.unserved m found unsized blank conn b before

theorem Tracking.tell (tracking : Tracking x) (conn : ConnId) {h : Facet → Facet}
    (id : ∀ a, (h a).extMetadata = a.extMetadata) : Tracking (x.tell conn h) := by
  refine tracking.peers fun other a told => ?_
  split at told
  · obtain ⟨b, before, rfl⟩ := Option.map_eq_some_iff.mp told
    exact .inr ⟨b, before, (id b).symm⟩
  · exact .inr ⟨a, told, rfl⟩

theorem tracking_shift (shift : Shift x y) (tracking : Tracking x) : Tracking y := by
  cases shift with
  | leave conn =>
    refine tracking.peers fun other a told => ?_
    rw [Function.update_apply] at told
    split at told
    · cases told
    · exact .inr ⟨a, told, rfl⟩
  | scatter => exact tracking.peers fun other a told => absurd told (Option.some_ne_none a).symm
  | release fetching =>
    cases found : x.metadata with
    | none =>
      refine tracking_of_ended ?_
      unfold Side.release
      rw [found]
      rfl
    | some m =>
      have released : x.release = { x with metadata := some m.release } := by
        unfold Side.release
        rw [found]
        rfl
      rw [released]
      refine tracking.goes found (tracking.tracked m found).release (fun unsized blank => .inl ⟨unsized, ?_⟩)
      rw [← blank]
      exact (MetadataFetch.len_clearAll ..).symm
  | enter conn =>
    refine tracking.peers fun other a told => ?_
    rw [Function.update_apply] at told
    split at told
    · cases told
      exact .inl rfl
    · exact .inr ⟨a, told, rfl⟩
  | tell conn id said fits => exact tracking.tell conn id

theorem Tracking.greet (tracking : Tracking x) (conn : ConnId) (id : Option UInt8)
    (free : id ≠ none → ∀ m, x.metadata = some m → m.outstanding < 8 → m.requested.get 0 = false) :
    Tracking ((x.greet conn id).ask conn) := by
  have told : ∀ other a, (x.greet conn id).facets other = some a →
      (conn = other → a.extMetadata = id) ∧ (conn ≠ other → x.facets other = some a) := by
    intro other a known
    change (if conn = other then (x.facets other).map (fun a => { a with extMetadata := id }) else x.facets other) =
      some a at known
    split at known
    · rename_i same
      obtain ⟨b, before, rfl⟩ := Option.map_eq_some_iff.mp known
      exact ⟨fun _ => rfl, fun differs => absurd same differs⟩
    · rename_i differs
      exact ⟨fun same => absurd same differs, fun _ => known⟩
  cases found : x.metadata with
  | none =>
    have ended : (x.greet conn id).metadata = none := found
    refine tracking_of_ended ?_
    unfold Side.ask
    rw [ended]
    cases ((x.greet conn id).facets conn).bind Facet.extMetadata with
    | none => exact ended
    | some id => exact ended
  | some m =>
    have tracked := tracking.tracked m found
    have fetching : (x.greet conn id).metadata = some m := found
    have absent : x.torrent = none := tracking.fetching (by rw [found]; exact Option.some_ne_none m)
    unfold Side.ask
    rw [fetching]
    cases serves : ((x.greet conn id).facets conn).bind Facet.extMetadata with
    | none =>
      refine ⟨tracking.tracked, fun got same unsized blank other a known => ?_, tracking.fetching⟩
      by_cases here : conn = other
      · subst here
        rw [known] at serves
        exact serves
      · exact tracking.unserved got same unsized blank other a ((told other a known).2 here)
    | some served =>
      obtain ⟨a, known, serving⟩ := Option.bind_eq_some_iff.mp serves
      dsimp only
      split
      · rename_i full
        refine ⟨tracking.tracked, fun got same unsized blank => ?_, tracking.fetching⟩
        -- eight requests are out, so there is room for them
        have here : m = got := Option.some.inj (fetching.symm.trans same)
        subst here
        have bound := MetadataFetch.awaited_le (m := m)
        rw [← tracked.outstanding, blank] at bound
        omega
      · rename_i few
        have speaks : id ≠ none := by
          rw [← (told conn a known).1 rfl, serving]
          exact Option.some_ne_none served
        refine ⟨fun got same => ?_, fun got same unsized blank => ?_, fun _ => absent⟩
        · cases same
          exact tracked.ask (free speaks m found (by omega))
        · cases same
          exact absurd blank m.len_asked

end Tracking

/-! ### Asking for pieces -/

section Kick
variable (env : Env)

/-- A peer is asked for a piece that has not come, and nothing else happens to the fetch or to the peers. -/
def Asked (s u : TorrentSession) (conn : ConnId) : Prop :=
  ∃ p m id piece, s.peers.get? conn = some p ∧ s.metadata = some m ∧ p.extMetadata = some id ∧
    piece < m.requested.len ∧ m.requested.get piece = false ∧
    u.metadata = some { m with requested := m.requested.set piece, outstanding := m.outstanding + 1 } ∧
    u.peers = s.peers.insert conn (p.send (.extended id (MetadataMsg.request piece).encode))

theorem askNext_cases (s : TorrentSession) (conn : ConnId) : askNext env s conn = s ∨ Asked s (askNext env s conn) conn := by
  unfold askNext
  split
  · rename_i p m found fetching
    split
    · exact .inl rfl
    · rename_i id serves
      split
      · exact .inl rfl
      · split
        · exact .inl rfl
        · rename_i piece next
          have scanned := Bitfield.nextClearFrom_spec m.requested 0
          rw [(Option.filter_eq_some_iff.mp next).1] at scanned
          exact .inr ⟨p, m, id, piece, found, fetching, serves, scanned.2.1, scanned.2.2, rfl, rfl⟩
  · exact .inl rfl

variable {s : TorrentSession} {conn : ConnId} {m : MetadataFetch}

theorem askNext_asks {p : Peer} (tracked : m.Tracked)
    (attached : s.peers.get? conn = some p) (fetching : s.metadata = some m) (ready : p.phase = .ready)
    (serves : p.extMetadata ≠ none) (few : m.outstanding < 8) {i : Nat} (inside : i < m.requested.len)
    (free : m.requested.get i = false) : Asked s (askNext env s conn) conn := by
  obtain ⟨id, known⟩ := Option.ne_none_iff_exists'.mp serves
  have scanned := Bitfield.nextClearFrom_spec m.requested 0
  cases next : m.requested.nextClearFrom 0 with
  | none =>
    rw [next] at scanned
    rw [scanned i (Nat.zero_le i) inside] at free
    cases free
  | some piece =>
    rw [next] at scanned
    have numbered : (decide (m.pieceCount = 0) || decide (piece < m.pieceCount)) = true := by
      by_cases unsized : m.size = 0
      · simp [MetadataFetch.pieceCount, unsized]
      · have bound := scanned.2.1
        rw [tracked.sized unsized] at bound
        simp [bound]
    have listed : (m.requested.nextClearFrom 0).filter
        (fun i => decide (m.pieceCount = 0) || decide (i < m.pieceCount)) = some piece := by
      rw [next]
      exact Option.filter_eq_some_iff.mpr ⟨rfl, numbered⟩
    have idle : ¬ (p.phase ≠ .ready ∨ m.outstanding ≥ 8) := by
      rw [not_or]
      exact ⟨not_not.mpr ready, by omega⟩
    refine ⟨p, m, id, piece, attached, fetching, known, scanned.2.1, scanned.2.2, ?_, ?_⟩
    · unfold askNext
      rw [attached, fetching]
      dsimp only
      rw [known]
      dsimp only
      rw [if_neg idle, listed]
    · unfold askNext
      rw [attached, fetching]
      dsimp only
      rw [known]
      dsimp only
      rw [if_neg idle, listed]

theorem tracking_askNext (tracking : Tracking s.side) (conn : ConnId) : Tracking (askNext env s conn).side := by
  rcases askNext_cases env s conn with same | ⟨p, m, id, piece, attached, fetching, serves, inside, free, next, _⟩
  · rw [same]
    exact tracking
  · rw [side_askNext, next]
    refine tracking.goes fetching ((tracking.tracked m fetching).request inside free) (fun _ blank => ?_)
    have len : (m.requested.set piece).len = 0 := blank
    rw [Bitfield.len_set] at len
    omega

theorem tracking_kickPeers (conns : List ConnId) (tracking : Tracking s.side) :
    Tracking (conns.foldl (askNext env) s).side := by
  induction conns generalizing s with
  | nil => exact tracking
  | cons c tail ih => exact ih (tracking_askNext env tracking c)

theorem tracking_sweepMetadataRequests (tracking : Tracking s.side) : Tracking (sweepMetadataRequests env s).side := by
  unfold sweepMetadataRequests
  split
  · exact tracking
  · rename_i m fetching
    split
    · exact tracking
    · refine tracking.goes (x := s.side) fetching (tracking.tracked m fetching).release (fun unsized blank => .inl ⟨unsized, ?_⟩)
      rw [← blank]
      exact (MetadataFetch.len_clearAll ..).symm

theorem tracking_kickMetadata {H : Type} {w : World H} (tracking : Tracking w.sess.side) :
    Tracking ((kickMetadata env w).getD w).sess.side := by
  refine kickMetadata_getD (P := fun v => Tracking v.sess.side) tracking fun v kicks => ?_
  rw [sess_kickMetadata env kicks]
  exact tracking_kickPeers env _ (tracking_sweepMetadataRequests env tracking)

theorem kickPeers_others {conns : List ConnId} (other : conn ∉ conns) (s : TorrentSession) :
    (conns.foldl (askNext env) s).peers.get? conn = s.peers.get? conn := by
  induction conns generalizing s with
  | nil => rfl
  | cons c tail ih =>
    rw [List.mem_cons, not_or] at other
    rw [List.foldl_cons, ih other.2]
    rcases askNext_cases env s c with same | ⟨p, m, id, piece, _, _, _, _, _, _, peers⟩
    · rw [same]
    · rw [peers, get?_insert_ne _ _ (Ne.symm other.1)]

/-- Some ready peer takes metadata messages, fewer than eight requests are out, and there is a piece to ask for: the
first while the size is unknown. -/
def Kickable (s : TorrentSession) : Prop :=
  ∃ m conn p piece, s.metadata = some m ∧ s.peers.get? conn = some p ∧ p.phase = .ready ∧ p.extMetadata ≠ none ∧
    m.outstanding < 8 ∧ m.pieces.contains piece = false ∧ m.requested.get piece = false ∧
    if m.size = 0 then piece = 0 else piece < m.pieceCount

def SendsRequest (s u : TorrentSession) : Prop :=
  ∃ m conn p q id piece, s.metadata = some m ∧ s.peers.get? conn = some p ∧ p.extMetadata = some id ∧
    m.pieces.contains piece = false ∧ u.peers.get? conn = some q ∧
    q.out = p.out ++ (Message.extended id (MetadataMsg.request piece).encode).encode

theorem kickPeers_send {conns : List ConnId} (distinct : conns.Nodup) {p : Peer} (tracked : m.Tracked)
    (listed : conn ∈ conns) (attached : s.peers.get? conn = some p)
    (fetching : s.metadata = some m) (ready : p.phase = .ready) (serves : p.extMetadata ≠ none)
    (few : m.outstanding < 8) {i : Nat} (inside : i < m.requested.len) (free : m.requested.get i = false) :
    SendsRequest s (conns.foldl (askNext env) s) := by
  induction conns with
  | nil => cases listed
  | cons c tail ih =>
    obtain ⟨absent, rest⟩ := List.nodup_cons.mp distinct
    rw [List.foldl_cons]
    by_cases asked : Asked s (askNext env s c) c
    · obtain ⟨r, n, id, piece, found, same, known, _, unasked, _, peers⟩ := asked
      have here : m = n := Option.some.inj (fetching.symm.trans same)
      subst here
      have missing : m.pieces.contains piece = false := by
        by_contra present
        rw [Bool.not_eq_false] at present
        rw [tracked.asked piece present] at unasked
        cases unasked
      refine ⟨m, c, r, r.send (.extended id (MetadataMsg.request piece).encode), id, piece, fetching, found, known, missing, ?_, rfl⟩
      rw [kickPeers_others env absent, peers, get?_insert_self]
    · have same : askNext env s c = s := (askNext_cases env s c).resolve_right asked
      have later : conn ∈ tail := by
        rcases List.mem_cons.mp listed with rfl | later
        · exact absurd (askNext_asks env tracked attached fetching ready serves few inside free) asked
        · exact later
      rw [same]
      exact ih rest later

theorem sweepMetadataRequests_cases (fetching : s.metadata = some m) : (sweepMetadataRequests env s).peers = s.peers ∧
      ((sweepMetadataRequests env s).metadata = some m ∨ (sweepMetadataRequests env s).metadata = some m.release) := by
  unfold sweepMetadataRequests
  rw [fetching]
  dsimp only
  split
  · exact ⟨rfl, .inl fetching⟩
  · exact ⟨rfl, .inr rfl⟩

theorem kickMetadata_sends {H : Type} {w : World H} (tracking : Tracking w.sess.side) (kickable : Kickable w.sess) :
    ∃ v, kickMetadata env w = some v ∧ SendsRequest w.sess v.sess := by
  obtain ⟨m, conn, p, i, fetching, attached, ready, serves, few, missing, free, numbered⟩ := kickable
  have tracked := tracking.tracked m fetching
  have inside : i < m.requested.len := by
    by_cases unsized : m.size = 0
    · rw [if_pos unsized] at numbered
      by_contra past
      have blank : m.requested.len = 0 := by omega
      exact serves (tracking.unserved m fetching unsized blank conn (facet p) (congrArg (Option.map facet) attached))
    · rw [if_neg unsized] at numbered
      rw [tracked.sized unsized]
      exact numbered
  obtain ⟨peers, swept⟩ := sweepMetadataRequests_cases env fetching
  have after := tracking_sweepMetadataRequests env tracking
  have starts : (kickMetadata env w).isSome = true := kickMetadata_isSome (by rw [fetching]; rfl)
  obtain ⟨v, kicks⟩ := Option.isSome_iff_exists.mp starts
  have kicked : v.sess.peers = ((sweepMetadataRequests env w.sess).peers.keys.foldl (askNext env)
      (sweepMetadataRequests env w.sess)).peers := by
    rw [kickMetadata_some kicks]
    unfold announceStarted
    split <;> rfl
  generalize sweepMetadataRequests env w.sess = s at peers swept after kicked
  -- the sweep leaves the piece free and gives room
  obtain ⟨n, now, pieces, len, less, still⟩ : ∃ n, s.metadata = some n ∧ n.pieces = m.pieces ∧
      n.requested.len = m.requested.len ∧ n.outstanding ≤ m.outstanding ∧ n.requested.get i = false := by
    rcases swept with same | released
    · exact ⟨m, same, rfl, rfl, Nat.le_refl _, free⟩
    · refine ⟨m.release, released, rfl, MetadataFetch.len_clearAll .., Nat.sub_le .., ?_⟩
      refine (MetadataFetch.get_clearAll ..).trans ?_
      rw [free, Bool.false_and]
  have listed : conn ∈ s.peers.keys := (mem_keys_iff ..).mpr ⟨p, peers ▸ attached⟩
  obtain ⟨n', c, r, q, id, piece, found, here, known, unsent, sent, out⟩ := kickPeers_send env s.peers.keys_nodup
    (after.tracked n now) listed (peers ▸ attached) now ready serves (by omega) (len ▸ inside) still
  have same : n = n' := Option.some.inj (now.symm.trans found)
  subst same
  refine ⟨v, kicks, m, c, r, q, id, piece, fetching, peers ▸ here, known, pieces ▸ unsent, ?_, out⟩
  rw [kicked]
  exact sent

end Kick

/-! ### Runs -/

section Runs
variable {H : Type} {digests : Digests} {host : Host H}

/-- The message leads to no second request for the first piece, brings no piece that was not asked for while others
are awaited, and leaves a fetch that cannot ask for anything only to peers that cannot be asked. -/
structure Encounter.Expected (digests : Digests) (e : Encounter H) : Prop where
  greeting : ∀ payload ext m, e.msg = .extended 0 payload → ExtHandshake.parse payload = .ok ext →
    ext.m.get? (ascii "ut_metadata") ≠ none → e.world.sess.metadata = some m → m.outstanding < 8 →
    m.requested.get 0 = false
  first : ∀ payload piece total data m, e.msg = .extended 3 payload →
    MetadataMsg.parse payload = .ok (.data piece total data) → e.world.sess.metadata = some m →
    total ≤ MAX_METADATA_SIZE → m.size = 0 →
    piece < divCeil total METADATA_PIECE ∨ m.outstanding = 0 ∧ (total ≠ 0 ∨ e.world.sess.side.Unserved)
  due : ∀ payload piece total data m, e.msg = .extended 3 payload →
    MetadataMsg.parse payload = .ok (.data piece total data) → e.world.sess.metadata = some m →
    m.Takes piece total → m.size ≠ 0 →
    m.pieces.contains piece = true ∨ m.requested.get piece = true ∨ m.outstanding = 0
  restart : ∀ payload piece total data m, e.msg = .extended 3 payload →
    MetadataMsg.parse payload = .ok (.data piece total data) → e.world.sess.metadata = some m →
    m.Takes piece total → ((m.sized total).store piece data).Spoilt digests e.world.sess.infoHash →
    satAdd32 e.world.sess.metadataHashFails 1 < MAX_METADATA_HASH_FAILS → e.world.sess.side.Unserved
  refusal : ∀ payload piece m, e.msg = .extended 3 payload → MetadataMsg.parse payload = .ok (.reject piece) →
    e.world.sess.metadata = some m → m.requested.get piece = true → m.pieces.contains piece = false

theorem sized_of_known {m : MetadataFetch} (known : m.size ≠ 0) (total : Nat) : m.sized total = m := if_neg known

theorem tracking_outcome (e : Encounter H) (expected : e.Expected digests) (tracking : Tracking e.world.sess.side) :
    Tracking (e.outcome digests host).sess.side := by
  have heard := heard_dispatch digests host e.env e.conn e.msg e.world
  unfold Encounter.outcome
  generalize (dispatch digests host e.env e.conn e.msg e.world).2.sess.side = y at heard ⊢
  generalize said : e.msg = msg at heard
  cases heard with
  | plain shifts => exact shifts.invariant tracking_shift tracking
  | declares all => exact tracking.tell e.conn (fun _ => rfl)
  | counted index start data n => exact tracking.counted (counts_count _ n)
  | greeted parsed =>
    split
    · exact tracking.greet e.conn _ (fun speaks m found few => expected.greeting _ _ m said parsed speaks found few)
    · rename_i known
      refine tracking_of_ended ?_
      by_contra fetching
      rw [tracking.fetching fetching] at known
      exact known rfl
  | @gathered payload data piece total m y parsed fetching gather =>
    have tracked := tracking.tracked m fetching
    cases gather with
    | refused wrong => exact tracking
    | outside small agrees past =>
      by_cases unsized : m.size = 0
      · rcases expected.first _ _ _ _ m said parsed fetching small unsized with inside | ⟨idle, told⟩
        · rw [MetadataFetch.sized, if_pos unsized] at past
          have beyond : divCeil total METADATA_PIECE ≤ piece := past
          omega
        · refine tracking.goes fetching (tracked.resize unsized idle total) (fun zero _ => .inr ?_)
          rw [agrees] at zero
          exact told.resolve_left (not_not.mpr zero)
      · rw [sized_of_known unsized]
        exact tracking.goes fetching tracked (fun zero => absurd zero unsized)
    | stored takes =>
      have kept : ((m.sized total).store piece data).Tracked := by
        by_cases unsized : m.size = 0
        · exact tracked.first unsized takes.2.2 data
        · have due := expected.due _ _ _ _ m said parsed fetching takes unsized
          have inside := takes.2.2
          rw [sized_of_known unsized] at inside ⊢
          exact tracked.store unsized inside due data
      refine tracking.goes fetching kept (fun _ blank => ?_)
      have len : ((m.sized total).store piece data).requested.len = (m.sized total).requested.len := by
        unfold MetadataFetch.store
        split
        · rfl
        · exact Bitfield.len_set ..
      have inside := takes.2.2
      omega
    | restart takes spoilt again =>
      refine tracking.goes fetching MetadataFetch.tracked_empty (fun _ _ => .inr ?_)
      exact expected.restart _ _ _ _ m said parsed fetching takes spoilt again
    | ended takes => exact tracking_of_ended rfl
    | install takes yields => exact tracking_of_ended rfl
  | @rejected payload piece parsed =>
    cases found : e.world.sess.side.metadata with
    | none => exact tracking_of_ended rfl
    | some m =>
      rw [Option.map_some]
      have tracked := tracking.tracked m found
      refine tracking.goes found (tracked.reject (expected.refusal _ _ m said parsed found)) (fun unsized blank => .inl ?_)
      unfold MetadataFetch.rejected at unsized blank
      split at blank
      · rename_i present
        rw [if_pos present] at unsized
        exact ⟨unsized, (Bitfield.len_clear ..).symm.trans blank⟩
      · rename_i unasked
        rw [if_neg unasked] at unsized
        exact ⟨unsized, blank⟩

theorem tracking_fetches (env : Env) (e : Event H) (w : World H) (fetches : e.fetches = true)
    (tracking : Tracking w.sess.side) : Tracking (step digests host env e w).sess.side := by
  cases e with
  | kickMetadata =>
    rw [step]
    split
    · exact tracking_kickMetadata env tracking
    · exact tracking
  | install t =>
    rw [step]
    split
    · rw [side_installTorrent]
      exact tracking_of_ended rfl
    · exact tracking
  | driveWebseed => exact tracking.counted (counts_driveWebseed host env w)
  | rangeJobDone id result => exact tracking.counted (counts_onRangeJobDone id result env.now w.sess)
  | _ => cases fetches

theorem tracking_initial {s : TorrentSession} (initial : Initial s) : Tracking s.side := by
  induction initial with
  | torrent t cfg now => exact tracking_of_ended rfl
  | magnet ih webSeeds cfg now =>
    refine ⟨fun m found => ?_, fun m found unsized blank conn a told => ?_, fun _ => rfl⟩
    · cases found
      exact MetadataFetch.tracked_empty
    · cases told
  | restored fresh haveBytes priorities up down reputation now tracking =>
    rw [side_applySavedState]
    exact tracking

/-- The fetch counts what it awaits, and a kick sends a request whenever there is one to send. -/
structure Progresses (digests : Digests) (host : Host H) (w : World H) : Prop where
  counts : ∀ m, w.sess.metadata = some m → m.outstanding = m.awaited
  kicks : ∀ env, Kickable w.sess → ∃ v, kickMetadata env w = some v ∧
    step digests host env .kickMetadata w = v ∧ SendsRequest w.sess v.sess

theorem progresses_of_tracking {w : World H} (tracking : Tracking w.sess.side) : Progresses digests host w := by
  refine ⟨fun m found => (tracking.tracked m found).outstanding, fun env kickable => ?_⟩
  obtain ⟨v, kicks, sends⟩ := kickMetadata_sends env tracking kickable
  obtain ⟨m, _, _, _, found, _⟩ := kickable
  have absent : w.sess.torrent = none := tracking.fetching (by
    rw [show w.sess.side.metadata = some m from found]
    exact Option.some_ne_none m)
  refine ⟨v, kicks, ?_, sends⟩
  rw [step, if_pos (by rw [absent]; rfl), kicks]
  rfl

/-- A session that fetches its metadata has a fetch. -/
def Provided (s : TorrentSession) : Prop := s.status = .fetchingMetadata → s.torrent = none → s.metadata.isSome = true

/-- The call does not start a session that has given up its fetch. -/
def StartsProvided (e : Event H) (w : World H) : Prop :=
  match e with
  | .start => w.sess.status ≠ .downloading → w.sess.status ≠ .seeding → w.sess.torrent = none → w.sess.metadata.isSome = true
  | _ => True

theorem Informed.provided {s : TorrentSession} (informed : Informed s) : Provided s :=
  fun status absent => (informed.fetching (by simp [isActive, status]) absent).2

theorem Provided.of_status {s : TorrentSession} {status : SessionStatus} (same : s.status = status)
    (other : status ≠ .fetchingMetadata) : Provided s := fun fetching => absurd (same.symm.trans fetching) other

theorem Provided.congr {s u : TorrentSession} (provided : Provided s) (torrent : u.torrent = s.torrent)
    (status : u.status = s.status) (fetching : u.metadata.isSome = s.metadata.isSome) : Provided u := by
  unfold Provided
  rw [torrent, status, fetching]
  exact provided

theorem provided_move {w v : World H} (move : Move w v) (provided : Provided w.sess) : Provided v.sess := by
  cases move.turn with
  | steady same =>
    exact provided.congr (congrArg Standing.torrent same.standing) (congrArg Standing.status same.standing)
      (congrArg Standing.fetching same.standing)
  | install env t absent =>
    intro _ none
    rw [show (w.map (installed env t)).sess.torrent = some t from (installed_spec env t w.sess).torrent] at none
    cases none
  | refetch fetching standing traced =>
    have some : v.sess.metadata.isSome = w.sess.metadata.isSome := congrArg Standing.fetching standing
    exact fun _ _ => some.trans (Option.isSome_iff_ne_none.mpr fetching)
  | fail standing traced =>
    have status : v.sess.status = .failed := congrArg Standing.status standing
    exact Provided.of_status status (by decide)

theorem provided_deed {env : Env} {e : Event H} {w v : World H} (deed : Deed host env e w v) (starts : StartsProvided e w)
    (provided : Provided w.sess) : Provided v.sess := by
  intro status absent
  have none : w.sess.torrent = none := deed.torrent.symm.trans absent
  cases deed with
  | start halted =>
    have metadata : (started env w.sess).metadata = w.sess.metadata := congrArg Kept.metadata (kept_refreshCompletion _)
    exact (congrArg Option.isSome metadata).trans (starts halted.1 halted.2 none)
  | pause running => cases status
  | resume paused =>
    rw [resume, if_neg (not_not.mpr paused)] at status
    have same := refreshCompletion_absent (show TorrentSession.torrent { w.sess with status := .downloading } = Option.none from none)
    have downloading : SessionStatus.downloading = .fetchingMetadata := (congrArg TorrentSession.status same).symm.trans status
    cases downloading
  | stop running =>
    unfold Session.stop at status
    rw [if_neg running] at status
    cases status
  | setFilePriority file prio w =>
    have same : (Session.setFilePriority file prio w.sess).2 = w.sess := by simp [Session.setFilePriority, none]
    exact provided.congr (congrArg TorrentSession.torrent same) (congrArg TorrentSession.status same)
      (congrArg (fun s => s.metadata.isSome) same) status absent
  | setFilePriorities priorities w =>
    have same : (Session.setFilePriorities priorities w.sess).2 = w.sess := by simp [Session.setFilePriorities, none]
    exact provided.congr (congrArg TorrentSession.torrent same) (congrArg TorrentSession.status same)
      (congrArg (fun s => s.metadata.isSome) same) status absent
  | setHoldData hold w =>
    refine provided.congr ?_ ?_ ?_ status absent <;> simp [World.map, Session.setHoldData, recomputePriorities, none]
  | verify verifying torrent located written =>
    rw [torrent] at none
    cases none
  | share state w => exact provided status absent

/-- In every run whose messages are all expected and whose starts find a fetch, the metadata fetch progresses, at every message and at
the end, and no kick of a fetching session panics. -/
theorem metadata_progresses {s : TorrentSession} (initial : Initial s) (io : DiskCache.State H)
    (events : List (Env × Event H)) (expected : ∀ e ∈ encounters digests host events ⟨s, io, []⟩, e.Expected digests)
    (starts : Along digests host StartsProvided events ⟨s, io, []⟩) :
    Progresses digests host (run digests host events ⟨s, io, []⟩) ∧
      ((run digests host events ⟨s, io, []⟩).sess.status = .fetchingMetadata →
        (run digests host events ⟨s, io, []⟩).sess.torrent = none →
        ∀ env, (kickMetadata env (run digests host events ⟨s, io, []⟩)).isSome = true) ∧
      ∀ e ∈ encounters digests host events ⟨s, io, []⟩, Progresses digests host e.world := by
  obtain ⟨ends, each⟩ := run_sides (P := Tracking) (F := fun _ => True) tracking_shift tracking_outcome
    (fun env e w fetches _ => tracking_fetches env e w fetches) (fun _ _ => trivial) expected (tracking_initial initial)
  have provided := starts.invariant (P := fun w => Provided w.sess)
    (fun fits before => step_preserves (P := fun w => Provided w.sess) provided_move
      (fun deed => provided_deed deed fits before) before) (informed_initial initial).provided
  exact ⟨progresses_of_tracking ends, fun status absent env => kickMetadata_isSome (provided status absent),
    fun e member => progresses_of_tracking (each e member)⟩

end Runs

/-! ### One peer and two -/

namespace Sample

def extGreeting : Message :=
  .extended 0 (ExtHandshake.encode ⟨(∅ : OrdMap Bytes UInt8).insert (ascii "ut_metadata") 3, none, none, none, none, none⟩)

def courting : List (Env × Event Unit) :=
  [(env, .attach 1 NetAddr.unspecified false .manual), (env, .data 1 (linkedHandshake.encode ++ extGreeting.encode)),
    (env, .kickMetadata)]

def secondHandshake : Handshake := plainHandshake 0 4

def crowding : List (Env × Event Unit) :=
  [(env, .attach 1 NetAddr.unspecified false .manual), (env, .data 1 (linkedHandshake.encode ++ extGreeting.encode)),
    (env, .attach 2 NetAddr.unspecified false .manual), (env, .data 2 (secondHandshake.encode ++ extGreeting.encode)),
    (env, .disconnect 1)]

theorem courting_messages : (encounters digests host courting linked).map
    (fun e => (e.msg, e.world.sess.metadata)) = [(extGreeting, some MetadataFetch.empty)] := by decide

end Sample

theorem metadata_progresses_courting :
    Progresses Sample.digests Sample.host (run Sample.digests Sample.host Sample.courting Sample.linked) ∧
      (kickMetadata Sample.env (run Sample.digests Sample.host Sample.courting Sample.linked)).isSome = true ∧
      ∀ e ∈ encounters Sample.digests Sample.host Sample.courting Sample.linked,
        Progresses Sample.digests Sample.host e.world := by
  suffices expected : ∀ e ∈ encounters Sample.digests Sample.host Sample.courting Sample.linked, e.Expected Sample.digests by
    obtain ⟨ends, kicks, each⟩ := metadata_progresses (.magnet _ [] .default 0) Sample.io Sample.courting expected
      ⟨trivial, trivial, trivial, trivial⟩
    exact ⟨ends, kicks (by decide) (by decide) Sample.env, each⟩
  intro e member
  have told : (e.msg, e.world.sess.metadata) ∈ (encounters Sample.digests Sample.host Sample.courting Sample.linked).map
      (fun e => (e.msg, e.world.sess.metadata)) := List.mem_map_of_mem member
  rw [Sample.courting_messages, List.mem_singleton, Prod.mk.injEq] at told
  obtain ⟨said, fetching⟩ := told
  have other : ∀ payload, e.msg ≠ .extended 3 payload := by
    intro payload same
    rw [said] at same
    simp [Sample.extGreeting] at same
  refine ⟨?_, ?_, ?_, ?_, ?_⟩
  · intro payload ext m _ _ _ found _
    rw [fetching] at found
    cases found
    rfl
  · exact fun payload _ _ _ _ same => absurd same (other payload)
  · exact fun payload _ _ _ _ same => absurd same (other payload)
  · exact fun payload _ _ _ _ same => absurd same (other payload)
  · exact fun payload _ _ same => absurd same (other payload)

/-- Both peers are asked for the first piece, its release takes back one of the two requests, and the counter keeps the
other for good. -/
theorem first_piece_counted_twice : ∃ w, Reachable Sample.digests Sample.host w ∧
    ¬ Progresses Sample.digests Sample.host w := by
  refine ⟨run Sample.digests Sample.host Sample.crowding Sample.linked,
    ⟨_, _, Sample.crowding, .magnet _ [] .default 0, rfl⟩, fun progresses => ?_⟩
  have counted : (run Sample.digests Sample.host Sample.crowding Sample.linked).sess.metadata.map
      (fun m => (m.outstanding, m.awaited)) = some (1, 0) := by decide
  obtain ⟨m, fetching, counts⟩ := Option.map_eq_some_iff.mp counted
  have equal := progresses.counts m fetching
  rw [Prod.mk.injEq] at counts
  omega

end TypeBit.Session
