import TypeBit.Session.Counting

/-! Whether what a peer claims to have fits the torrent. A peer gets a bitfield for the pieces known when it attaches,
and keeps it when the metadata arrives; so it fits exactly as long as metadata arrives while nobody is attached. -/

namespace TypeBit.Session
open Metainfo Leech Wire

/-- Every bitfield fits the piece count, which is that of the torrent; metadata is fetched only without a torrent. -/
structure Fitting (x : Side) : Prop where
  fits : ∀ conn a, x.facets conn = some a → a.haveBits.len = x.pieceCount
  count : x.pieceCount = (x.torrent.map Torrent.pieceCount).getD 0
  fetching : x.metadata ≠ none → x.torrent = none

section Fitting
variable {x y : Side}

theorem Fitting.tell (fitting : Fitting x) (conn : ConnId) {h : Facet → Facet}
    (fits : ∀ a, a.haveBits.len = x.pieceCount → (h a).haveBits.len = x.pieceCount) : Fitting (x.tell conn h) := by
  refine ⟨fun other a told => ?_, fitting.count, fitting.fetching⟩
  unfold Side.tell at told
  dsimp only at told
  split at told
  · obtain ⟨b, known, rfl⟩ := Option.map_eq_some_iff.mp told
    exact fits b (fitting.fits other b known)
  · exact fitting.fits other a told

theorem Fitting.greet (fitting : Fitting x) (conn : ConnId) (id : Option UInt8) : Fitting (x.greet conn id) :=
  fitting.tell conn (fun _ fits => fits)

theorem Fitting.metadata (fitting : Fitting x) {other : Option MetadataFetch} (fetching : other ≠ none → x.torrent = none) :
    Fitting { x with metadata := other } := ⟨fitting.fits, fitting.count, fetching⟩

theorem Fitting.downloaded (fitting : Fitting x) (n : Nat) : Fitting { x with downloaded := n } :=
  ⟨fitting.fits, fitting.count, fitting.fetching⟩

theorem Fitting.counted (fitting : Fitting x) {n : Nat} (counts : Counts n x y) : Fitting y := by
  rw [counts.rest]
  exact fitting.downloaded _

theorem Fitting.install (fitting : Fitting x) {t : Torrent} (absent : x.torrent = none)
    (alone : (∀ conn, x.facets conn = none) ∨ t.pieceCount = 0) : Fitting (x.install t) := by
  refine ⟨fun conn a told => ?_, rfl, fun fetching => absurd rfl fetching⟩
  change x.facets conn = some a at told
  change a.haveBits.len = t.pieceCount
  rcases alone with nobody | empty
  · rw [nobody conn] at told
    cases told
  · have none : x.pieceCount = 0 := by
      rw [fitting.count, absent]
      rfl
    rw [empty, fitting.fits conn a told, none]

theorem fitting_shift (shift : Shift x y) (fitting : Fitting x) : Fitting y := by
  cases shift with
  | leave conn =>
    refine ⟨fun other a told => ?_, fitting.count, fitting.fetching⟩
    change Function.update x.facets conn none other = some a at told
    rw [Function.update_apply] at told
    split at told
    · cases told
    · exact fitting.fits other a told
  | scatter => exact ⟨fun other a told => absurd told (Option.some_ne_none a).symm, fitting.count, fitting.fetching⟩
  | release fetching => exact fitting.metadata (fun _ => fetching)
  | enter conn =>
    refine ⟨fun other a told => ?_, fitting.count, fitting.fetching⟩
    change Function.update x.facets conn (some ⟨Bitfield.new x.pieceCount, none, false⟩) other = some a at told
    rw [Function.update_apply] at told
    split at told
    · cases told
      rfl
    · exact fitting.fits other a told
  | tell conn id said fits => exact fitting.tell conn fits

theorem Fitting.ask (fitting : Fitting x) (conn : ConnId) : Fitting (x.ask conn) := by
  unfold Side.ask
  split
  · rename_i id m told fetching
    split
    · exact fitting
    · exact fitting.metadata (fun _ => fitting.fetching (by rw [fetching]; exact Option.some_ne_none m))
  · exact fitting

end Fitting

section Messages
variable {H : Type} {digests : Digests} {host : Host H}

/-- The message completes the metadata of this torrent. -/
def Encounter.Brings (digests : Digests) (e : Encounter H) (t : Torrent) : Prop :=
  ∃ payload piece total data m, e.msg = .extended 3 payload ∧
    MetadataMsg.parse payload = .ok (.data piece total data) ∧ e.world.sess.metadata = some m ∧ m.Takes piece total ∧
    ((m.sized total).store piece data).Yields digests e.world.sess.infoHash t

theorem fitting_outcome (e : Encounter H) (alone : ∀ t, e.Brings digests t → t.pieceCount = 0)
    (fitting : Fitting e.world.sess.side) : Fitting (e.outcome digests host).sess.side := by
  have heard := heard_dispatch digests host e.env e.conn e.msg e.world
  unfold Encounter.outcome
  generalize (dispatch digests host e.env e.conn e.msg e.world).2.sess.side = y at heard ⊢
  generalize said : e.msg = msg at heard
  cases heard with
  | plain shifts => exact shifts.invariant fitting_shift fitting
  | declares all => exact fitting.tell e.conn (fun _ fits => fits)
  | counted index start data n => exact fitting.counted (counts_count _ n)
  | greeted parsed =>
    split
    · exact (fitting.greet e.conn _).ask e.conn
    · exact fitting.greet e.conn _
  | gathered parsed fetching gather =>
    have absent : e.world.sess.side.torrent = none := fitting.fetching (by rw [fetching]; exact Option.some_ne_none _)
    cases gather with
    | refused wrong => exact fitting
    | outside small agrees past => exact fitting.metadata (fun _ => absent)
    | stored takes => exact fitting.metadata (fun _ => absent)
    | restart takes spoilt => exact fitting.metadata (fun _ => absent)
    | ended takes => exact fitting.metadata (fun some => absurd rfl some)
    | install takes yields =>
      exact fitting.install absent (.inr (alone _ ⟨_, _, _, _, _, said, parsed, fetching, takes, yields⟩))
  | rejected parsed =>
    refine fitting.metadata (fun some => fitting.fetching (fun none => some ?_))
    rw [none]
    rfl

/-- Metadata that the engine hands over meets no attached peer, or has no pieces. -/
def InstallsAlone (moment : (Env × Event H) × World H) : Prop :=
  ∀ t, moment.1.2 = .install t → moment.2.sess.torrent = none →
    (∀ conn, moment.2.sess.peers.get? conn = none) ∨ t.pieceCount = 0

theorem fitting_fetches (env : Env) (e : Event H) (w : World H) (fetches : e.fetches = true)
    (alone : InstallsAlone ((env, e), w)) (fitting : Fitting w.sess.side) :
    Fitting (step digests host env e w).sess.side := by
  cases e with
  | kickMetadata =>
    rw [step]
    split
    · rename_i absent
      rw [side_kickMetadata]
      exact fitting.metadata (fun _ => Option.isNone_iff_eq_none.mp absent)
    · exact fitting
  | install t =>
    rw [step]
    split
    · rename_i absent
      rw [side_installTorrent]
      refine fitting.install (Option.isNone_iff_eq_none.mp absent) ?_
      refine (alone t rfl (Option.isNone_iff_eq_none.mp absent)).imp (fun nobody conn => ?_) id
      exact congrArg (Option.map facet) (nobody conn)
    · exact fitting
  | driveWebseed => exact fitting.counted (counts_driveWebseed host env w)
  | rangeJobDone id result => exact fitting.counted (counts_onRangeJobDone id result env.now w.sess)
  | _ => cases fetches

end Messages

/-! ### Initial sessions -/

theorem fitting_initial {s : TorrentSession} (initial : Initial s) : Fitting s.side := by
  induction initial with
  | torrent t cfg now => exact ⟨fun conn a told => absurd told (Option.some_ne_none a).symm, rfl, fun some => absurd rfl some⟩
  | magnet ih webSeeds cfg now => exact ⟨fun conn a told => absurd told (Option.some_ne_none a).symm, rfl, fun _ => rfl⟩
  | restored fresh haveBytes priorities up down reputation now fitting =>
    rw [side_applySavedState]
    exact fitting

/-! ### Claims of the peers -/

section Recorded
variable {H : Type} (digests : Digests) (host : Host H)

/-- The bitfield of every attached peer has one bit for each piece. -/
def HavesFit (w : World H) : Prop :=
  ∀ t conn p, w.sess.torrent = some t → w.sess.peers.get? conn = some p → p.haveBits.len = t.pieceCount

def Encounter.Leaves (e : Encounter H) (kept : Bitfield → Prop) : Prop :=
  ∃ q, (e.outcome digests host).sess.peers.get? e.conn = some q ∧ kept q.haveBits

/-- A Have or AllowedFast for a piece of the torrent is kept, and so is a Bitfield that fits, unless the peer has said
that it has everything. -/
def Encounter.Recorded (e : Encounter H) : Prop :=
  ∀ t p, e.world.sess.torrent = some t → e.world.sess.peers.get? e.conn = some p →
    match e.msg with
    | .haves i => i < t.pieceCount → e.Leaves digests host (fun bits => bits.get i = true)
    | .allowedFast i => i < t.pieceCount → e.Leaves digests host (fun bits => bits.get i = true)
    | .bitfield bytes => p.haveAll = false → ∀ bits, Bitfield.fromBytes bytes t.pieceCount = .ok bits →
        e.Leaves digests host (fun told => told = bits)
    | _ => True

variable {digests host}

theorem havesFit_of_fitting {w : World H} (fitting : Fitting w.sess.side) : HavesFit w := by
  intro t conn p torrent attached
  have told : w.sess.side.facets conn = some (facet p) := congrArg (Option.map facet) attached
  have known : w.sess.side.torrent = some t := torrent
  rw [show p.haveBits.len = w.sess.side.pieceCount from fitting.fits conn (facet p) told, fitting.count, known]
  rfl

theorem leaves_of_side {e : Encounter H} {a : Facet} {kept : Bitfield → Prop}
    (told : (e.outcome digests host).sess.side.facets e.conn = some a) (good : kept a.haveBits) :
    e.Leaves digests host kept := by
  obtain ⟨q, attached, rfl⟩ := Option.map_eq_some_iff.mp told
  exact ⟨q, attached, good⟩

theorem facets_tell (x : Side) (conn : ConnId) (h : Facet → Facet) : (x.tell conn h).facets conn = (x.facets conn).map h :=
  if_pos rfl

theorem facets_notePiece {w : World H} {conn : ConnId} {p : Peer} {i : Nat} (attached : w.sess.peers.get? conn = some p)
    (inside : i < p.haveBits.len) : (w.mapPeer conn (notePiece i)).sess.side.facets conn =
      some { facet p with haveBits := p.haveBits.set i } := by
  have told : w.sess.side.facets conn = some (facet p) := congrArg (Option.map facet) attached
  rw [side_tell w conn (facet_notePiece i), facets_tell, told, Option.map_some]
  exact congrArg some (if_pos inside)

theorem recorded_of_fitting {e : Encounter H} (fitting : Fitting e.world.sess.side) : e.Recorded digests host := by
  intro t p torrent attached
  have fits : p.haveBits.len = t.pieceCount := havesFit_of_fitting fitting t e.conn p torrent attached
  have noted : ∀ i, i < t.pieceCount → (p.haveBits.set i).get i = true := by
    intro i inside
    rw [Bitfield.get_set, fits]
    simp [inside]
  obtain ⟨env, conn, msg, w⟩ := e
  cases msg with
  | haves i =>
    intro inside
    refine leaves_of_side (a := { facet p with haveBits := p.haveBits.set i }) ?_ (noted i inside)
    refine (congrArg (fun x => x.facets conn) (side_availabilityChanged conn _)).trans ?_
    exact facets_notePiece attached (fits ▸ inside)
  | allowedFast i =>
    intro inside
    exact leaves_of_side (facets_notePiece attached (fits ▸ inside)) (noted i inside)
  | bitfield bytes =>
    intro some bits loaded
    have count : w.sess.pieces.pieceCount = t.pieceCount := by
      have known : w.sess.side.torrent = Option.some t := torrent
      have counted := fitting.count
      rw [known] at counted
      exact counted
    have told : w.sess.side.facets conn = Option.some (facet p) := congrArg (Option.map facet) attached
    refine leaves_of_side (a := { facet p with haveBits := bits }) ?_ rfl
    change (onBitfield conn bytes w).2.sess.side.facets conn = _
    have here : w.sess.peers.get? conn = Option.some p := attached
    unfold onBitfield
    rw [here]
    dsimp only
    rw [some, if_neg Bool.false_ne_true, count, loaded]
    refine (congrArg (fun x => x.facets conn) (side_availabilityChanged conn _)).trans ?_
    rw [side_tell w conn (h := fun a => { a with haveBits := bits }) (fun _ => rfl), facets_tell, told]
    rfl
  | _ => exact trivial

/-- In every run in which metadata arrives only while no peer is attached, the bitfield of every attached peer always
fits the torrent, and every claim of a peer that fits is recorded. -/
theorem haves_fit {s : TorrentSession} (initial : Initial s) (io : DiskCache.State H) (events : List (Env × Event H))
    (alone : ∀ moment ∈ moments digests host events ⟨s, io, []⟩, InstallsAlone moment)
    (unbrought : ∀ e ∈ encounters digests host events ⟨s, io, []⟩, ∀ t, e.Brings digests t → t.pieceCount = 0) :
    HavesFit (run digests host events ⟨s, io, []⟩) ∧
      ∀ e ∈ encounters digests host events ⟨s, io, []⟩, HavesFit e.world ∧ e.Recorded digests host := by
  obtain ⟨ends, each⟩ := run_sides (P := Fitting) fitting_shift fitting_outcome fitting_fetches alone unbrought
    (fitting_initial initial)
  refine ⟨havesFit_of_fitting ends, fun e member => ?_⟩
  exact ⟨havesFit_of_fitting (each e member), recorded_of_fitting (each e member)⟩

end Recorded

/-! ### Metadata before and after a peer -/

namespace Sample

def described : List (Env × Event Unit) :=
  [(env, .install torrent), (env, .attach 1 NetAddr.unspecified false .manual),
    (env, .data 1 (handshake.encode ++ (Message.bitfield [0x80]).encode ++ (Message.haves 0).encode))]

def infoDict : Bytes := ascii "d6:lengthi3e4:name1:a12:piece lengthi16384e6:pieces20:aaaaaaaaaaaaaaaaaaaae"

def linked : World Unit := ⟨fromMagnet (InfoHash.v1 (List.replicate 20 0)) [] .default 0, io, []⟩

def linkedHandshake : Handshake := plainHandshake 0 3

def describing : List (Env × Event Unit) :=
  [(env, .attach 1 NetAddr.unspecified false .manual),
    (env, .data 1 (linkedHandshake.encode ++
      (Message.extended 3 (MetadataMsg.data 0 infoDict.length infoDict).encode).encode))]

theorem described_messages : (encounters digests host described magnet).map Encounter.msg =
    [.bitfield [0x80], .haves 0] := by decide

end Sample

theorem haves_fit_described : HavesFit (run Sample.digests Sample.host Sample.described Sample.magnet) ∧
    ∀ e ∈ encounters Sample.digests Sample.host Sample.described Sample.magnet,
      HavesFit e.world ∧ e.Recorded Sample.digests Sample.host := by
  refine haves_fit (.magnet _ [] .default 0) Sample.io Sample.described ?_ ?_
  · intro moment member t installs absent
    rcases List.mem_cons.mp member with rfl | later
    · exact .inl fun conn => rfl
    · rcases List.mem_cons.mp later with rfl | last
      · cases installs
      · rw [List.mem_singleton.mp last] at installs
        cases installs
  · intro e member t brings
    obtain ⟨payload, piece, total, data, m, said, rest⟩ := brings
    have told : Message.extended 3 payload ∈
        (encounters Sample.digests Sample.host Sample.described Sample.magnet).map Encounter.msg :=
      said ▸ List.mem_map_of_mem member
    rw [Sample.described_messages] at told
    simp at told

/-- The peer that brought the metadata keeps a bitfield without a bit. -/
theorem described_peer_unfit : ∃ w, Reachable Sample.digests Sample.host w ∧ ¬ HavesFit w := by
  refine ⟨run Sample.digests Sample.host Sample.describing Sample.linked,
    ⟨_, _, Sample.describing, .magnet _ [] .default 0, rfl⟩, fun fits => ?_⟩
  have shown : (run Sample.digests Sample.host Sample.describing Sample.linked).sess.torrent.map Torrent.pieceCount = some 1 ∧
      ((run Sample.digests Sample.host Sample.describing Sample.linked).sess.peers.get? 1).map (fun p => p.haveBits.len) =
        some 0 := by decide +kernel
  obtain ⟨t, torrent, count⟩ := Option.map_eq_some_iff.mp shown.1
  obtain ⟨p, attached, empty⟩ := Option.map_eq_some_iff.mp shown.2
  have one := fits t 1 p torrent attached
  rw [count, empty] at one
  cases one

end TypeBit.Session
