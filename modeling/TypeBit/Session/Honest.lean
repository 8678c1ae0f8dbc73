import TypeBit.Bencode.RoundTrip
import TypeBit.Session.Fitting

/-! Honest peers of a magnet session. A peer may say which pieces it has before the session knows how many there are,
and it sends the metadata of the torrent whatever size another peer claimed. Both can be held against it. -/

namespace TypeBit.Wire
open Bencode Metainfo Window

theorem value_encode {v : BVal} (valid : v.Valid) (deep : v.depth ≤ MAX_DEPTH) (bounded : v.Bounded) (rest : Bytes) :
    Parser.value (encodeValue v ++ rest) 0 0 = .ok (v, (encodeValue v).length) := by
  have denotes := encode_denotes (MAX_DEPTH + 1) v (by omega) valid bounded
  exact (valueWithin_reads _ _ 0 v _).mpr ⟨_, denotes, at_self _ rest, by simp⟩

theorem asDict_of_parse {d : Dict} {v : BVal} (parsed : BVal.parse (encodeValue (.dict d)) = .ok v) :
    ∃ e, v.asDict = some e := by
  have denotes := (parse_ok_iff _ v).mp parsed
  rw [encodeValue] at denotes
  cases v with
  | int i =>
    obtain ⟨digits, text, -⟩ := denotes
    simp [ch] at text
  | bytes b =>
    obtain ⟨c, tail, text, digit⟩ := StrToken.opens denotes
    rw [List.cons_append, List.cons.injEq] at text
    rw [← text.1] at digit
    exact absurd digit (by decide)
  | list items =>
    obtain ⟨ts, text, -⟩ := denotes
    simp [ch] at text
  | dict e => exact ⟨e, rfl⟩

def numbers (fields : List (String × Int)) : Dict := fields.map (fun f => (ascii f.1, .int f.2))

theorem dict_numbers {fields : List (String × Int)} (sorted : OrdMap.Raw.Sorted (numbers fields)) :
    dict (fields.map (fun f => (f.1, .int f.2))) = .dict (numbers fields) := by
  have inserted := insertAll_sorted [] (numbers fields) sorted
  unfold insertAll numbers at inserted
  rw [List.foldl_map, List.nil_append] at inserted
  unfold dict
  rw [List.foldl_map]
  exact congrArg BVal.dict inserted

theorem value_numbers (fields : List (String × Int)) (sorted : OrdMap.Raw.Sorted (numbers fields))
    (ranges : ∀ f ∈ fields, -2 ^ 63 ≤ f.2 ∧ f.2 < 2 ^ 63) (short : ∀ f ∈ fields, (ascii f.1).length ≤ MAX_STR_LEN)
    (few : fields.length ≤ MAX_ITEMS) (rest : Bytes) :
    Parser.value (encodeValue (dict (fields.map (fun f => (f.1, .int f.2)))) ++ rest) 0 0 =
      .ok (.dict (numbers fields), (encodeValue (dict (fields.map (fun f => (f.1, .int f.2))))).length) := by
  rw [dict_numbers sorted]
  have each : ValidEntries (numbers fields) ∧ depthEntries (numbers fields) ≤ 1 ∧ BoundedEntries (numbers fields) := by
    clear sorted few
    induction fields with
    | nil => exact ⟨trivial, Nat.zero_le 1, trivial⟩
    | cons f tail ih =>
      obtain ⟨valid, deep, bounded⟩ := ih (fun g member => ranges g (List.mem_cons_of_mem f member))
        (fun g member => short g (List.mem_cons_of_mem f member))
      refine ⟨⟨ranges f List.mem_cons_self, valid⟩, ?_, short f List.mem_cons_self, trivial, bounded⟩
      exact max_le (Nat.le_refl 1) deep
  have valid : (BVal.dict (numbers fields)).Valid := by
    rw [BVal.Valid]
    exact ⟨sorted, each.1⟩
  have bounded : (BVal.dict (numbers fields)).Bounded := by
    rw [BVal.Bounded]
    refine ⟨?_, each.2.2⟩
    unfold numbers
    rwa [List.length_map]
  refine value_encode valid ?_ bounded rest
  rw [BVal.depth]
  exact each.2.1.trans (by decide)

namespace MetadataMsg

/-- The numbers of a message fit their fields. -/
def Fits : MetadataMsg → Prop
  | request piece => piece < 2 ^ 32
  | data piece total _ => piece < 2 ^ 32 ∧ total < 2 ^ 32
  | reject piece => piece < 2 ^ 32

theorem asU32_small {n : Nat} (small : n < 2 ^ 32) : asU32 n = n := by
  unfold asU32
  omega

theorem parse_of_value {payload : Bytes} {d : Dict} {consumed : Nat} {kind piece : Int}
    (read : Parser.value payload 0 0 = .ok (.dict d, consumed)) (known : intAt d "msg_type" = some kind)
    (named : intAt d "piece" = some piece) :
    parse payload = if kind = 0 then .ok (request (asU32 piece))
      else if kind = 1 then
        okOr (u32At d "total_size") .protocol >>= fun total => .ok (data (asU32 piece) total (payload.drop consumed))
      else if kind = 2 then .ok (reject (asU32 piece)) else .error .protocol := by
  have small : u32At d "piece" = some (asU32 piece) := by
    rw [u32At, named]
    rfl
  unfold parse
  simp only [read, known, small, BVal.asDict, okOr, bind, Except.bind]

theorem type_piece : ascii "msg_type" < ascii "piece" ∧ ascii "msg_type" ≠ ascii "piece" := by decide

theorem type_total : ascii "msg_type" < ascii "total_size" ∧ ascii "msg_type" ≠ ascii "total_size" := by decide

theorem piece_total : ascii "piece" < ascii "total_size" ∧ ascii "piece" ≠ ascii "total_size" := by decide

theorem value_named (kind : Int) (low : 0 ≤ kind ∧ kind < 3) {piece : Nat} (small : piece < 2 ^ 32) :
    ∃ d n, Parser.value (encodeValue (dict [("msg_type", .int kind), ("piece", .int piece)])) 0 0 = .ok (.dict d, n) ∧
      intAt d "msg_type" = some kind ∧ intAt d "piece" = some (piece : Int) := by
  have read := value_numbers [("msg_type", kind), ("piece", piece)]
    (by simp [numbers, OrdMap.Raw.Sorted, type_piece.1]) (by simp; omega) (by simp; decide) (by simp [MAX_ITEMS]) []
  rw [List.append_nil] at read
  exact ⟨_, _, read, by simp [numbers, intAt, at?, OrdMap.Raw.get?, BVal.asInt],
    by simp [numbers, intAt, at?, OrdMap.Raw.get?, BVal.asInt, type_piece.2]⟩

theorem parse_written {msg : MetadataMsg} (fits : msg.Fits) : parse msg.encode = .ok msg := by
  cases msg with
  | request piece =>
    obtain ⟨d, n, read, known, named⟩ := value_named 0 (by decide) (show piece < 2 ^ 32 from fits)
    rw [encode, parse_of_value read known named, if_pos rfl, asU32_small fits]
  | data piece total bytes =>
    obtain ⟨small, room⟩ : piece < 2 ^ 32 ∧ total < 2 ^ 32 := fits
    have spelled : encode (data piece total bytes) = encodeValue (dict
        ([("msg_type", (1 : Int)), ("piece", piece), ("total_size", total)].map (fun f => (f.1, .int f.2)))) ++ bytes := rfl
    generalize entries : ([("msg_type", 1), ("piece", piece), ("total_size", total)] : List (String × Int)) = fields at spelled
    have read := value_numbers fields (by simp [← entries, numbers, OrdMap.Raw.Sorted, type_piece.1,
      type_total.1, piece_total.1]) (by simp [← entries]; omega) (by simp [← entries]; decide)
      (by simp [← entries, MAX_ITEMS]) bytes
    have known : intAt (numbers fields) "msg_type" = some 1 := by
      simp [← entries, numbers, intAt, at?, OrdMap.Raw.get?, BVal.asInt]
    have named : intAt (numbers fields) "piece" = some (piece : Int) := by
      simp [← entries, numbers, intAt, at?, OrdMap.Raw.get?, BVal.asInt, type_piece.2]
    have sized : u32At (numbers fields) "total_size" = some total := by
      rw [u32At, show intAt (numbers fields) "total_size" = some (total : Int) by
        simp [← entries, numbers, intAt, at?, OrdMap.Raw.get?, BVal.asInt, type_total.2, piece_total.2]]
      exact congrArg some (asU32_small room)
    rw [spelled, parse_of_value read known named, if_neg (by decide), if_pos rfl, sized, asU32_small small,
      List.drop_left]
    rfl
  | reject piece =>
    obtain ⟨d, n, read, known, named⟩ := value_named 2 (by decide) (show piece < 2 ^ 32 from fits)
    rw [encode, parse_of_value read known named, if_neg (by decide), if_neg (by decide), if_pos rfl, asU32_small fits]

end MetadataMsg
end TypeBit.Wire

namespace TypeBit.Session
open Bencode Metainfo Leech Wire

/-! ### What honest peers say -/

/-- The numbers fit, and a piece that is sent is one of an info dictionary with the hash of the magnet. -/
def TrueMetadata (digests : Digests) (ih : InfoHash) : MetadataMsg → Prop
  | .data piece total bytes => total < 2 ^ 32 ∧ ∃ info, metadataHashOk digests ih info = true ∧ total = info.length ∧
      piece * METADATA_PIECE < total ∧ bytes = (info.drop (piece * METADATA_PIECE)).take METADATA_PIECE
  | msg => msg.Fits

theorem fits_of_true {digests : Digests} {ih : InfoHash} {msg : MetadataMsg} (honest : TrueMetadata digests ih msg) :
    msg.Fits := by
  cases msg with
  | request piece => exact honest
  | data piece total bytes =>
    obtain ⟨room, info, -, -, inside, -⟩ := honest
    have grows : piece ≤ piece * METADATA_PIECE := Nat.le_mul_of_pos_right piece (by decide)
    exact ⟨by omega, room⟩
  | reject piece => exact honest

/-- What an honest peer may say to a session that has no metadata. It asks for no block and sends none. -/
def Truthful (digests : Digests) (ih : InfoHash) : Message → Prop
  | .extended id payload =>
      (id = 0 ∧ ∃ d, payload = encodeValue (.dict d)) ∨
        (id = 3 ∧ ∃ msg, TrueMetadata digests ih msg ∧ payload = msg.encode)
  | .request _ _ _ => False
  | .piece _ _ _ => False
  | .cancel _ _ _ => False
  | _ => True

def announces : Message → Bool
  | .bitfield _ => true
  | .haveAll => true
  | .haveNone => true
  | _ => false

section Honest
variable {H : Type} (digests : Digests) (host : Host H)

structure HonestPeer (conn : ConnId) (met : List (Encounter H)) : Prop where
  truthful : ∀ e ∈ met, e.conn = conn → e.world.sess.torrent = none → Truthful digests e.world.sess.infoHash e.msg
  once : met.Pairwise (fun e f => e.conn = conn → f.conn = conn → announces e.msg = true → announces f.msg = false)

/-- The message is accepted; a peer is punished for any other. -/
def Encounter.Unpunished (e : Encounter H) : Prop := (dispatch digests host e.env e.conn e.msg e.world).1 = .ok ()

/-- The session can take the message without its metadata: a bitfield is empty, an extended handshake is not beyond the
parser's limits, and a piece of metadata is small enough and of the size that the session knows, if it knows one. -/
def Encounter.Tolerated (e : Encounter H) : Prop :=
  match e.msg with
  | .bitfield bytes => bytes = []
  | .extended id payload =>
      (id = 0 → ∃ v, BVal.parse payload = .ok v) ∧
        (id = 3 → ∀ piece total data, MetadataMsg.parse payload = .ok (.data piece total data) →
          total ≤ MAX_METADATA_SIZE ∧ ∀ m, e.world.sess.metadata = some m → m.size = 0 ∨ m.size = total)
  | _ => True

theorem fromBytes_none (bytes : Bytes) : (∃ bits, Bitfield.fromBytes bytes 0 = .ok bits) ↔ bytes = [] := by
  unfold Bitfield.fromBytes
  cases bytes with
  | nil => simp [divCeil]
  | cons b tail => simp [divCeil]

theorem greeting_iff {payload : Bytes} (written : ∃ d, payload = encodeValue (.dict d)) :
    (∃ ext, ExtHandshake.parse payload = .ok ext) ↔ ∃ v, BVal.parse payload = .ok v := by
  unfold ExtHandshake.parse
  constructor
  · rintro ⟨ext, parsed⟩
    obtain ⟨v, read, -⟩ := bind_eq_ok.mp parsed
    exact ⟨v, read⟩
  · rintro ⟨v, read⟩
    obtain ⟨d, rfl⟩ := written
    obtain ⟨e, entries⟩ := asDict_of_parse read
    rw [read]
    exact ⟨_, bind_eq_ok.mpr ⟨v, rfl, bind_eq_ok.mpr ⟨e, okOr_eq_ok.mpr entries, rfl⟩⟩⟩

theorem metadata_iff (env : Env) (conn : ConnId) (msg : MetadataMsg) {w : World H} (unknown : w.sess.torrent = none) :
    (onMetadataMsg digests host env conn msg w).1 = .ok () ↔
      ∀ piece total data, msg = .data piece total data → total ≤ MAX_METADATA_SIZE ∧
        ∀ m, w.sess.metadata = some m → m.size = 0 ∨ m.size = total := by
  cases msg with
  | request piece => simp [onMetadataMsg, unknown]
  | reject piece => simp [onMetadataMsg]
  | data piece total data =>
    have shown : (∀ piece' total' data', MetadataMsg.data piece total data = .data piece' total' data' →
        total' ≤ MAX_METADATA_SIZE ∧ ∀ m, w.sess.metadata = some m → m.size = 0 ∨ m.size = total') ↔
          total ≤ MAX_METADATA_SIZE ∧ ∀ m, w.sess.metadata = some m → m.size = 0 ∨ m.size = total := by
      refine ⟨fun each => each piece total data rfl, fun here _ _ _ same => ?_⟩
      cases same
      exact here
    rw [shown, onMetadataMsg]
    split
    · rename_i big
      simp [Nat.not_le.mpr big]
    · rename_i small
      cases w.sess.metadata with
      | none => simp [Nat.not_lt.mp small]
      | some m =>
        have size : (m.sized total).size = total ↔ m.size = 0 ∨ m.size = total := by
          unfold MetadataFetch.sized
          split
          · rename_i unsized
            simp [unsized]
          · rename_i sized
            simp [sized]
        dsimp only
        split
        · rename_i differs
          simp [← size, differs]
        · rename_i agrees
          rw [not_not] at agrees
          have right := size.mp agrees
          split
          · simp [Nat.not_lt.mp small, right]
          · simp [Nat.not_lt.mp small, right]

theorem unpunished_iff (e : Encounter H) (honest : Truthful digests e.world.sess.infoHash e.msg)
    (unknown : e.world.sess.torrent = none) (count : e.world.sess.pieces.pieceCount = 0) {p : Peer}
    (attached : e.world.sess.peers.get? e.conn = some p)
    (quiet : announces e.msg = true → (p.haveAll || p.haveNone) = false) :
    e.Unpunished digests host ↔ e.Tolerated := by
  obtain ⟨env, conn, msg, w⟩ := e
  dsimp only at honest unknown count attached quiet
  unfold Encounter.Unpunished Encounter.Tolerated
  cases msg with
  | request index start length => exact honest.elim
  | piece index start data => exact honest.elim
  | cancel index start length => exact honest.elim
  | bitfield bytes =>
    have new : p.haveAll = false := (Bool.or_eq_false_iff.mp (quiet rfl)).1
    dsimp only
    rw [← fromBytes_none, dispatch, onBitfield, attached, count]
    dsimp only
    rw [new, if_neg Bool.false_ne_true]
    cases Bitfield.fromBytes bytes 0 with
    | error err => simp
    | ok bits => simp
  | haveAll =>
    rw [dispatch, onHaveAllNone, attached]
    dsimp only
    rw [quiet rfl]
    simp
  | haveNone =>
    rw [dispatch, onHaveAllNone, attached]
    dsimp only
    rw [quiet rfl]
    simp
  | extended id payload =>
    dsimp only
    rw [dispatch, onExtended]
    rcases honest with ⟨rfl, written⟩ | ⟨rfl, msg, real, rfl⟩
    · rw [if_pos rfl, ← greeting_iff written]
      cases ExtHandshake.parse payload with
      | error err => simp
      | ok ext => simp
    · rw [if_neg (by decide), if_pos rfl, MetadataMsg.parse_written (fits_of_true real)]
      dsimp only
      rw [metadata_iff digests host env conn msg unknown]
      simp
  | _ => exact iff_of_true rfl trivial

/-! ### What a session knows of a peer -/

/-- Without a torrent there is no piece, and a peer that has all or none said so in one of these messages. -/
structure Remembers (conn : ConnId) (past : List (Encounter H)) (x : Side) : Prop where
  count : x.torrent = none → x.pieceCount = 0
  declared : ∀ a, x.facets conn = some a → a.declared = true → ∃ e ∈ past, e.conn = conn ∧ announces e.msg = true

variable {digests host} {conn : ConnId} {past : List (Encounter H)} {x y : Side}

theorem Remembers.fewer (remembers : Remembers conn past x) (count : y.torrent = none → y.pieceCount = 0)
    (told : ∀ b, y.facets conn = some b → b.declared = true → ∃ a, x.facets conn = some a ∧ a.declared = true) :
    Remembers conn past y := by
  refine ⟨count, fun b here said => ?_⟩
  obtain ⟨a, before, declared⟩ := told b here said
  exact remembers.declared a before declared

theorem Remembers.later (remembers : Remembers conn past x) (e : Encounter H) : Remembers conn (past ++ [e]) x := by
  refine ⟨remembers.count, fun a here said => ?_⟩
  obtain ⟨f, member, same⟩ := remembers.declared a here said
  exact ⟨f, List.mem_append_left _ member, same⟩

theorem declared_tell {other : ConnId} {h : Facet → Facet} (same : ∀ a, (h a).declared = a.declared) {b : Facet}
    (here : (x.tell other h).facets conn = some b) (said : b.declared = true) :
    ∃ a, x.facets conn = some a ∧ a.declared = true := by
  change (if other = conn then (x.facets conn).map h else x.facets conn) = some b at here
  split at here
  · obtain ⟨a, before, rfl⟩ := Option.map_eq_some_iff.mp here
    exact ⟨a, before, (same a).symm.trans said⟩
  · exact ⟨b, here, said⟩

theorem remembers_shift (shift : Shift x y) (remembers : Remembers conn past x) : Remembers conn past y := by
  cases shift with
  | leave other =>
    refine remembers.fewer remembers.count fun b here said => ⟨b, ?_, said⟩
    change Function.update x.facets other none conn = some b at here
    rw [Function.update_apply] at here
    split at here
    · cases here
    · exact here
  | scatter => exact remembers.fewer remembers.count fun b here => absurd here (Option.some_ne_none b).symm
  | release fetching => exact remembers.fewer remembers.count fun b here said => ⟨b, here, said⟩
  | enter other =>
    refine remembers.fewer remembers.count fun b here said => ⟨b, ?_, said⟩
    change Function.update x.facets other (some ⟨Bitfield.new x.pieceCount, none, false⟩) conn = some b at here
    rw [Function.update_apply] at here
    split at here
    · cases here
      cases said
    · exact here
  | tell other id same fits => exact remembers.fewer remembers.count fun b => declared_tell same

theorem remembers_outcome (e : Encounter H) (remembers : Remembers conn past e.world.sess.side) :
    Remembers conn (past ++ [e]) (e.outcome digests host).sess.side := by
  have heard := heard_dispatch digests host e.env e.conn e.msg e.world
  have later := remembers.later e
  unfold Encounter.outcome
  generalize (dispatch digests host e.env e.conn e.msg e.world).2.sess.side = y at heard ⊢
  generalize said : e.msg = msg at heard
  cases heard with
  | plain shifts => exact shifts.invariant (P := Remembers conn (past ++ [e])) remembers_shift later
  | declares all =>
    refine ⟨remembers.count, fun b here declared => ?_⟩
    by_cases same : e.conn = conn
    · refine ⟨e, List.mem_append_right past (List.mem_singleton_self e), same, ?_⟩
      rw [said]
      rcases all with rfl | rfl
      · rfl
      · rfl
    · change (if e.conn = conn then (e.world.sess.side.facets conn).map Facet.declare
        else e.world.sess.side.facets conn) = some b at here
      rw [if_neg same] at here
      exact later.declared b here declared
  | counted index start data n =>
    unfold Side.count
    split
    · exact later
    · exact ⟨later.count, later.declared⟩
  | @greeted payload ext parsed =>
    have greeted : Remembers conn (past ++ [e])
        (e.world.sess.side.greet e.conn (ext.m.get? (ascii "ut_metadata"))) :=
      later.fewer later.count fun b =>
        declared_tell (h := fun a => { a with extMetadata := ext.m.get? (ascii "ut_metadata") }) (fun _ => rfl)
    split
    · unfold Side.ask
      split
      · split
        · exact greeted
        · exact ⟨greeted.count, greeted.declared⟩
      · exact greeted
    · exact greeted
  | gathered parsed fetching gather =>
    cases gather with
    | refused wrong => exact later
    | outside small agrees past => exact ⟨later.count, later.declared⟩
    | stored takes => exact ⟨later.count, later.declared⟩
    | restart takes spoilt again => exact ⟨later.count, later.declared⟩
    | ended takes => exact ⟨later.count, later.declared⟩
    | install takes yields => exact ⟨fun absent => absurd absent (Option.some_ne_none _), later.declared⟩
  | rejected parsed => exact ⟨later.count, later.declared⟩

theorem remembers_fetches (env : Env) (e : Event H) (w : World H) (fetches : e.fetches = true)
    (remembers : Remembers conn past w.sess.side) : Remembers conn past (step digests host env e w).sess.side := by
  cases e with
  | kickMetadata =>
    rw [step]
    split
    · rw [side_kickMetadata]
      exact ⟨remembers.count, remembers.declared⟩
    · exact remembers
  | install t =>
    rw [step]
    split
    · rw [side_installTorrent]
      exact ⟨fun absent => absurd absent (Option.some_ne_none t), remembers.declared⟩
    · exact remembers
  | driveWebseed =>
    have counts := counts_driveWebseed host env w
    rw [step, counts.rest]
    exact ⟨remembers.count, remembers.declared⟩
  | rangeJobDone id result =>
    have counts := counts_onRangeJobDone id result env.now w.sess
    rw [step, show (w.map (onRangeJobDone id result env.now)).sess.side = _ from counts.rest]
    exact ⟨remembers.count, remembers.declared⟩
  | _ => cases fetches

theorem remembers_run {events : List (Env × Event H)} {w : World H} (remembers : Remembers conn past w.sess.side) :
    Remembers conn (past ++ encounters digests host events w) (run digests host events w).sess.side ∧
      Onward (Remembers conn) past (encounters digests host events w) :=
  run_history (P := Remembers conn) (F := fun _ => True) remembers_shift
    (fun _ e _ => remembers_outcome e) (fun _ env e w fetches _ => remembers_fetches env e w fetches) past
    (fun _ _ => trivial) (fun _ _ => trivial) remembers

theorem remembers_initial {s : TorrentSession} (initial : Initial s) : Remembers conn past s.side := by
  induction initial with
  | torrent t cfg now => exact ⟨fun absent => absurd absent (Option.some_ne_none t), fun a here => nomatch here⟩
  | magnet ih webSeeds cfg now => exact ⟨fun _ => rfl, fun a here => nomatch here⟩
  | restored fresh haveBytes priorities up down reputation now remembers =>
    rw [side_applySavedState]
    exact remembers

/-! ### Connections -/

def Encounter.Attached (e : Encounter H) : Prop := ∃ p, e.world.sess.peers.get? e.conn = some p

theorem attached_drained (env : Env) (fuel : Nat) (w : World H) :
    ∀ e ∈ drained digests host env conn fuel w, e.Attached := by
  induction fuel generalizing w with
  | zero => exact fun e member => absurd member List.not_mem_nil
  | succ fuel ih =>
    rw [drained]
    cases here : w.sess.peers.get? conn with
    | none => exact fun e member => absurd member List.not_mem_nil
    | some p =>
      dsimp only
      cases p.msgs.poll with
      | mk polled msgs =>
        have kept : (w.mapPeer conn (fun p => { p with msgs := msgs })).sess.peers.get? conn =
            some { p with msgs := msgs } := by
          refine (OrdMap.get?_modify ..).trans ?_
          rw [if_pos rfl, here]
          rfl
        generalize w.mapPeer conn (fun p => { p with msgs := msgs }) = v at kept
        cases polled with
        | error err => exact fun e member => absurd member List.not_mem_nil
        | ok next =>
          cases next with
          | none => exact fun e member => absurd member List.not_mem_nil
          | some msg =>
            dsimp only
            intro e member
            rcases List.mem_cons.mp member with rfl | later
            · exact ⟨_, kept⟩
            · cases dispatched : dispatch digests host env conn msg v with
              | mk result u =>
                rw [dispatched] at later
                cases result with
                | error err => cases later
                | ok done => exact ih u e later

theorem attached_messages (env : Env) (event : Event H) (w : World H) :
    ∀ e ∈ messagesOf digests host env event w, e.Attached := by
  cases event with
  | data other bytes =>
    intro e member
    change e ∈ inbound digests host env other bytes w at member
    unfold inbound at member
    split at member
    · cases member
    · dsimp only at member
      split at member
      · unfold afterHandshake at member
        split at member
        · split at member
          · cases member
          · dsimp only at member
            split at member
            · cases member
            · exact attached_drained env _ _ e member
        · cases member
      · exact attached_drained env _ _ e member
  | _ => exact fun e member => nomatch member

theorem attached_encounters (events : List (Env × Event H)) (w : World H) :
    ∀ e ∈ encounters digests host events w, e.Attached := by
  induction events generalizing w with
  | nil => exact fun e member => nomatch member
  | cons event tail ih =>
    intro e member
    rcases List.mem_append.mp member with now | later
    · exact attached_messages event.1 event.2 w e now
    · exact ih _ e later

variable (digests host)

/-- An honest peer that connects to a session without metadata, at any time and whatever others said, is never punished
just when the session can take everything it says. -/
theorem honest_unpunished_iff {s : TorrentSession} (initial : Initial s) (io : DiskCache.State H)
    (before after : List (Env × Event H)) (conn : ConnId)
    (absent : (run digests host before ⟨s, io, []⟩).sess.peers.get? conn = none)
    (honest : HonestPeer digests conn (encounters digests host after (run digests host before ⟨s, io, []⟩))) :
    (∀ e ∈ encounters digests host after (run digests host before ⟨s, io, []⟩), e.conn = conn →
      e.world.sess.torrent = none → e.Unpunished digests host) ↔
    ∀ e ∈ encounters digests host after (run digests host before ⟨s, io, []⟩), e.conn = conn →
      e.world.sess.torrent = none → e.Tolerated := by
  have known : Remembers conn ([] ++ encounters digests host before ⟨s, io, []⟩)
      (run digests host before ⟨s, io, []⟩).sess.side := (remembers_run (remembers_initial initial)).1
  generalize run digests host before ⟨s, io, []⟩ = w at known absent honest ⊢
  have start : Remembers conn ([] : List (Encounter H)) w.sess.side := by
    refine ⟨known.count, fun a here => ?_⟩
    have nobody : w.sess.side.facets conn = none := congrArg (Option.map facet) absent
    rw [nobody] at here
    cases here
  have onward : Onward (Remembers conn) [] (encounters digests host after w) := (remembers_run start).2
  refine forall₄_congr fun e member same unknown => ?_
  obtain ⟨front, back, split⟩ := List.append_of_mem member
  rw [split] at onward
  have remembers := onward.here
  obtain ⟨p, attached⟩ := attached_encounters after w e member
  refine unpunished_iff digests host e (honest.truthful e member same unknown) unknown (remembers.count unknown) attached
    fun announced => ?_
  by_contra declared
  rw [Bool.not_eq_false] at declared
  rw [same] at attached
  have told : e.world.sess.side.facets conn = some (facet p) := congrArg (Option.map facet) attached
  obtain ⟨f, earlier, other, said⟩ := remembers.declared (facet p) told declared
  have once := honest.once
  rw [split, List.pairwise_append] at once
  have silent := once.2.2 f earlier e List.mem_cons_self other same said
  rw [announced] at silent
  cases silent

end Honest
/-! ### Honest peers, and one that is not -/

namespace Sample

def trueMetadata : Message := .extended 3 (MetadataMsg.data 0 infoDict.length infoDict).encode

def greeting : Message := .extended 0 (encodeValue (.dict []))

theorem truthful_metadata {ih : InfoHash} (matching : metadataHashOk digests ih infoDict = true) :
    Truthful digests ih trueMetadata := by
  refine .inr ⟨rfl, _, ?_, rfl⟩
  rw [TrueMetadata]
  exact ⟨by decide, infoDict, matching, rfl, by decide, by decide⟩

def courteous : List (Env × Event Unit) :=
  [(env, .attach 1 NetAddr.unspecified false .manual),
    (env, .data 1 (linkedHandshake.encode ++ Message.haveAll.encode ++ (Message.haves 3).encode ++ greeting.encode ++
      trueMetadata.encode))]

theorem courteous_messages : (encounters digests host courteous linked).map (fun e =>
    (e.conn, e.msg, e.world.sess.metadata, metadataHashOk digests e.world.sess.infoHash infoDict)) =
      [(1, .haveAll, some MetadataFetch.empty, true), (1, .haves 3, some MetadataFetch.empty, true),
        (1, greeting, some MetadataFetch.empty, true), (1, trueMetadata, some MetadataFetch.empty, true)] := by
  decide +kernel

theorem tolerated_metadata {H : Type} {e : Encounter H} (said : e.msg = trueMetadata)
    (fetching : e.world.sess.metadata = some MetadataFetch.empty) : e.Tolerated := by
  unfold Encounter.Tolerated
  rw [said]
  refine ⟨fun other => absurd other (by decide), fun _ piece total data parsed => ?_⟩
  have read : MetadataMsg.parse (MetadataMsg.data 0 infoDict.length infoDict).encode =
      .ok (.data 0 infoDict.length infoDict) := MetadataMsg.parse_written ⟨by decide, by decide⟩
  cases read.symm.trans parsed
  refine ⟨by decide, fun m known => .inl ?_⟩
  cases fetching.symm.trans known
  rfl

theorem courteous_each (e : Encounter Unit) (member : e ∈ encounters digests host courteous linked) :
    Truthful digests e.world.sess.infoHash e.msg ∧ e.Tolerated := by
  have told : (e.conn, e.msg, e.world.sess.metadata, metadataHashOk digests e.world.sess.infoHash infoDict) ∈
      (encounters digests host courteous linked).map (fun e =>
        (e.conn, e.msg, e.world.sess.metadata, metadataHashOk digests e.world.sess.infoHash infoDict)) :=
    List.mem_map.mpr ⟨e, member, rfl⟩
  rw [courteous_messages] at told
  simp only [List.mem_cons, Prod.mk.injEq, List.not_mem_nil, or_false] at told
  rcases told with ⟨-, said, -, -⟩ | ⟨-, said, -, -⟩ | ⟨-, said, -, -⟩ | ⟨-, said, fetching, matching⟩
  · unfold Encounter.Tolerated
    rw [said]
    exact ⟨trivial, trivial⟩
  · unfold Encounter.Tolerated
    rw [said]
    exact ⟨trivial, trivial⟩
  · unfold Encounter.Tolerated
    rw [said]
    exact ⟨.inl ⟨rfl, [], rfl⟩, fun _ => ⟨.dict [], rfl⟩, fun other => absurd other (by decide)⟩
  · refine ⟨?_, tolerated_metadata said fetching⟩
    rw [said]
    exact truthful_metadata matching

def handshakeOf (id : UInt8) : Handshake := plainHandshake 0 id

/-- One peer says what it has, another makes up a size of the metadata, and a third sends the metadata. -/
def slander : List (Env × Event Unit) :=
  [(env, .attach 1 NetAddr.unspecified false .manual),
    (env, .data 1 ((handshakeOf 3).encode ++ (Message.bitfield [0x80]).encode)),
    (env, .attach 2 NetAddr.unspecified false .manual),
    (env, .data 2 ((handshakeOf 4).encode ++ (Message.extended 3 (MetadataMsg.data 1 5 []).encode).encode)),
    (env, .attach 3 NetAddr.unspecified false .manual),
    (env, .data 3 ((handshakeOf 5).encode ++ trueMetadata.encode))]

theorem slander_messages : (encounters digests host slander linked).map (fun e =>
    (e.conn, e.msg, e.world.sess.torrent.isNone, metadataHashOk digests e.world.sess.infoHash infoDict,
      (dispatch digests host e.env e.conn e.msg e.world).1)) =
      [(1, .bitfield [0x80], true, true, .error .protocol),
        (2, .extended 3 (MetadataMsg.data 1 5 []).encode, true, true, .ok ()),
        (3, trueMetadata, true, true, .error .protocol)] := by decide +kernel

end Sample

theorem once_of_map {H : Type} {conn : ConnId} {met : List (Encounter H)} {told : List (ConnId × Message)}
    (same : met.map (fun e => (e.conn, e.msg)) = told)
    (once : told.Pairwise (fun a b => a.1 = conn → b.1 = conn → announces a.2 = true → announces b.2 = false)) :
    met.Pairwise (fun e f => e.conn = conn → f.conn = conn → announces e.msg = true → announces f.msg = false) := by
  rw [← same, List.pairwise_map] at once
  exact once

theorem honest_unpunished_courteous :
    (encounters Sample.digests Sample.host Sample.courteous Sample.linked).map (fun e => (e.conn, e.msg)) =
      [(1, .haveAll), (1, .haves 3), (1, Sample.greeting), (1, Sample.trueMetadata)] ∧
    ∀ e ∈ encounters Sample.digests Sample.host Sample.courteous Sample.linked, e.conn = 1 →
      e.world.sess.torrent = none → e.Unpunished Sample.digests Sample.host := by
  have senders : (encounters Sample.digests Sample.host Sample.courteous Sample.linked).map (fun e => (e.conn, e.msg)) =
      [(1, .haveAll), (1, .haves 3), (1, Sample.greeting), (1, Sample.trueMetadata)] := by
    have told := congrArg (List.map (fun t => (t.1, t.2.1))) Sample.courteous_messages
    rw [List.map_map] at told
    exact told
  refine ⟨senders, ?_⟩
  refine (honest_unpunished_iff Sample.digests Sample.host (.magnet _ [] .default 0) Sample.io [] Sample.courteous 1 rfl
    ⟨fun e member _ _ => (Sample.courteous_each e member).1, once_of_map senders ?_⟩).mpr
    fun e member _ _ => (Sample.courteous_each e member).2
  simp [Sample.greeting, Sample.trueMetadata, announces]

theorem slander_each (e : Encounter Unit)
    (member : e ∈ encounters Sample.digests Sample.host Sample.slander Sample.linked) (truthful : e.conn ≠ 2) :
    Truthful Sample.digests e.world.sess.infoHash e.msg := by
  have told : (e.conn, e.msg, e.world.sess.torrent.isNone, metadataHashOk Sample.digests e.world.sess.infoHash Sample.infoDict,
      (dispatch Sample.digests Sample.host e.env e.conn e.msg e.world).1) ∈
      (encounters Sample.digests Sample.host Sample.slander Sample.linked).map (fun e =>
        (e.conn, e.msg, e.world.sess.torrent.isNone, metadataHashOk Sample.digests e.world.sess.infoHash Sample.infoDict,
          (dispatch Sample.digests Sample.host e.env e.conn e.msg e.world).1)) := List.mem_map.mpr ⟨e, member, rfl⟩
  rw [Sample.slander_messages] at told
  simp only [List.mem_cons, Prod.mk.injEq, List.not_mem_nil, or_false] at told
  rcases told with ⟨-, said, -⟩ | ⟨liar, -⟩ | ⟨-, said, -, matching, -⟩
  · rw [said]
    trivial
  · exact absurd liar truthful
  · rw [said]
    exact Sample.truthful_metadata matching

/-- An honest peer is punished on this connection. -/
def Sample.Wronged (conn : ConnId) : Prop :=
  HonestPeer Sample.digests conn (encounters Sample.digests Sample.host Sample.slander Sample.linked) ∧
    ∃ e ∈ encounters Sample.digests Sample.host Sample.slander Sample.linked, e.conn = conn ∧
      e.world.sess.torrent = none ∧
      (dispatch Sample.digests Sample.host e.env e.conn e.msg e.world).1 = .error .protocol

theorem wronged_of_listed {conn : ConnId} (listed : conn ∈ ([1, 3] : List ConnId)) : Sample.Wronged conn := by
  have senders : (encounters Sample.digests Sample.host Sample.slander Sample.linked).map (fun e => (e.conn, e.msg)) =
      [(1, .bitfield [0x80]), (2, .extended 3 (MetadataMsg.data 1 5 []).encode), (3, Sample.trueMetadata)] := by
    have told := congrArg (List.map (fun t => (t.1, t.2.1))) Sample.slander_messages
    rw [List.map_map] at told
    exact told
  refine ⟨⟨fun e member same _ => slander_each e member ?_, once_of_map senders ?_⟩, ?_⟩
  · rw [same]
    rintro rfl
    simp at listed
  · rcases List.mem_cons.mp listed with rfl | rest
    · simp [Sample.trueMetadata, announces]
    · rw [List.mem_singleton.mp rest]
      simp [Sample.trueMetadata, announces]
  · have told : ∃ msg, (conn, msg, true, true, Except.error Error.protocol) ∈
        (encounters Sample.digests Sample.host Sample.slander Sample.linked).map (fun e =>
          (e.conn, e.msg, e.world.sess.torrent.isNone,
            metadataHashOk Sample.digests e.world.sess.infoHash Sample.infoDict,
            (dispatch Sample.digests Sample.host e.env e.conn e.msg e.world).1)) := by
      rw [Sample.slander_messages]
      rcases List.mem_cons.mp listed with rfl | rest
      · exact ⟨_, List.mem_cons_self⟩
      · rw [List.mem_singleton.mp rest]
        exact ⟨_, List.mem_cons_of_mem _ (List.mem_cons_of_mem _ List.mem_cons_self)⟩
    obtain ⟨msg, there⟩ := told
    obtain ⟨e, member, same⟩ := List.mem_map.mp there
    simp only [Prod.mk.injEq] at same
    exact ⟨e, member, same.1, Option.isNone_iff_eq_none.mp same.2.2.1, same.2.2.2.2⟩

/-- Nobody said anything wrong but the second peer; the first and the third are punished. -/
theorem honest_peers_punished : Sample.Wronged 1 ∧ Sample.Wronged 3 :=
  ⟨wronged_of_listed (by decide), wronged_of_listed (by decide)⟩

end TypeBit.Session
