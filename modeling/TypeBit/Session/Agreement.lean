import TypeBit.Session.Booking
import TypeBit.Session.Mirrors

/-! Whether the request tables agree in every state of a run. A piece that comes from a web seed goes to the verifier
while peers are still asked for its blocks; every other way to the verifier leaves none of them requested. As long as
nothing takes a request back while the two are mixed, the tables agree. -/

namespace TypeBit.Session
open Metainfo Leech Wire OrdMap PieceTracker

/-- The tables agree on every missing piece. A block is marked as requested exactly when somebody is asked for it, and
exactly when it is known since when; a piece with a requested block is in flight, and so is one that is verified. -/
def Agrees (s : TorrentSession) : Prop :=
  ∀ p < s.pieces.pieceCount, s.pieces.isHave p = false →
    (∀ b, (s.pieces.blockRequested p b = true ↔ ∃ reqs, s.requestedBy.get? (blockKey p b) = some reqs ∧ reqs ≠ []) ∧
      (s.pieces.blockRequested p b = true ↔ (s.requestedAt.get? (blockKey p b)).isSome = true)) ∧
    ((∃ b, s.pieces.blockRequested p b = true) ∨ (s.verifying.get? p).isSome = true → s.pieces.isInFlight p = true)

def Apart (s : TorrentSession) : Prop :=
  ∀ p tb, s.verifying.get? p = some tb → ∀ b, s.pieces.blockRequested p b = false

/-- What may take a request back: the bytes of a peer, a peer let go, a cancel, a timeout, a bad verdict. -/
def Event.releases {H : Type} : Event H → Bool
  | .data _ _ => true
  | .disconnect _ => true
  | .drop _ => true
  | .evict _ => true
  | .ban _ _ _ => true
  | .verified _ ok _ => !ok
  | .sweepTimeouts => true
  | .cancelSkipped => true
  | .pause => true
  | _ => false

/-- What may take a request back finds none for a piece that is being verified. -/
def Unmixed {H : Type} (e : Event H) (w : World H) : Prop := e.releases = true → Apart w.sess

def Lifted (s : TorrentSession) : Prop :=
  ∀ p tb, s.verifying.get? p = some tb → p < s.pieces.pieceCount → s.pieces.isInFlight p = true

structure Keeping {H : Type} (w : World H) : Prop where
  sound : Sound w.sess
  assembly : Assembly w
  booked : Booked w.sess.slate

section Agreement
variable {H : Type} {w v : World H}

theorem agrees_of_booked {s : TorrentSession} (booked : Booked s.slate) (lifted : Lifted s) : Agrees s := by
  intro p below missing
  have entry : ∀ b, s.pieces.blockRequested p b = true ↔ (s.requestedBy.get? (blockKey p b)).isSome = true := by
    intro b
    constructor
    · exact booked.listed p b
    · intro listed
      rcases booked.marked p b listed below with held | on
      · exact absurd (show s.pieces.isHave p = true from held) (by rw [missing]; exact Bool.false_ne_true)
      · exact on
  refine ⟨fun b => ⟨?_, ?_⟩, ?_⟩
  · rw [entry b, Option.isSome_iff_exists]
    exact exists_congr fun reqs => ⟨fun found => ⟨found, booked.asked _ reqs found⟩, And.left⟩
  · rw [entry b]
    exact Eq.to_iff (congrArg (fun found : Bool => found = true) (booked.timed (blockKey p b)).symm)
  · rintro (⟨b, on⟩ | verifying)
    · exact (booked.tallied.requested on).2.2
    · obtain ⟨tb, found⟩ := Option.isSome_iff_exists.mp verifying
      exact lifted p tb found below

/-! ### Chores -/

theorem Keeping.atoms (atoms : Atoms w v) (sound : Sound w.sess) (assembly : Assembly w) : Sound v.sess ∧ Assembly v := by
  induction atoms with
  | refl => exact ⟨sound, assembly⟩
  | tail _ last ih => exact ⟨sound_atom last ih.1, assembly_atom last ih.1 ih.2⟩

theorem Keeping.chore (keeping : Keeping w) (chore : Chore w v) : Keeping v := by
  obtain ⟨sound, assembly⟩ := Keeping.atoms chore.atoms keeping.sound keeping.assembly
  exact ⟨sound, assembly, booked_chore chore keeping.sound keeping.booked⟩

theorem Keeping.chores (keeping : Keeping w) (chores : Chores w v) : Keeping v := by
  induction chores with
  | refl => exact keeping
  | tail _ last ih => exact ih.chore last

theorem Keeping.unrequested (keeping : Keeping w) (apart : Apart w.sess) {p tb : Nat}
    (found : w.sess.verifying.get? p = some tb) : w.sess.pieces.requested.get? p = none :=
  keeping.booked.tallied.none_of_unrequested (apart p tb found)

theorem lifted_of_raised (length : v.sess.pieces.inFlight.len = v.sess.pieces.pieceCount)
    (raised : Raised w.sess v.sess) (count : v.sess.pieces.pieceCount = w.sess.pieces.pieceCount)
    (lifted : Lifted w.sess) : Lifted v.sess := by
  intro p tb found below
  rcases raised.landed p tb found with before | landed
  · exact raised.flights p (lifted p tb before (count ▸ below))
  · apply landed
    rw [← raised.length, length]
    exact below

theorem lifted_of_parked (keeping : Keeping w) (apart : Apart w.sess)
    (verifying : ∀ i, w.sess.verifying.get? i = none → v.sess.verifying.get? i = none)
    (requests : ∀ i, w.sess.pieces.requested.get? i = none → v.sess.pieces.requested.get? i = none)
    (parked : w.sess.torrent.isSome = true → w.sess.metadata = none →
      v.sess.pieces.pieceCount = w.sess.pieces.pieceCount ∧ ∀ i, w.sess.pieces.Parked i → v.sess.pieces.Parked i)
    (lifted : Lifted w.sess) : Apart v.sess ∧ Lifted v.sess := by
  have earlier : ∀ p tb, v.sess.verifying.get? p = some tb → ∃ tb, w.sess.verifying.get? p = some tb := by
    intro p tb found
    cases before : w.sess.verifying.get? p with
    | none =>
      rw [verifying p before] at found
      cases found
    | some tb => exact ⟨tb, rfl⟩
  refine ⟨fun p tb found b => ?_, fun p tb found below => ?_⟩
  · obtain ⟨tb', before⟩ := earlier p tb found
    exact requested_of_none (requests p (keeping.unrequested apart before)) b
  · obtain ⟨tb', before⟩ := earlier p tb found
    obtain ⟨t, info, torrent, known, blocks⟩ := keeping.sound.verifying p tb' before
    have arrived : w.sess.torrent.isSome = true := by
      rw [torrent]
      rfl
    obtain ⟨count, kept⟩ := parked arrived (keeping.sound.metadata arrived)
    have aloft := lifted p tb' before (count ▸ below)
    exact (kept p ⟨keeping.unrequested apart before, aloft⟩).2

theorem lifted_errand (errand : Errand w v) (keeping : Keeping w) (apart : Apart w.sess) (lifted : Lifted w.sess) :
    Apart v.sess ∧ Lifted v.sess :=
  lifted_of_parked keeping apart errand.verifying errand.requests errand.parked lifted

structure Tidy (w : World H) : Prop where
  keeping : Keeping w
  apart : Apart w.sess
  lifted : Lifted w.sess

theorem Tidy.errands (tidy : Tidy w) (errands : Errands w v) : Tidy v := by
  induction errands with
  | refl => exact tidy
  | tail _ last ih =>
    obtain ⟨apart, lifted⟩ := lifted_errand last ih.keeping ih.apart ih.lifted
    exact ⟨ih.keeping.chore last.chore, apart, lifted⟩

theorem Tidy.partings (tidy : Tidy w) (partings : Partings w v) : Tidy v := tidy.errands partings.errands

/-! ### Piece messages -/

section Pieces
variable {conn : ConnId} {index start : Nat} {data : Bytes} {t : Torrent} {info : PieceInfo}

theorem raised_handOverPiece (index totalBlocks : Nat) (w : World H) : Raised w.sess (handOver index totalBlocks w).sess := by
  unfold handOver
  split
  · exact raised_of_same rfl rfl
  · exact raised_handOver index totalBlocks w.sess ⟨rfl, rfl⟩

theorem raised_storeBytes (conn : ConnId) (index start : Nat) (data : Bytes) (len : Nat) (w : World H) :
    Raised w.sess (storeBytes conn index start data len w).sess := by
  have marked := inFlight_markAllCovered index len (blockCountFor len)
    ((w.sess.tracker index).add start (start + data.length)).1 (overlapped start data.length) w.sess.pieces
  unfold storeBytes
  dsimp only
  split_ifs
  · exact raised_of_same rfl rfl
  · refine Raised.trans ?_ (raised_handOverPiece index (blockCountFor len) _)
    exact raised_of_same marked rfl
  · exact raised_of_same marked rfl

theorem tidy_acceptPiece (env : Env) (tidy : Tidy w) (torrent : w.sess.torrent = some t)
    (known : t.pieceInfo index = .ok info) (filled : data.length ≠ 0) (inside : start + data.length ≤ info.len)
    (blocks : 0 < blockCountFor info.len) : Tidy (acceptPiece env conn index start data info.len w) := by
  have accepted : Move w (acceptPiece env conn index start data info.len w) :=
    .accept env conn index start data torrent known filled inside blocks
  obtain ⟨sound, assembly⟩ := Keeping.atoms accepted.atoms tidy.keeping.sound tidy.keeping.assembly
  have booked := booked_acceptPiece env conn tidy.keeping.booked torrent known
    (tidy.keeping.assembly.gathered index).exact inside
  obtain ⟨u, calm, stored⟩ := acceptPiece_eq env conn index start data info.len w
  rw [stored] at sound assembly booked ⊢
  have verifying : u.sess.verifying = w.sess.verifying := congrArg Ledger.verifying calm.ledger
  have arrived : u.sess.torrent = some t := (congrArg Ledger.torrent calm.ledger).trans torrent
  obtain ⟨apart, lifted⟩ := lifted_of_parked (v := u) tidy.keeping tidy.apart (fun i none => verifying ▸ none)
    calm.released.requests (fun _ _ => ⟨calm.released.count, calm.released.parked⟩) tidy.lifted
  have shape := stored_storeBytes conn index start data info.len (u.emit (.supplied index start data))
  have requested := requested_storeBytes conn index start data info.len (u.emit (.supplied index start data))
  have raised := raised_storeBytes conn index start data info.len (u.emit (.supplied index start data))
  have cases := storeBytes_cases conn index start data info.len (u.emit (.supplied index start data))
  have tracker : (storeBytes conn index start data info.len (u.emit (.supplied index start data))).sess.slate.tracker index =
      ((u.sess.tracker index).add start (start + data.length)).1 := by
    rw [Slate.tracker, show Slate.pieceBytes _ = _ from shape.pieceBytes, get?_insert_self]
    rfl
  generalize storeBytes conn index start data info.len (u.emit (.supplied index start data)) = v at *
  have flags : ∀ p b, v.sess.pieces.blockRequested p b = u.sess.pieces.blockRequested p b := by
    intro p b
    rw [blockRequested, requested]
    rfl
  refine ⟨⟨sound, assembly, booked⟩, fun p tb found b => ?_, ?_⟩
  · rcases cases with ⟨_, same⟩ | ⟨_, _, kept⟩ | ⟨_, complete, handed⟩
    · rw [same.verifying] at found
      exact (flags p b).trans (apart p tb found b)
    · rw [kept.verifying] at found
      exact (flags p b).trans (apart p tb found b)
    · rw [handed.verifying, get?_insert] at found
      split_ifs at found with own
      · subst own
        have gathered := (assembly_atom (.frame calm.frame) tidy.keeping.sound tidy.keeping.assembly).gathered index
        have full := complete_cells gathered (pieceLen_of_known arrived known) (pieceInfo_len_lt known) inside complete
        refine booked.unrequested_of_full (shape.torrent.trans arrived) known ?_ b
        rw [Slate.cells, tracker]
        exact full
      · exact (flags p b).trans (apart p tb found b)
  · exact lifted_of_raised (w := u.emit (.supplied index start data)) booked.tallied.length raised shape.count lifted

end Pieces

/-! ### What a peer says -/

section Heard
variable {digests : Digests} {host : Host H} {env : Env} {conn : ConnId}

theorem tidy_onPiece (tidy : Tidy w) (index start : Nat) (data : Bytes) :
    Tidy (onPiece env conn index start data w).2 := by
  unfold onPiece
  split
  · exact tidy
  · rename_i t torrent
    split
    · exact tidy
    · rename_i info known
      split
      · exact tidy
      · rename_i valid
        split
        · exact tidy
        · rename_i counted
          exact tidy_acceptPiece env tidy torrent known (by omega) (by omega) (by omega)

theorem tidy_dispatch (tidy : Tidy w) (msg : Message) : Tidy (dispatch digests host env conn msg w).2 := by
  by_cases piece : ∃ index start data, msg = .piece index start data
  · obtain ⟨index, start, data, rfl⟩ := piece
    exact tidy_onPiece tidy index start data
  · have other : ∀ index start data, msg ≠ .piece index start data :=
      fun index start data same => piece ⟨index, start, data, same⟩
    exact tidy.errands (errands_dispatch digests host env conn other w)

theorem tidy_drain (fuel : Nat) (tidy : Tidy w) : Tidy (drain digests host env conn fuel w) := by
  induction fuel generalizing w with
  | zero => exact tidy
  | succ fuel ih =>
    rw [drain]
    cases found : w.sess.peers.get? conn with
    | none => exact tidy
    | some p =>
      dsimp only
      have polled := (idle_mapPeer w conn (f := fun q => { q with msgs := p.msgs.poll.2 }) (fun _ => rfl)).errands
      have tidy := tidy.errands polled
      generalize w.mapPeer conn (fun q => { q with msgs := p.msgs.poll.2 }) = v at tidy ⊢
      generalize p.msgs.poll.1 = next
      rcases next with bad | _ | msg
      · exact tidy.partings (partings_noteProtocolViolation env conn v)
      · exact tidy
      · have acted : Tidy (dispatch digests host env conn msg v).2 := tidy_dispatch tidy msg
        dsimp only
        rcases outcome : dispatch digests host env conn msg v with ⟨refused | done, u⟩
        · rw [outcome] at acted
          exact acted.partings (partings_noteProtocolViolation env conn u)
        · rw [outcome] at acted
          exact ih acted

theorem tidy_onData (data : Bytes) (tidy : Tidy w) : Tidy (onData digests host env conn data w) := by
  rcases listening_cases digests host env conn data w with ⟨_, parted⟩ | ⟨u, _, parted, drained⟩
  · exact tidy.partings parted
  · rw [drained]
    exact tidy_drain _ (tidy.partings parted)

end Heard

/-! ### Fills and verdicts -/

section Events
variable {digests : Digests} {host : Host H} {env : Env}

theorem raised_issueRequest (conn : ConnId) (piece block totalBlocks len : Nat) (w : World H) :
    Raised w.sess (issueRequest env conn piece block totalBlocks len w).sess := by
  have flights : ∀ i, w.sess.pieces.isInFlight i = true →
      (w.sess.pieces.markBlockRequested piece block totalBlocks).isInFlight i = true := by
    intro i aloft
    have before : w.sess.pieces.inFlight.get i = true := aloft
    unfold markBlockRequested
    split_ifs
    · exact aloft
    · rw [isInFlight, Bitfield.get_set, before, Bool.true_or]
  refine ⟨?_, flights, fun i tb found => .inl found⟩
  change (w.sess.pieces.markBlockRequested piece block totalBlocks).inFlight.len = _
  unfold markBlockRequested
  split_ifs
  · rfl
  · exact Bitfield.len_set ..

theorem raised_fillLoop (conn : ConnId) (guard : Nat) (w : World H) :
    Raised w.sess (fillLoop env conn guard w).sess := by
  induction guard generalizing w with
  | zero => exact raised_of_same rfl rfl
  | succ guard ih =>
    rw [fillLoop]
    split
    · exact raised_of_same rfl rfl
    · rename_i p found
      split
      · exact raised_of_same rfl rfl
      · split
        · exact raised_of_same rfl rfl
        · rename_i piece chosen
          have pledged : Raised w.sess (pledge conn p piece w).sess := by
            unfold pledge
            split_ifs
            · exact raised_of_same rfl rfl
            · exact raised_of_same rfl rfl
          refine pledged.trans ?_
          rw [← pledge]
          generalize pledge conn p piece w = v
          have released : Raised v.sess (v.mapPeer conn fun p => { p with currentPiece := none }).sess :=
            raised_of_same rfl rfl
          dsimp only
          split
          · exact released.trans (ih _)
          · split
            · exact released.trans (ih _)
            · have refilled : Raised v.sess (v.map fun s => { s with
                downloadLimit := (v.sess.downloadLimit.available env.now).2 }).sess := raised_of_same rfl rfl
              refine refilled.trans ?_
              split_ifs
              · exact raised_of_same rfl rfl
              · exact raised_of_same rfl rfl
              · exact raised_of_same rfl rfl
              · exact (raised_issueRequest conn _ _ _ _ _).trans (ih _)

theorem tidy_judge (tidy : Tidy w) (piece : Nat) :
    Tidy (w.map (fun s => { s with verifying := s.verifying.erase piece })) := by
  refine tidy.errands (Errand.errands (errand_of_same (Chore.judge w piece) rfl fun i none => ?_))
  change (w.sess.verifying.erase piece).get? i = Option.none
  rw [get?_erase, none, ite_self]

theorem tidy_forget (tidy : Tidy w) {piece : Nat} (judged : w.sess.verifying.get? piece = none)
    (unrequested : ∀ b, w.sess.pieces.blockRequested piece b = false) :
    Tidy ((w.map (forgetPiece piece)).emit (.cleared piece)) := by
  have forgotten : Move w ((w.map (forgetPiece piece)).emit (.cleared piece)) := .forget w piece
  obtain ⟨sound, assembly⟩ := Keeping.atoms forgotten.atoms tidy.keeping.sound tidy.keeping.assembly
  have booked := tidy.keeping.booked.ground (u := w.sess.pieces.resetPiece piece) piece rfl rfl rfl rfl
    (fun i held => held) (fun b on => absurd on (by
      rw [show w.sess.slate.pieces.blockRequested piece b = false from unrequested b]
      exact Bool.false_ne_true))
  have other : ∀ p tb, w.sess.verifying.get? p = some tb → piece ≠ p := by
    intro p tb found same
    rw [← same, judged] at found
    cases found
  refine ⟨⟨sound, assembly, booked⟩, fun p tb found b => ?_, fun p tb found below => ?_⟩
  · have apart := tidy.apart p tb found b
    change ((w.sess.pieces.requested.erase piece).get? p |>.map _).getD false = false
    rw [get?_erase_ne _ (other p tb found)]
    exact apart
  · have aloft : w.sess.pieces.inFlight.get p = true := tidy.lifted p tb found below
    change (w.sess.pieces.inFlight.clear piece).get p = true
    rw [Bitfield.get_clear, aloft, Bool.true_and]
    exact decide_eq_true (other p tb found)

theorem tidy_failed (tidy : Tidy w) (piece : Nat) (data : Bytes) :
    Tidy (onVerified host env piece false data w).2 := by
  unfold onVerified
  split
  · exact tidy
  · rename_i totalBlocks found
    have judged := tidy_judge tidy piece
    dsimp only
    split
    · exact judged
    · have gone : (w.sess.verifying.erase piece).get? piece = none := get?_erase_self _ _
      have forgotten := tidy_forget judged gone (tidy.apart piece totalBlocks found)
      have punished := forgotten.partings (partings_punishCorruptSuppliers env piece totalBlocks _)
      rw [if_neg Bool.false_ne_true]
      exact punished.errands (idle_emit _ rfl).errands

/-! ### Events -/

/-- Everything is in order, though blocks may be requested of what is verified. -/
structure Agreeing (w : World H) : Prop where
  keeping : Keeping w
  lifted : Lifted w.sess

theorem Tidy.agreeing (tidy : Tidy w) : Agreeing w := ⟨tidy.keeping, tidy.lifted⟩

theorem Agreeing.same (agreeing : Agreeing w) (atoms : Atoms w v) (slate : v.sess.slate = w.sess.slate)
    (verifying : ∀ i tb, v.sess.verifying.get? i = some tb → w.sess.verifying.get? i = some tb) : Agreeing v := by
  obtain ⟨sound, assembly⟩ := Keeping.atoms atoms agreeing.keeping.sound agreeing.keeping.assembly
  have pieces : v.sess.pieces = w.sess.pieces := congrArg Slate.pieces slate
  refine ⟨⟨sound, assembly, slate ▸ agreeing.keeping.booked⟩, fun p tb found below => ?_⟩
  rw [pieces] at below ⊢
  exact agreeing.lifted p tb (verifying p tb found) below

theorem Agreeing.idle (agreeing : Agreeing w) (same : Idle w v) : Agreeing v := by
  have verifying : v.sess.verifying = w.sess.verifying := congrArg Ledger.verifying same.ledger
  exact agreeing.same same.calm.atoms (slate_of_ledger same.ledger) fun _ _ found => verifying ▸ found

theorem Agreeing.deed {e : Event H} (host : Host H) (env : Env) (agreeing : Agreeing w) (deed : Deed host env e w v)
    (kept : v.sess.kept = w.sess.kept) (roster : v.sess.roster = w.sess.roster) : Agreeing v := by
  have verifying : v.sess.verifying = w.sess.verifying := congrArg Kept.verifying kept
  exact agreeing.same deed.atoms (slate_of_kept kept roster) fun _ _ found => verifying ▸ found

theorem Agreeing.raised (agreeing : Agreeing w) (chores : Chores w v) (raised : Raised w.sess v.sess) : Agreeing v := by
  have keeping := agreeing.keeping.chores chores
  have count : v.sess.pieces.pieceCount = w.sess.pieces.pieceCount :=
    keeping.booked.tallied.length.symm.trans (raised.length.trans agreeing.keeping.booked.tallied.length)
  exact ⟨keeping, lifted_of_raised keeping.booked.tallied.length raised count agreeing.lifted⟩

theorem agreeing_settle (agreeing : Agreeing w) {piece : Nat} (judged : w.sess.verifying.get? piece = none) :
    Agreeing ((w.map (settlePiece piece)).emit (.cleared piece)) := by
  obtain ⟨sound, assembly⟩ := Keeping.atoms (Relation.ReflTransGen.single (.settle w piece)) agreeing.keeping.sound
    agreeing.keeping.assembly
  have held : ∀ i, (w.sess.pieces.markPieceHave piece).isHave i =
      (w.sess.pieces.haveBits.get i || (decide (piece = i) && decide (piece < w.sess.pieces.haveBits.len))) :=
    Bitfield.get_set w.sess.pieces.haveBits piece
  have booked := agreeing.keeping.booked.ground (u := w.sess.pieces.markPieceHave piece) piece rfl rfl rfl rfl
    (fun i before => by
      rw [held, show w.sess.pieces.haveBits.get i = true from before, Bool.true_or])
    (fun b on => by
      have inside : piece < w.sess.pieces.pieceCount := (agreeing.keeping.booked.tallied.requested on).1
      rw [held, agreeing.keeping.sound.shape, decide_eq_true rfl, decide_eq_true inside]
      exact Bool.or_true _)
  refine ⟨⟨sound, assembly, booked⟩, fun p tb found below => ?_⟩
  have other : piece ≠ p := by
    intro same
    rw [show World.sess _ = settlePiece piece w.sess from rfl] at found
    rw [← same, show (settlePiece piece w.sess).verifying = w.sess.verifying from rfl, judged] at found
    cases found
  have aloft : w.sess.pieces.inFlight.get p = true := agreeing.lifted p tb found below
  change (w.sess.pieces.inFlight.clear piece).get p = true
  rw [Bitfield.get_clear, aloft, Bool.true_and]
  exact decide_eq_true other

theorem agreeing_verified (agreeing : Agreeing w) (piece : Nat) (data : Bytes) :
    Agreeing (onVerified host env piece true data w).2 := by
  unfold onVerified
  split
  · exact agreeing
  · have judged : Agreeing (w.map (fun s => { s with verifying := s.verifying.erase piece })) :=
      agreeing.same (frame_eraseVerifying piece w).atoms rfl (frame_eraseVerifying piece w).verifying
    have gone : (w.sess.verifying.erase piece).get? piece = none := get?_erase_self _ _
    dsimp only
    split
    · exact judged
    · rw [if_pos rfl]
      unfold completePieceVerified
      split
      · exact judged
      · rename_i abs located
        have same := sess_writeAbs host abs data (w.map (fun s => { s with verifying := s.verifying.erase piece }))
        have written := idle_writeAbs host abs data (w.map (fun s => { s with verifying := s.verifying.erase piece }))
        split
        · rename_i e v failed
          rw [failed] at written
          exact judged.idle written
        · rename_i v done
          rw [done] at same written
          have free : v.sess.verifying.get? piece = none := by
            rw [same]
            exact gone
          have settled := agreeing_settle (judged.idle written) free
          have announced := settled.idle (idle_emit _ (e := .pieceVerified piece) rfl)
          refine announced.same (frame_announceCompletion env _).atoms ?_ (frame_announceCompletion env _).verifying
          unfold announceCompletion
          split_ifs <;> rfl

theorem agreeing_attachPeer (agreeing : Agreeing w) (conn : ConnId) (addr : NetAddr) (outbound : Bool)
    (source : DiscoverySource) : Agreeing (attachPeer env conn addr outbound source w) := by
  unfold attachPeer
  split_ifs
  · exact agreeing.idle (idle_emit w rfl)
  · exact agreeing.same (Calm.atoms (calm_map rfl)) rfl fun _ _ found => found

theorem agreeing_start (agreeing : Agreeing w) : Agreeing (start host env w).2 := by
  rcases start_cases host env w with same | ⟨u, deed, idle⟩
  · exact same.symm ▸ agreeing
  · refine Agreeing.idle ?_ idle
    cases deed with
    | start halted =>
      exact agreeing.deed host env (.start halted) (kept_refreshCompletion _) (roster_refreshCompletion _)

theorem agreeing_stop (agreeing : Agreeing w) : Agreeing (stop host w) := by
  refine agreeing.same (frame_stop host w).atoms ?_ (frame_stop host w).verifying
  unfold stop
  split
  · rfl
  · have closed := (idle_emit w (e := .announced .stopped) rfl).trans
      (Idle.foldl (fun (v : World H) c => idle_emit v (e := .closed c) rfl) w.sess.peers.keys _)
    change (w.sess.peers.keys.foldl (fun v c => v.emit (.closed c)) (w.emit (.announced .stopped))).sess.slate = w.sess.slate
    exact slate_of_ledger closed.ledger

theorem agreeing_reopenFiles (agreeing : Agreeing w) : Agreeing (reopenFiles host w) := by
  have opened := idle_openFiles host w
  unfold reopenFiles
  split
  · rename_i u done
    rw [done] at opened
    exact agreeing.idle opened
  · rename_i u failed
    rw [failed] at opened
    exact (agreeing.idle opened).same (Frame.atoms (frame_map rfl)) rfl fun _ _ found => found

theorem agreeing_pause (host : Host H) (tidy : Tidy w) : Agreeing (pause env w) := by
  rcases pause_cases host env w with same | ⟨u, deed, errands⟩
  · exact same.symm ▸ tidy.agreeing
  · refine (Tidy.errands ?_ errands).agreeing
    cases deed with
    | pause running =>
      have paused := tidy.agreeing.deed host env (.pause running) rfl rfl
      exact ⟨paused.keeping, tidy.apart, paused.lifted⟩

theorem agreeing_installTorrent (agreeing : Agreeing w) (t : Torrent) (absent : w.sess.torrent = none) :
    Agreeing (installTorrent host env t w) := by
  have errands := errands_installTorrent host env t (.inl absent)
  have idle : ∀ p, (installTorrent host env t w).sess.verifying.get? p = none := by
    intro p
    have before : w.sess.verifying.get? p = none := by
      cases found : w.sess.verifying.get? p with
      | none => rfl
      | some tb =>
        obtain ⟨t, info, torrent, known, blocks⟩ := agreeing.keeping.sound.verifying p tb found
        rw [absent] at torrent
        cases torrent
    generalize installTorrent host env t w = v at errands
    induction errands with
    | refl => exact before
    | tail _ last ih => exact last.verifying p ih
  refine ⟨agreeing.keeping.chores errands.chores, fun p tb found => ?_⟩
  rw [idle p] at found
  cases found

theorem agreeing_step {e : Event H} (unmixed : Unmixed e w) (agreeing : Agreeing w) :
    Agreeing (step digests host env e w) := by
  have tidy : e.releases = true → Tidy w := fun releases => ⟨agreeing.keeping, unmixed releases, agreeing.lifted⟩
  cases e with
  | attach conn addr outbound source => exact agreeing_attachPeer agreeing conn addr outbound source
  | connectDone conn => exact agreeing.idle (idle_mapPeer w conn (fun _ => rfl))
  | data conn bytes => exact (tidy_onData bytes (tidy rfl)).agreeing
  | disconnect conn => exact ((tidy rfl).partings (partings_onDisconnect env conn w)).agreeing
  | drop conn => exact ((tidy rfl).partings (partings_dropPeer env conn w)).agreeing
  | evict conn => exact ((tidy rfl).partings (partings_evict env conn w)).agreeing
  | ban conn addr reason => exact ((tidy rfl).partings (partings_banPeer env conn addr reason w)).agreeing
  | verified piece ok data =>
    cases ok with
    | true => exact agreeing_verified agreeing piece data
    | false => exact (tidy_failed (tidy rfl) piece data).agreeing
  | takePendingVerify => exact agreeing.same (Chore.take w).atoms rfl fun _ _ found => found
  | sweepTimeouts => exact ((tidy rfl).errands (errands_sweepRequestTimeouts env w)).agreeing
  | fill conn => exact agreeing.raised (chores_fillLoop env conn 512 w) (raised_fillLoop conn 512 w)
  | cancelSkipped => exact ((tidy rfl).errands (errands_cancelSkippedPieceRequests w)).agreeing
  | setFilePriority file prio =>
    exact agreeing.deed host env (.setFilePriority file prio w) (kept_setFilePriority file prio _) (roster_setFilePriority file prio _)
  | setFilePriorities priorities =>
    exact agreeing.deed host env (.setFilePriorities priorities w) (kept_setFilePriorities priorities _)
      (roster_setFilePriorities priorities _)
  | setHoldData hold =>
    exact agreeing.deed host env (.setHoldData hold w) (kept_recomputePriorities _) (roster_recomputePriorities _)
  | start => exact agreeing_start agreeing
  | pause => exact agreeing_pause host (tidy rfl)
  | resume =>
    by_cases paused : w.sess.status = .paused
    · exact agreeing.deed host env (.resume paused) (kept_resume env w) (roster_resume env w)
    · rw [show step digests host env .resume w = w from if_pos paused]
      exact agreeing
  | stop => exact agreeing_stop agreeing
  | reopenFiles => exact agreeing_reopenFiles agreeing
  | announceDue => exact agreeing.idle (idle_announceDue env w)
  | housekeeping => exact agreeing.idle (idle_map rfl)
  | unchoke conns => exact agreeing.idle (idle_map (ledger_applyUnchoke _ conns w.sess))
  | broadcastPex => exact agreeing.idle (idle_map (ledger_foldl (fun s c => ledger_broadcastPexTo c s) _ w.sess))
  | kickMetadata =>
    rw [step]
    split
    · exact agreeing.idle (idle_kickMetadata env w)
    · exact agreeing
  | install t =>
    rw [step]
    split
    · rename_i absent
      exact agreeing_installTorrent agreeing t (Option.isNone_iff_eq_none.mp absent)
    · exact agreeing
  | driveWebseed =>
    have fetched : Fetched (WebSound w.sess) w.sess (driveWebseed host env w).sess :=
      (fetched_driveWebseed host env fun sound => sound).1
    exact agreeing.raised (chores_driveWebseed host env w) fetched.raised
  | rangeJobDone id result =>
    have fetched : Fetched (WebSound w.sess) w.sess (onRangeJobDone id result env.now w.sess) :=
      fetched_onRangeJobDone (fun sound => sound) id result env.now
    exact agreeing.raised (chores_of_fetched fetched) fetched.raised
  | discovered addr source => exact agreeing.idle (idle_map (ledger_enqueuePeer addr source env.now w.sess))
  | takeConnectQueue => exact agreeing.idle (idle_map (f := fun s => { s with connectQueue := [] }) rfl)
  | sent conn n => exact agreeing.idle (idle_mapPeer w conn (fun _ => rfl))
  | io state => exact agreeing.deed host env (.share state w) rfl rfl

/-! ### Runs -/

theorem agreeing_initial {s : TorrentSession} (initial : Initial s) (io : DiskCache.State H) :
    Agreeing (⟨s, io, []⟩ : World H) := by
  refine ⟨⟨sound_initial initial, assembly_initial initial io, booked_initial initial⟩, fun p tb found => ?_⟩
  rw [(unasked_initial initial).verifying] at found
  cases found

/-- In every state of a run that takes requests back only while nothing is requested of what is verified, the tables
agree. -/
theorem requests_agree_when_unmixed {s : TorrentSession} {io : DiskCache.State H} (initial : Initial s)
    {events : List (Env × Event H)} (unmixed : Along digests host Unmixed events ⟨s, io, []⟩) :
    ∀ early, early <+: events → Agrees (run digests host early ⟨s, io, []⟩).sess := by
  intro early begins
  have agreeing : Agreeing (run digests host early ⟨s, io, []⟩) :=
    (unmixed.begins begins).invariant agreeing_step (agreeing_initial initial io)
  exact agrees_of_booked agreeing.keeping.booked agreeing.lifted

end Events

end Agreement

namespace Sample

def mirroredFunded : World Unit := ⟨fromTorrent mirrored .default 0, funded, []⟩

/-- The mirror delivers a bad piece, a peer is asked for it, and leaves. -/
def refetched : List (Env × Event Unit) :=
  courtship ++ [(env, .driveWebseed), (env, .rangeJobDone 7 (.ok [1, 2, 6])), (env, .verified 0 false [1, 2, 6]),
    (env, .fill 1), (env, .disconnect 1)]

def overtaken : List (Env × Event Unit) :=
  courtship ++ [(env, .driveWebseed), (env, .fill 1), (env, .rangeJobDone 7 (.ok [1, 2, 6])),
    (env, .verified 0 false [1, 2, 6])]

theorem apart_of_all {s : TorrentSession}
    (all : s.verifying.keys.all (fun p => (s.pieces.requested.get? p).isNone) = true) : Apart s := by
  intro p tb found b
  have none := List.all_eq_true.mp all p ((mem_keys_iff _ p).mpr ⟨tb, found⟩)
  exact requested_of_none (Option.isNone_iff_eq_none.mp none) b

end Sample

/-- The block is asked for again after the bad verdict, and released when the peer leaves. -/
theorem requests_agree_when_unmixed_refetched :
    Agrees (run Sample.digests Sample.backgroundHost (Sample.refetched.take 7) Sample.mirroredFunded).sess ∧
      Agrees (run Sample.digests Sample.backgroundHost Sample.refetched Sample.mirroredFunded).sess := by
  have unmixed : Along Sample.digests Sample.backgroundHost Unmixed Sample.refetched Sample.mirroredFunded := by
    refine ⟨nofun, nofun, fun _ => ?_, nofun, nofun, fun _ => ?_, nofun, fun _ => ?_, trivial⟩
    · exact Sample.apart_of_all (by decide)
    · exact Sample.apart_of_all (by decide)
    · exact Sample.apart_of_all (by decide)
  have agree := requests_agree_when_unmixed (.torrent Sample.mirrored .default 0) unmixed
  exact ⟨agree _ (List.take_prefix 7 _), agree _ (List.prefix_refl _)⟩

/-- The bad verdict clears the request from the tracker, and leaves the peer on record for it. -/
theorem bad_verdict_strands_request :
    ¬ ∀ w : World Unit, Reachable Sample.digests Sample.backgroundHost w → Agrees w.sess := by
  intro agree
  have reachable : Reachable Sample.digests Sample.backgroundHost
      (run Sample.digests Sample.backgroundHost Sample.overtaken Sample.mirroredFunded) :=
    ⟨_, _, Sample.overtaken, .torrent Sample.mirrored .default 0, rfl⟩
  have agrees := agree _ reachable 0 (by decide) (by decide)
  have listed : (run Sample.digests Sample.backgroundHost Sample.overtaken Sample.mirroredFunded).sess.requestedBy.get?
      (blockKey 0 0) = some [1] := by decide
  have cleared : (run Sample.digests Sample.backgroundHost Sample.overtaken Sample.mirroredFunded).sess.pieces.blockRequested
      0 0 = false := by decide
  have requested := (agrees.1 0).1.mpr ⟨[1], listed, List.cons_ne_nil 1 []⟩
  rw [cleared] at requested
  cases requested

end TypeBit.Session
