import TypeBit.Session.Run

/-! What the web-seed fetcher does, as a log of marks and a step relation on its state: it begins a piece, starts
fetches in the background or makes one now, applies their results, and hands the piece over or drops it. -/

namespace TypeBit.Session
open Metainfo

def slotLen (len block : Nat) : Nat := min BLOCK_LEN (len - block * BLOCK_LEN)

/-- What is noted of the fetcher. A fetch has its bytes when it delivered the block whole; it is lost when it failed
in the background and the piece goes on without it. -/
inductive Mark where
  | begun (piece blocks : Nat)
  | started (piece block : Nat)
  | fetched (background : Bool) (piece block : Nat) (body : Option Bytes)
  | lost (piece block : Nat)
  | handed (piece : Nat) (buf : Bytes)
  | dropped (piece : Nat)
  deriving DecidableEq

/-! ### The log -/

def applyMarks (background : Bool) (seed block blen : Nat) (got : Result Unit) (body : Bytes) (s : TorrentSession) : List Mark :=
  match s.webseed.piece with
  | none => []
  | some piece =>
      let (ok, u) := copyBlock block blen got body s
      let fails := u.webseed.seedFails.modify seed (fun f => if ok then 0 else Leech.satAdd32 f 1)
      .fetched background piece block (if ok then some body else none) ::
        if !ok && fails.all (fun f => decide (f ≥ u.cfg.webseed.maxFails)) then [.dropped piece]
        else (if background && !ok then [.lost piece block] else []) ++
          if u.webseed.inFlight.isEmpty ∧ u.webseed.nextBlock ≥ u.webseed.totalBlocks then [.handed piece u.webseed.data] else []

def jobMarks (id : Nat) (result : Result Bytes) (s : TorrentSession) : List Mark :=
  match s.webseed.inFlight.find? (fun j => decide (j.jobId = id)) with
  | none => []
  | some job =>
      let body := result.toOption.getD []
      let got : Result Unit := if body.length = job.len then .ok () else .error .protocol
      applyMarks true job.seed job.block job.len got body
        { s with webseed := { s.webseed with inFlight := s.webseed.inFlight.erase job } }

def beginMarks (env : Env) (t : Torrent) (s : TorrentSession) : List Mark :=
  if s.webseed.piece.isSome ∨ env.now < s.webseed.retryAt then []
  else match pickWebseedPiece s t with
    | none => []
    | some (p, len) => [.begun p (blockCountFor len)]

section Drive
variable {H : Type} (host : Host H) (env : Env)

def loopMarks (t : Torrent) (piece : Nat) : Nat → World H → List Mark
  | 0, _ => []
  | rounds + 1, w =>
      let ws := w.sess.webseed
      if ws.inFlight.length ≥ MAX_INFLIGHT ∨ ws.nextBlock ≥ ws.totalBlocks then []
      else
        let (picked, cursor) := pickSeed w.sess.webSeeds.length ws.seedFails w.sess.cfg.webseed.maxFails
          w.sess.webSeeds.length ws.seedIdx
        let w := w.map (fun s => { s with webseed := { s.webseed with seedIdx := cursor } })
        match picked with
        | none => [.dropped piece]
        | some seed =>
            match webseedBlock w.sess t piece ws.nextBlock seed with
            | none => [.dropped piece]
            | some (url, first, last, len) =>
                let (job, h) := if w.sess.cfg.proxied then (0, w.io.host)
                  else host.httpGetRangeAsync w.io.host url first last w.sess.cfg.webseed.timeoutMs
                let w := w.setHost h
                if job ≠ 0 then
                  .started piece ws.nextBlock ::
                    loopMarks t piece rounds (w.map (fun s => { s with webseed := { s.webseed with
                      inFlight := s.webseed.inFlight ++ [⟨job, piece, ws.nextBlock, len, seed⟩]
                      nextBlock := s.webseed.nextBlock + 1 } }))
                else
                  let ((got, body), _) := host.httpGetRange w.io.host w.sess.cfg.proxied url first last
                    w.sess.cfg.webseed.timeoutMs
                  applyMarks false seed ws.nextBlock len got body w.sess

def driveMarks (w : World H) : List Mark :=
  match w.sess.torrent with
  | none => []
  | some t =>
      if !w.sess.cfg.webseed.enabled || w.sess.webSeeds.isEmpty || decide (w.sess.status ≠ .downloading) then []
      else
        let begun := w.map (beginWebseed env t)
        beginMarks env t w.sess ++
          match begun.sess.webseed.piece with
          | none => []
          | some piece => loopMarks host t piece (MAX_INFLIGHT + 1) begun

end Drive

/-! ### The step relation -/

namespace WebSeedState

def Complete (w : WebSeedState) : Prop := w.inFlight = [] ∧ w.totalBlocks ≤ w.nextBlock

instance (w : WebSeedState) : Decidable w.Complete := inferInstanceAs (Decidable (_ ∧ _))

def released (w : WebSeedState) : WebSeedState :=
  { w with piece := none, nextBlock := 0, totalBlocks := 0, data := [], seedFails := [] }

def closed (w : WebSeedState) : WebSeedState := if w.Complete then w.released else w

def closeMarks (w : WebSeedState) (p : Nat) : List Mark := if w.Complete then [.handed p w.data] else []

end WebSeedState

/-- A fetch whose result is due: the block, its length and what stays in flight. A background fetch is one of those in
flight; one made now is for the next block. -/
inductive Due (sized : Nat → Nat → Prop) (w : WebSeedState) (p : Nat) : Bool → Nat → Nat → List WebSeedJob → Prop
  | job {job : WebSeedJob} (flying : job ∈ w.inFlight) : Due sized w p true job.block job.len (w.inFlight.erase job)
  | now {len : Nat} (size : sized p len) (room : w.nextBlock < w.totalBlocks) (inside : w.nextBlock * BLOCK_LEN < len) :
      Due sized w p false w.nextBlock (slotLen len w.nextBlock) w.inFlight

inductive FetchDeed (sized : Nat → Nat → Prop) (maxFails : Nat) : WebSeedState → List Mark → WebSeedState → Prop
  | turn (w : WebSeedState) (seedIdx : Nat) : FetchDeed sized maxFails w [] { w with seedIdx }
  | begin {w : WebSeedState} {p len : Nat} (idle : w.piece = none) (size : sized p len) (seeds : Nat) :
      FetchDeed sized maxFails w [.begun p (blockCountFor len)]
        { w with
          piece := some p, nextBlock := 0, totalBlocks := blockCountFor len, data := List.replicate len 0
          seedFails := List.replicate seeds 0 }
  | start {w : WebSeedState} {p len : Nat} (holding : w.piece = some p) (size : sized p len)
      (room : w.nextBlock < w.totalBlocks) (inside : w.nextBlock * BLOCK_LEN < len) (id seed : Nat) :
      FetchDeed sized maxFails w [.started p w.nextBlock]
        { w with
          inFlight := w.inFlight ++ [⟨id, p, w.nextBlock, slotLen len w.nextBlock, seed⟩], nextBlock := w.nextBlock + 1 }
  | drop {w : WebSeedState} {p : Nat} (holding : w.piece = some p) (room : w.nextBlock < w.totalBlocks)
      (reason : 0 < maxFails → (∃ f ∈ w.seedFails, f ≠ 0) ∨ ∀ len, sized p len → len ≤ w.nextBlock * BLOCK_LEN)
      (retryAt : Nat) : FetchDeed sized maxFails w [.dropped p] { w.released with inFlight := [], retryAt }
  | land {w : WebSeedState} {p : Nat} (holding : w.piece = some p) {background : Bool} {block : Nat}
      {flight : List WebSeedJob} {body : Bytes} (due : Due sized w p background block body.length flight)
      (fits : block * BLOCK_LEN + body.length ≤ w.data.length) {fails : List Nat}
      (mended : (∀ f ∈ w.seedFails, f = 0) → ∀ f ∈ fails, f = 0) {v : WebSeedState}
      (after : v = { w with
        inFlight := flight, data := Patch.splice w.data (block * BLOCK_LEN) body, seedFails := fails }) :
      FetchDeed sized maxFails w (.fetched background p block (some body) :: v.closeMarks p) v.closed
  | miss {w : WebSeedState} {p : Nat} (holding : w.piece = some p) {background : Bool} {block blen : Nat}
      {flight : List WebSeedJob} (due : Due sized w p background block blen flight) {fails : List Nat} {v : WebSeedState}
      (after : v = { w with inFlight := flight, seedFails := fails }) :
      FetchDeed sized maxFails w
        (.fetched background p block none :: ((if background then [.lost p block] else []) ++ v.closeMarks p)) v.closed
  | fall {w : WebSeedState} {p : Nat} (holding : w.piece = some p) {background : Bool} {block blen : Nat}
      {flight : List WebSeedJob} (due : Due sized w p background block blen flight) (retryAt : Nat) :
      FetchDeed sized maxFails w [.fetched background p block none, .dropped p]
        { w.released with inFlight := [], retryAt }

inductive Fetching (sized : Nat → Nat → Prop) (maxFails : Nat) : WebSeedState → List Mark → WebSeedState → Prop
  | done (w : WebSeedState) : Fetching sized maxFails w [] w
  | next {w v u : WebSeedState} {marks more : List Mark} (first : FetchDeed sized maxFails w marks v)
      (rest : Fetching sized maxFails v more u) : Fetching sized maxFails w (marks ++ more) u

theorem FetchDeed.fetching {sized : Nat → Nat → Prop} {maxFails : Nat} {w v : WebSeedState} {marks : List Mark}
    (deed : FetchDeed sized maxFails w marks v) : Fetching sized maxFails w marks v := by
  have one := Fetching.next deed (.done v)
  rwa [List.append_nil] at one

theorem Fetching.trans {sized : Nat → Nat → Prop} {maxFails : Nat} {w v u : WebSeedState} {marks more : List Mark}
    (first : Fetching sized maxFails w marks v) (second : Fetching sized maxFails v more u) :
    Fetching sized maxFails w (marks ++ more) u := by
  induction first with
  | done w => exact second
  | next deed rest ih =>
    rw [List.append_assoc]
    exact .next deed (ih second)

/-! ### The code does these deeds -/

def Sized (t : Torrent) (p len : Nat) : Prop := ∃ info, t.pieceInfo p = .ok info ∧ info.len = len

/-- Everything but the fetcher's state, and what it hands to the verifier, is as before. -/
structure Outside (s u : TorrentSession) : Prop where
  torrent : u.torrent = s.torrent
  webSeeds : u.webSeeds = s.webSeeds
  cfg : u.cfg = s.cfg

theorem Outside.refl (s : TorrentSession) : Outside s s := ⟨rfl, rfl, rfl⟩

theorem Outside.trans {s u r : TorrentSession} (first : Outside s u) (second : Outside u r) : Outside s r :=
  ⟨second.torrent.trans first.torrent, second.webSeeds.trans first.webSeeds, second.cfg.trans first.cfg⟩

theorem mended_modify {fails : List Nat} (seed : Nat) (clean : ∀ f ∈ fails, f = 0) : ∀ f ∈ fails.modify seed (fun _ => 0), f = 0 := by
  intro f member
  obtain ⟨i, at_i⟩ := List.mem_iff_getElem?.mp member
  rw [List.getElem?_modify] at at_i
  obtain ⟨g, found, value⟩ := Option.map_eq_some_iff.mp at_i
  split at value
  · exact value.symm
  · exact value ▸ clean g (List.mem_of_getElem? found)

theorem webseed_finishWebseed (piece : Nat) (s : TorrentSession) :
    (finishWebseed piece s).webseed = s.webseed.closed ∧ Outside s (finishWebseed piece s) ∧
      (finishWebseed piece s).pendingVerify =
        if s.webseed.Complete then s.pendingVerify.insert piece s.webseed.data else s.pendingVerify := by
  unfold finishWebseed WebSeedState.closed
  by_cases complete : s.webseed.Complete
  · have landed : s.webseed.inFlight.isEmpty = true ∧ s.webseed.nextBlock ≥ s.webseed.totalBlocks :=
      ⟨List.isEmpty_iff.mpr complete.1, complete.2⟩
    rw [if_pos landed, if_pos complete, if_pos complete]
    exact ⟨rfl, ⟨rfl, rfl, rfl⟩, rfl⟩
  · have open_ : ¬ (s.webseed.inFlight.isEmpty = true ∧ s.webseed.nextBlock ≥ s.webseed.totalBlocks) := fun landed =>
      complete ⟨List.isEmpty_iff.mp landed.1, landed.2⟩
    rw [if_neg open_, if_neg complete, if_neg complete]
    exact ⟨rfl, .refl s, rfl⟩

theorem closeMarks_eq (piece : Nat) (s : TorrentSession) :
    (if s.webseed.inFlight.isEmpty ∧ s.webseed.nextBlock ≥ s.webseed.totalBlocks then [Mark.handed piece s.webseed.data]
      else []) = s.webseed.closeMarks piece := by
  unfold WebSeedState.closeMarks
  have same : (s.webseed.inFlight.isEmpty = true ∧ s.webseed.nextBlock ≥ s.webseed.totalBlocks) ↔ s.webseed.Complete :=
    and_congr_left' List.isEmpty_iff
  simp only [same]

def counted (seed : Nat) (ok : Bool) (u : TorrentSession) : TorrentSession :=
  { u with webseed := { u.webseed with
    seedFails := u.webseed.seedFails.modify seed (fun f => if ok then 0 else Leech.satAdd32 f 1) } }

def allFailed (u : TorrentSession) : Bool := u.webseed.seedFails.all fun f => decide (f ≥ u.cfg.webseed.maxFails)

def backedOff (now : Nat) (u : TorrentSession) : TorrentSession :=
  abortWebseedPiece { u with webseed := { u.webseed with retryAt := satAdd now u.cfg.webseed.backoffMs } }

section Apply
variable {s : TorrentSession} {p : Nat} (held : s.webseed.piece = some p) (seed block blen : Nat) (got : Result Unit)
  (body : Bytes)
include held

theorem webseedApplyBlock_eq (now : Nat) {ok : Bool} {u : TorrentSession} (copied : copyBlock block blen got body s = (ok, u)) :
    webseedApplyBlock seed block blen got body now s =
      if !ok && allFailed (counted seed ok u) then backedOff now (counted seed ok u) else finishWebseed p (counted seed ok u) := by
  unfold webseedApplyBlock
  rw [held]
  dsimp only
  rw [copied]
  rfl

theorem applyMarks_eq (background : Bool) {ok : Bool} {u : TorrentSession} (copied : copyBlock block blen got body s = (ok, u)) :
    applyMarks background seed block blen got body s = .fetched background p block (if ok then some body else none) ::
      if !ok && allFailed (counted seed ok u) then [.dropped p]
      else (if background && !ok then [.lost p block] else []) ++ (counted seed ok u).webseed.closeMarks p := by
  unfold applyMarks
  rw [held]
  dsimp only
  rw [copied, ← closeMarks_eq]
  rfl

end Apply

theorem copyBlock_cases (block blen : Nat) (got : Result Unit) (body : Bytes) (s : TorrentSession) :
    (∃ u, copyBlock block blen got body s = (true, u) ∧ body.length = blen ∧
      block * BLOCK_LEN + body.length ≤ s.webseed.data.length ∧ Outside s u ∧ u.pendingVerify = s.pendingVerify ∧
      u.webseed = { s.webseed with data := Patch.splice s.webseed.data (block * BLOCK_LEN) body }) ∨
    copyBlock block blen got body s = (false, s) := by
  unfold copyBlock
  dsimp only
  split
  next whole => exact Or.inl ⟨_, rfl, whole.2.1, whole.2.2, ⟨rfl, rfl, rfl⟩, rfl, rfl⟩
  next => exact Or.inr rfl

variable {maxFails : Nat} {sized : Nat → Nat → Prop}

theorem deed_webseedApplyBlock {w : WebSeedState} {s : TorrentSession} {p : Nat} (holding : w.piece = some p)
    {background : Bool} {block blen : Nat} {flight : List WebSeedJob} (due : Due sized w p background block blen flight)
    (state : s.webseed = { w with inFlight := flight }) (seed : Nat) (got : Result Unit) (body : Bytes) (now : Nat) :
    FetchDeed sized maxFails w (applyMarks background seed block blen got body s)
        (webseedApplyBlock seed block blen got body now s).webseed ∧
      Outside s (webseedApplyBlock seed block blen got body now s) := by
  have held : s.webseed.piece = some p := by rw [state]; exact holding
  rcases copyBlock_cases block blen got body s with ⟨u, copied, length, fits, outside, -, written⟩ | copied
  · rw [applyMarks_eq held seed block blen got body background copied,
      webseedApplyBlock_eq held seed block blen got body now copied]
    simp only [Bool.not_true, Bool.false_and, Bool.and_false, Bool.false_eq_true, if_false, if_true, List.nil_append]
    obtain ⟨closes, kept, -⟩ := webseed_finishWebseed p (counted seed true u)
    have whole : Outside s (counted seed true u) := outside.trans ⟨rfl, rfl, rfl⟩
    subst length
    refine ⟨?_, whole.trans kept⟩
    rw [closes]
    rw [state] at fits
    have after : (counted seed true u).webseed = { w with
        inFlight := flight, data := Patch.splice w.data (block * BLOCK_LEN) body
        seedFails := w.seedFails.modify seed fun _ => 0 } := by
      show { u.webseed with seedFails := u.webseed.seedFails.modify seed fun _ => 0 } = _
      rw [written, state]
    exact .land holding due fits (mended_modify seed) after
  · rw [applyMarks_eq held seed block blen got body background copied,
      webseedApplyBlock_eq held seed block blen got body now copied]
    simp only [Bool.not_false, Bool.true_and, Bool.and_true, Bool.false_eq_true, if_false]
    have whole : Outside s (counted seed false s) := ⟨rfl, rfl, rfl⟩
    split
    · refine ⟨?_, whole.trans ⟨rfl, rfl, rfl⟩⟩
      have after : (backedOff now (counted seed false s)).webseed =
          { w.released with inFlight := [], retryAt := satAdd now s.cfg.webseed.backoffMs } := by
        show { s.webseed with piece := none, nextBlock := 0, totalBlocks := 0, data := [], seedFails := [], inFlight := [],
                              retryAt := satAdd now s.cfg.webseed.backoffMs } = _
        rw [state]
        rfl
      rw [after]
      exact .fall holding due _
    · obtain ⟨closes, kept, -⟩ := webseed_finishWebseed p (counted seed false s)
      refine ⟨?_, whole.trans kept⟩
      rw [closes]
      have after : (counted seed false s).webseed = { w with
          inFlight := flight, seedFails := w.seedFails.modify seed fun f => Leech.satAdd32 f 1 } := by
        show { s.webseed with seedFails := s.webseed.seedFails.modify seed fun f => Leech.satAdd32 f 1 } = _
        rw [state]
      exact .miss holding due after

theorem fetching_onRangeJobDone {s : TorrentSession} (idle : s.webseed.piece = none → s.webseed.inFlight = []) (id : Nat)
    (result : Result Bytes) (now : Nat) :
    Fetching sized maxFails s.webseed (jobMarks id result s) (onRangeJobDone id result now s).webseed ∧
      Outside s (onRangeJobDone id result now s) := by
  unfold onRangeJobDone jobMarks
  cases found : s.webseed.inFlight.find? (fun j => decide (j.jobId = id)) with
  | none => exact ⟨.done _, .refl s⟩
  | some job =>
    have flying : job ∈ s.webseed.inFlight := List.mem_of_find?_eq_some found
    cases holding : s.webseed.piece with
    | none =>
      rw [idle holding] at flying
      cases flying
    | some p =>
      dsimp only
      have due : Due sized s.webseed p true job.block job.len (s.webseed.inFlight.erase job) := .job flying
      obtain ⟨deed, outside⟩ := @deed_webseedApplyBlock maxFails _ _ { s with
        webseed := { s.webseed with inFlight := s.webseed.inFlight.erase job } } _ holding _ _ _ _ due rfl job.seed
        (if (result.toOption.getD []).length = job.len then .ok () else .error .protocol) (result.toOption.getD []) now
      exact ⟨deed.fetching, outside.torrent, outside.webSeeds, outside.cfg⟩

theorem pickWebseedPiece_sized {s : TorrentSession} {t : Torrent} {p len : Nat} (picked : pickWebseedPiece s t = some (p, len)) :
    Sized t p len := by
  unfold pickWebseedPiece at picked
  dsimp only at picked
  split_ifs at picked
  obtain ⟨q, _, chosen⟩ := List.exists_of_findSome?_eq_some picked
  split at chosen
  · cases chosen
  split at chosen
  next abs info located known =>
    split at chosen
    · cases chosen
      exact ⟨info, known, rfl⟩
    · cases chosen
  next => cases chosen

theorem fetching_beginWebseed (env : Env) (t : Torrent) (s : TorrentSession) :
    Fetching (Sized t) maxFails s.webseed (beginMarks env t s) (beginWebseed env t s).webseed ∧
      Outside s (beginWebseed env t s) := by
  unfold beginWebseed beginMarks
  by_cases busy : s.webseed.piece.isSome ∨ env.now < s.webseed.retryAt
  · rw [if_pos busy, if_pos busy]
    exact ⟨.done _, .refl s⟩
  · rw [if_neg busy, if_neg busy]
    have idle : s.webseed.piece = none := by
      cases held : s.webseed.piece with
      | none => rfl
      | some q => exact absurd (Or.inl (by rw [held]; rfl)) busy
    cases picked : pickWebseedPiece s t with
    | none => exact ⟨.done _, .refl s⟩
    | some chosen =>
      obtain ⟨p, len⟩ := chosen
      exact ⟨(FetchDeed.begin idle (pickWebseedPiece_sized picked) s.webSeeds.length).fetching, ⟨rfl, rfl, rfl⟩⟩

theorem pickSeed_none {seeds maxFails tries cursor : Nat} {fails : List Nat} (some_tries : 0 < tries)
    (none_left : (pickSeed seeds fails maxFails tries cursor).1 = none) (positive : 0 < maxFails) : ∃ f ∈ fails, f ≠ 0 := by
  cases tries with
  | zero => omega
  | succ tries =>
    unfold pickSeed at none_left
    split at none_left
    next failed =>
      cases here : fails[cursor % seeds]? with
      | none =>
        rw [List.getD_eq_getElem?_getD, here, Option.getD_none] at failed
        omega
      | some f =>
        rw [List.getD_eq_getElem?_getD, here, Option.getD_some] at failed
        exact ⟨f, List.mem_of_getElem? here, by omega⟩
    next => cases none_left

theorem webseedBlock_some {s : TorrentSession} {t : Torrent} {piece block seed : Nat} {url : Bytes} {first last len : Nat}
    (found : webseedBlock s t piece block seed = some (url, first, last, len)) :
    ∃ size, Sized t piece size ∧ block * BLOCK_LEN < size ∧ len = slotLen size block := by
  unfold webseedBlock at found
  split at found
  · cases found
  next info known =>
    dsimp only at found
    split at found
    · cases found
    next inside =>
      obtain ⟨base, -, same⟩ := Option.map_eq_some_iff.mp found
      cases same
      exact ⟨info.len, ⟨info, known, rfl⟩, by omega, rfl⟩

theorem webseedBlock_none {s : TorrentSession} {t : Torrent} {piece block seed : Nat} (mirrors : 0 < s.webSeeds.length)
    (missing : webseedBlock s t piece block seed = none) : ∀ size, Sized t piece size → size ≤ block * BLOCK_LEN := by
  rintro size ⟨info, known, rfl⟩
  unfold webseedBlock at missing
  rw [known] at missing
  dsimp only at missing
  split at missing
  next outside => exact outside
  next =>
    have present : s.webSeeds[seed % s.webSeeds.length]? ≠ none := by
      rw [ne_eq, List.getElem?_eq_none_iff]
      have := Nat.mod_lt seed mirrors
      omega
    exact absurd (Option.map_eq_none_iff.mp missing) present

section Loop
variable {H : Type} (host : Host H) (env : Env)

theorem fetching_fetchLoop (t : Torrent) (piece rounds : Nat) {w : World H} (holding : w.sess.webseed.piece = some piece)
    (mirrors : 0 < w.sess.webSeeds.length) (limit : w.sess.cfg.webseed.maxFails = maxFails) :
    Fetching (Sized t) maxFails w.sess.webseed (loopMarks host t piece rounds w) (fetchLoop host env t piece rounds w).sess.webseed ∧
      Outside w.sess (fetchLoop host env t piece rounds w).sess := by
  induction rounds generalizing w with
  | zero => exact ⟨.done _, .refl _⟩
  | succ rounds ih =>
    rw [fetchLoop, loopMarks]
    dsimp only
    split
    · exact ⟨.done _, .refl _⟩
    next room =>
      cases picked : pickSeed w.sess.webSeeds.length w.sess.webseed.seedFails w.sess.cfg.webseed.maxFails
          w.sess.webSeeds.length w.sess.webseed.seedIdx with
      | mk seed cursor =>
        dsimp only
        -- moving the cursor is a deed without a mark
        have turned : FetchDeed (Sized t) maxFails w.sess.webseed []
            (w.map fun s => { s with webseed := { s.webseed with seedIdx := cursor } }).sess.webseed := .turn _ cursor
        have outside : Outside w.sess (w.map fun s => { s with webseed := { s.webseed with seedIdx := cursor } }).sess :=
          ⟨rfl, rfl, rfl⟩
        have held : (w.map fun s => { s with webseed := { s.webseed with seedIdx := cursor } }).sess.webseed.piece = some piece := holding
        have next : (w.map fun s => { s with webseed := { s.webseed with seedIdx := cursor } }).sess.webseed.nextBlock =
          w.sess.webseed.nextBlock := rfl
        have fails : (w.map fun s => { s with webseed := { s.webseed with seedIdx := cursor } }).sess.webseed.seedFails =
          w.sess.webseed.seedFails := rfl
        have roomy : w.sess.webseed.nextBlock <
            (w.map fun s => { s with webseed := { s.webseed with seedIdx := cursor } }).sess.webseed.totalBlocks := by
          show w.sess.webseed.nextBlock < w.sess.webseed.totalBlocks
          omega
        generalize (w.map fun s => { s with webseed := { s.webseed with seedIdx := cursor } }) = v
          at turned outside held next fails roomy ⊢
        have later : ∀ {marks : List Mark} {u : World H}, Fetching (Sized t) maxFails v.sess.webseed marks u.sess.webseed →
            Outside v.sess u.sess → Fetching (Sized t) maxFails w.sess.webseed marks u.sess.webseed ∧ Outside w.sess u.sess :=
          fun fetching kept => ⟨.next turned fetching, outside.trans kept⟩
        cases seed with
        | none =>
          have none_left := congrArg Prod.fst picked
          have reason : 0 < maxFails → ∃ f ∈ v.sess.webseed.seedFails, f ≠ 0 := by
            intro positive
            rw [fails]
            exact pickSeed_none mirrors none_left (limit ▸ positive)
          exact later (FetchDeed.drop held (next.symm ▸ roomy) (fun positive => Or.inl (reason positive)) _).fetching ⟨rfl, rfl, rfl⟩
        | some seed =>
          dsimp only
          cases chosen : webseedBlock v.sess t piece w.sess.webseed.nextBlock seed with
          | none =>
            have seeds : 0 < v.sess.webSeeds.length := by rw [outside.webSeeds]; exact mirrors
            have short := webseedBlock_none seeds chosen
            rw [← next] at short
            exact later (FetchDeed.drop held (next.symm ▸ roomy) (fun _ => Or.inr short) v.sess.webseed.retryAt).fetching ⟨rfl, rfl, rfl⟩
          | some found =>
            obtain ⟨url, first, last, len⟩ := found
            obtain ⟨size, sized, inside, length⟩ := webseedBlock_some chosen
            dsimp only
            rw [← next] at inside length roomy ⊢
            subst length
            generalize (if v.sess.cfg.proxied then (0, v.io.host)
              else host.httpGetRangeAsync v.io.host url first last v.sess.cfg.webseed.timeoutMs) = asked
            obtain ⟨job, h⟩ := asked
            dsimp only
            split
            · have begun := @FetchDeed.start _ maxFails _ _ _ held sized roomy inside job seed
              obtain ⟨rest, kept⟩ := @ih ((v.setHost h).map fun s => { s with webseed := { s.webseed with
                inFlight := s.webseed.inFlight ++
                  [⟨job, piece, v.sess.webseed.nextBlock, slotLen size v.sess.webseed.nextBlock, seed⟩]
                nextBlock := s.webseed.nextBlock + 1 } }) held (outside.webSeeds ▸ mirrors) (outside.cfg ▸ limit)
              exact later (.next begun rest) ⟨kept.torrent, kept.webSeeds, kept.cfg⟩
            · have due : Due (Sized t) v.sess.webseed piece false v.sess.webseed.nextBlock
                (slotLen size v.sess.webseed.nextBlock) v.sess.webseed.inFlight := .now sized roomy inside
              obtain ⟨deed, kept⟩ := @deed_webseedApplyBlock maxFails _ _ v.sess _ held _ _ _ _ due rfl seed
                (host.httpGetRange h v.sess.cfg.proxied url first last v.sess.cfg.webseed.timeoutMs).1.1
                (host.httpGetRange h v.sess.cfg.proxied url first last v.sess.cfg.webseed.timeoutMs).1.2 env.now
              exact later deed.fetching kept

theorem fetching_driveWebseed {t : Torrent} {w : World H} (only : ∀ u, w.sess.torrent = some u → u = t)
    (limit : w.sess.cfg.webseed.maxFails = maxFails) :
    Fetching (Sized t) maxFails w.sess.webseed (driveMarks host env w) (driveWebseed host env w).sess.webseed ∧
      Outside w.sess (driveWebseed host env w).sess := by
  unfold driveWebseed driveMarks
  cases torrent : w.sess.torrent with
  | none => exact ⟨.done _, .refl _⟩
  | some u =>
    obtain rfl := only u torrent
    dsimp only
    split
    · exact ⟨.done _, .refl _⟩
    next ready =>
      have mirrors : 0 < w.sess.webSeeds.length := by
        rw [List.length_pos_iff]
        intro empty
        rw [empty] at ready
        simp at ready
      obtain ⟨begun, kept⟩ := @fetching_beginWebseed maxFails env u w.sess
      have seeds : 0 < (w.map (beginWebseed env u)).sess.webSeeds.length := by
        show 0 < (beginWebseed env u w.sess).webSeeds.length
        rw [kept.webSeeds]
        exact mirrors
      have limited : (w.map (beginWebseed env u)).sess.cfg.webseed.maxFails = maxFails := by
        show (beginWebseed env u w.sess).cfg.webseed.maxFails = maxFails
        rw [kept.cfg]
        exact limit
      cases holding : (w.map (beginWebseed env u)).sess.webseed.piece with
      | none =>
        dsimp only
        rw [List.append_nil]
        exact ⟨begun, kept⟩
      | some piece =>
        obtain ⟨looped, still⟩ := fetching_fetchLoop host env u piece (MAX_INFLIGHT + 1) holding seeds limited
        exact ⟨begun.trans looped, Outside.trans kept still⟩

end Loop

/-! ### What is handed over waits for the verifier -/

def awaiting (marks : List Mark) (pending : OrdMap Nat Bytes) : OrdMap Nat Bytes :=
  marks.foldl (fun m mark => match mark with | .handed p buf => m.insert p buf | _ => m) pending

theorem awaiting_append (marks more : List Mark) (pending : OrdMap Nat Bytes) :
    awaiting (marks ++ more) pending = awaiting more (awaiting marks pending) := List.foldl_append

theorem pendingVerify_webseedApplyBlock (background : Bool) (seed block blen : Nat) (got : Result Unit) (body : Bytes)
    (now : Nat) (s : TorrentSession) :
    (webseedApplyBlock seed block blen got body now s).pendingVerify =
      awaiting (applyMarks background seed block blen got body s) s.pendingVerify := by
  cases held : s.webseed.piece with
  | none =>
    unfold webseedApplyBlock applyMarks
    rw [held]
    rfl
  | some p =>
    have finished : ∀ u : TorrentSession, u.pendingVerify = s.pendingVerify →
        (finishWebseed p u).pendingVerify = awaiting (u.webseed.closeMarks p) s.pendingVerify := by
      intro u same
      obtain ⟨-, -, handed⟩ := webseed_finishWebseed p u
      rw [handed, same]
      unfold WebSeedState.closeMarks
      split <;> rfl
    rcases copyBlock_cases block blen got body s with ⟨u, copied, -, -, -, same, -⟩ | copied
    · rw [applyMarks_eq held seed block blen got body background copied,
        webseedApplyBlock_eq held seed block blen got body now copied]
      simp only [Bool.not_true, Bool.false_and, Bool.and_false, Bool.false_eq_true, if_false]
      exact finished (counted seed true u) same
    · rw [applyMarks_eq held seed block blen got body background copied,
        webseedApplyBlock_eq held seed block blen got body now copied]
      split
      · rfl
      · rw [finished (counted seed false s) rfl]
        cases background <;> rfl

theorem pendingVerify_onRangeJobDone (id : Nat) (result : Result Bytes) (now : Nat) (s : TorrentSession) :
    (onRangeJobDone id result now s).pendingVerify = awaiting (jobMarks id result s) s.pendingVerify := by
  unfold onRangeJobDone jobMarks
  cases s.webseed.inFlight.find? (fun j => decide (j.jobId = id)) with
  | none => rfl
  | some job => exact pendingVerify_webseedApplyBlock true _ _ _ _ _ now _

section Verifier
variable {H : Type} (host : Host H) (env : Env)

theorem pendingVerify_fetchLoop (t : Torrent) (piece rounds : Nat) (w : World H) :
    (fetchLoop host env t piece rounds w).sess.pendingVerify = awaiting (loopMarks host t piece rounds w) w.sess.pendingVerify := by
  induction rounds generalizing w with
  | zero => rfl
  | succ rounds ih =>
    rw [fetchLoop, loopMarks]
    dsimp only
    split
    · rfl
    · generalize pickSeed w.sess.webSeeds.length w.sess.webseed.seedFails w.sess.cfg.webseed.maxFails
        w.sess.webSeeds.length w.sess.webseed.seedIdx = picked
      obtain ⟨seed, cursor⟩ := picked
      dsimp only
      have turned : (w.map fun s => { s with webseed := { s.webseed with seedIdx := cursor } }).sess.pendingVerify =
        w.sess.pendingVerify := rfl
      generalize (w.map fun s => { s with webseed := { s.webseed with seedIdx := cursor } }) = v at turned ⊢
      rw [← turned]
      cases seed with
      | none => rfl
      | some seed =>
        dsimp only
        generalize webseedBlock v.sess t piece w.sess.webseed.nextBlock seed = chosen
        cases chosen with
        | none => rfl
        | some found =>
          obtain ⟨url, first, last, len⟩ := found
          dsimp only
          generalize (if v.sess.cfg.proxied then (0, v.io.host)
            else host.httpGetRangeAsync v.io.host url first last v.sess.cfg.webseed.timeoutMs) = asked
          obtain ⟨job, h⟩ := asked
          dsimp only
          split
          · exact ih _
          · exact pendingVerify_webseedApplyBlock false seed _ _ _ _ env.now v.sess

theorem pendingVerify_driveWebseed (w : World H) :
    (driveWebseed host env w).sess.pendingVerify = awaiting (driveMarks host env w) w.sess.pendingVerify := by
  unfold driveWebseed driveMarks
  cases w.sess.torrent with
  | none => rfl
  | some t =>
    dsimp only
    split
    · rfl
    · have begun : (w.map (beginWebseed env t)).sess.pendingVerify = awaiting (beginMarks env t w.sess) w.sess.pendingVerify := by
        show (beginWebseed env t w.sess).pendingVerify = _
        unfold beginWebseed beginMarks
        split
        · rfl
        · cases pickWebseedPiece w.sess t <;> rfl
      rw [awaiting_append, ← begun]
      cases (w.map (beginWebseed env t)).sess.webseed.piece with
      | none => rfl
      | some piece => exact pendingVerify_fetchLoop host env t piece _ _

end Verifier

end TypeBit.Session
