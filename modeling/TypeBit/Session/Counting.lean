import TypeBit.Session.Encounters

/-! The bytes a session counts as downloaded: those of every accepted window, whether they were new or not and
whatever becomes of the piece, and those of every web-seed block that lands. -/

namespace TypeBit.Session
open Metainfo Leech Wire

structure Counts (n : Nat) (x y : Side) : Prop where
  rest : y = { x with downloaded := y.downloaded }
  bytes : y.downloaded % 2 ^ 64 = (x.downloaded + n) % 2 ^ 64
  bound : x.downloaded < 2 ^ 64 → y.downloaded < 2 ^ 64

theorem counts_same {x y : Side} (same : y = x) : Counts 0 x y := by
  subst same
  exact ⟨rfl, rfl, fun bound => bound⟩

theorem counts_wadd (x : Side) (n : Nat) : Counts n x { x with downloaded := wadd x.downloaded n } :=
  ⟨rfl, Nat.mod_mod _ _, fun _ => Nat.mod_lt _ (by decide)⟩

theorem counts_count (x : Side) (n : Nat) : Counts n x (x.count n) := by
  unfold Side.count
  split
  · rename_i none
    rw [none]
    exact counts_same rfl
  · exact counts_wadd x n

theorem Counts.frame {n : Nat} {x y z u : Side} (counts : Counts n y z) (before : y = x) (after : u = z) : Counts n x u := by
  rw [after, ← before]
  exact counts

/-! ### Web seeds -/

def copiedLength (block blen : Nat) (got : Result Unit) (body : Bytes) (s : TorrentSession) : Nat :=
  if got = .ok () ∧ body.length = blen ∧ block * BLOCK_LEN + body.length ≤ s.webseed.data.length then body.length else 0

def landedLength (block blen : Nat) (got : Result Unit) (body : Bytes) (s : TorrentSession) : Nat :=
  match s.webseed.piece with
  | none => 0
  | some _ => copiedLength block blen got body s

def rangeLength (id : Nat) (result : Result Bytes) (s : TorrentSession) : Nat :=
  match s.webseed.inFlight.find? (fun j => decide (j.jobId = id)) with
  | none => 0
  | some job =>
      let body := result.toOption.getD []
      let got : Result Unit := if body.length = job.len then .ok () else .error .protocol
      let s := { s with webseed := { s.webseed with inFlight := s.webseed.inFlight.erase job } }
      landedLength job.block job.len got body s

theorem counts_copyBlock (block blen : Nat) (got : Result Unit) (body : Bytes) (s : TorrentSession) :
    Counts (copiedLength block blen got body s) s.side (copyBlock block blen got body s).2.side := by
  unfold copiedLength copyBlock
  dsimp only
  split
  · exact counts_wadd s.side body.length
  · exact counts_same rfl

theorem side_finishWebseed (piece : Nat) (s : TorrentSession) : (finishWebseed piece s).side = s.side := by
  unfold finishWebseed
  split
  · rfl
  · rfl

theorem counts_webseedApplyBlock (seed block blen : Nat) (got : Result Unit) (body : Bytes) (now : Nat)
    (s : TorrentSession) :
    Counts (landedLength block blen got body s) s.side (webseedApplyBlock seed block blen got body now s).side := by
  unfold landedLength webseedApplyBlock
  cases s.webseed.piece with
  | none => exact counts_same rfl
  | some piece =>
    have counts := counts_copyBlock block blen got body s
    dsimp only
    generalize copyBlock block blen got body s = copied at counts ⊢
    generalize copied.2.webseed.seedFails.modify seed _ = fails
    split
    · exact counts
    · exact counts.frame rfl (side_finishWebseed piece _)

theorem counts_onRangeJobDone (id : Nat) (result : Result Bytes) (now : Nat) (s : TorrentSession) :
    Counts (rangeLength id result s) s.side (onRangeJobDone id result now s).side := by
  unfold rangeLength onRangeJobDone
  cases s.webseed.inFlight.find? (fun j => decide (j.jobId = id)) with
  | none => exact counts_same rfl
  | some job => exact (counts_webseedApplyBlock job.seed job.block job.len _ _ now _).frame rfl rfl

section Drive
variable {H : Type} (host : Host H) (env : Env)

/-- The bytes that the window of parallel fetches brings at once: those of the block fetched without a worker. -/
def fetchedLength (t : Torrent) (piece : Nat) : Nat → World H → Nat
  | 0, _ => 0
  | rounds + 1, w =>
      let ws := w.sess.webseed
      if ws.inFlight.length ≥ MAX_INFLIGHT ∨ ws.nextBlock ≥ ws.totalBlocks then 0
      else
        let (picked, cursor) := pickSeed w.sess.webSeeds.length ws.seedFails w.sess.cfg.webseed.maxFails
          w.sess.webSeeds.length ws.seedIdx
        let w := w.map (fun s => { s with webseed := { s.webseed with seedIdx := cursor } })
        match picked with
        | none => 0
        | some seed =>
            match webseedBlock w.sess t piece ws.nextBlock seed with
            | none => 0
            | some (url, first, last, len) =>
                let (job, h) := if w.sess.cfg.proxied then (0, w.io.host)
                  else host.httpGetRangeAsync w.io.host url first last w.sess.cfg.webseed.timeoutMs
                let w := w.setHost h
                if job ≠ 0 then
                  fetchedLength t piece rounds (w.map (fun s => { s with webseed := { s.webseed with
                    inFlight := s.webseed.inFlight ++ [⟨job, piece, ws.nextBlock, len, seed⟩]
                    nextBlock := s.webseed.nextBlock + 1 } }))
                else
                  let ((got, body), _) := host.httpGetRange w.io.host w.sess.cfg.proxied url first last
                    w.sess.cfg.webseed.timeoutMs
                  landedLength ws.nextBlock len got body w.sess

def drivenLength (w : World H) : Nat :=
  match w.sess.torrent with
  | none => 0
  | some t =>
      if !w.sess.cfg.webseed.enabled || w.sess.webSeeds.isEmpty || decide (w.sess.status ≠ .downloading) then 0
      else
        let w := w.map (beginWebseed env t)
        match w.sess.webseed.piece with
        | none => 0
        | some piece => fetchedLength host t piece (MAX_INFLIGHT + 1) w

theorem side_beginWebseed (t : Torrent) (s : TorrentSession) : (beginWebseed env t s).side = s.side := by
  unfold beginWebseed
  split
  · rfl
  · split
    · rfl
    · rfl

theorem counts_fetchLoop (t : Torrent) (piece rounds : Nat) (w : World H) :
    Counts (fetchedLength host t piece rounds w) w.sess.side (fetchLoop host env t piece rounds w).sess.side := by
  induction rounds generalizing w with
  | zero => exact counts_same rfl
  | succ rounds ih =>
    rw [fetchedLength, fetchLoop]
    dsimp only
    by_cases full : w.sess.webseed.inFlight.length ≥ MAX_INFLIGHT ∨ w.sess.webseed.nextBlock ≥ w.sess.webseed.totalBlocks
    · rw [if_pos full, if_pos full]
      exact counts_same rfl
    · rw [if_neg full, if_neg full]
      cases pickSeed w.sess.webSeeds.length w.sess.webseed.seedFails w.sess.cfg.webseed.maxFails
        w.sess.webSeeds.length w.sess.webseed.seedIdx with
      | mk picked cursor =>
        generalize chosen : w.map (fun s => { s with webseed := { s.webseed with seedIdx := cursor } }) = v
        have same : v.sess.side = w.sess.side := chosen ▸ rfl
        rw [← same]
        cases picked with
        | none => exact counts_same rfl
        | some seed =>
          dsimp only
          cases webseedBlock v.sess t piece w.sess.webseed.nextBlock seed with
          | none => exact counts_same rfl
          | some found =>
            obtain ⟨url, first, last, len⟩ := found
            dsimp only
            generalize (if v.sess.cfg.proxied then (0, v.io.host)
              else host.httpGetRangeAsync v.io.host url first last v.sess.cfg.webseed.timeoutMs) = begun
            by_cases background : begun.1 ≠ 0
            · rw [if_pos background, if_pos background]
              exact (ih _).frame rfl rfl
            · rw [if_neg background, if_neg background]
              exact (counts_webseedApplyBlock seed w.sess.webseed.nextBlock len _ _ env.now v.sess).frame rfl rfl

theorem counts_driveWebseed (w : World H) :
    Counts (drivenLength host env w) w.sess.side (driveWebseed host env w).sess.side := by
  unfold drivenLength driveWebseed
  cases w.sess.torrent with
  | none => exact counts_same rfl
  | some t =>
    dsimp only
    split
    · exact counts_same rfl
    · generalize begun : w.map (beginWebseed env t) = v
      have same : v.sess.side = w.sess.side := begun ▸ side_beginWebseed env t w.sess
      rw [← same]
      cases v.sess.webseed.piece with
      | none => exact counts_same rfl
      | some piece => exact counts_fetchLoop host env t piece _ v

end Drive

/-! ### Runs -/

structure Adds (n : Nat) (x y : Side) : Prop where
  bytes : y.downloaded % 2 ^ 64 = (x.downloaded + n) % 2 ^ 64
  bound : x.downloaded < 2 ^ 64 → y.downloaded < 2 ^ 64

theorem Counts.adds {n : Nat} {x y : Side} (counts : Counts n x y) : Adds n x y := ⟨counts.bytes, counts.bound⟩

theorem adds_same {x y : Side} (same : y.downloaded = x.downloaded) : Adds 0 x y :=
  ⟨congrArg (· % 2 ^ 64) same, fun bound => same ▸ bound⟩

theorem Adds.trans {n k : Nat} {x y z : Side} (first : Adds n x y) (second : Adds k y z) : Adds (n + k) x z := by
  refine ⟨?_, fun bound => second.bound (first.bound bound)⟩
  have before := first.bytes
  have after := second.bytes
  omega

theorem downloaded_shift {x y : Side} (shift : Shift x y) : y.downloaded = x.downloaded := by
  cases shift with
  | leave => rfl
  | scatter => rfl
  | release => rfl
  | enter => rfl
  | tell => rfl

theorem adds_shifts {x y : Side} (shifts : Shifts x y) : Adds 0 x y := by
  refine adds_same ?_
  exact shifts.invariant (P := fun z => z.downloaded = x.downloaded)
    (fun shift same => (downloaded_shift shift).trans same) rfl

theorem downloaded_ask (conn : ConnId) (x : Side) : (x.ask conn).downloaded = x.downloaded := by
  unfold Side.ask
  split
  · split
    · rfl
    · rfl
  · rfl

section Received
variable {H : Type} {digests : Digests} {host : Host H}

def Encounter.taken (e : Encounter H) : Nat :=
  match e.msg with
  | .piece index start data => acceptedLength e.world.sess index start data
  | _ => 0

theorem adds_outcome (e : Encounter H) : Adds e.taken e.world.sess.side (e.outcome digests host).sess.side := by
  by_cases block : ∃ index start data, e.msg = .piece index start data
  · obtain ⟨index, start, data, said⟩ := block
    have counted := side_onPiece e.env e.conn index start data e.world
    unfold Encounter.taken Encounter.outcome
    rw [said, dispatch, counted]
    exact (counts_count _ _).adds
  · have other : ∀ index start data, e.msg ≠ .piece index start data :=
      fun index start data said => block ⟨index, start, data, said⟩
    have nothing : e.taken = 0 := by
      unfold Encounter.taken
      split
      · rename_i index start data said
        exact absurd said (other index start data)
      · rfl
    have heard := heard_dispatch digests host e.env e.conn e.msg e.world
    rw [nothing]
    unfold Encounter.outcome
    generalize (dispatch digests host e.env e.conn e.msg e.world).2.sess.side = y at heard ⊢
    generalize said : e.msg = msg at heard
    cases heard with
    | plain shifts => exact adds_shifts shifts
    | declares all => exact adds_same rfl
    | counted index start data n => exact absurd said (other index start data)
    | greeted parsed =>
      refine adds_same ?_
      split
      · exact downloaded_ask e.conn _
      · rfl
    | gathered parsed fetching gather =>
      refine adds_same ?_
      cases gather with
      | refused wrong => rfl
      | outside small agrees past => rfl
      | stored takes => rfl
      | restart takes spoilt again => rfl
      | ended takes => rfl
      | install takes yields => rfl
    | rejected parsed => exact adds_same rfl

theorem adds_path {w v : World H} {met : List (Encounter H)} (path : Path digests host w met v) :
    Adds (met.map Encounter.taken).sum w.sess.side v.sess.side := by
  induction path with
  | rest w => exact adds_same rfl
  | @shift w v u met shifts _ ih =>
    have both := (adds_shifts shifts).trans ih
    rwa [Nat.zero_add] at both
  | hear e _ ih =>
    rw [List.map_cons, List.sum_cons]
    exact (adds_outcome e).trans ih

variable (digests host)

def receivedBy (env : Env) (e : Event H) (w : World H) : Nat :=
  match e with
  | .data conn bytes => ((inbound digests host env conn bytes w).map Encounter.taken).sum
  | .driveWebseed => drivenLength host env w
  | .rangeJobDone id result => rangeLength id result w.sess
  | _ => 0

def received : List (Env × Event H) → World H → Nat
  | [], _ => 0
  | e :: tail, w => receivedBy digests host e.1 e.2 w + received tail (step digests host e.1 e.2 w)

theorem adds_step (env : Env) (e : Event H) (w : World H) :
    Adds (receivedBy digests host env e w) w.sess.side (step digests host env e w).sess.side := by
  cases fetches : e.fetches with
  | true =>
    cases e with
    | kickMetadata =>
      refine adds_same ?_
      rw [step]
      split
      · rw [side_kickMetadata]
      · rfl
    | install t =>
      refine adds_same ?_
      rw [step]
      split
      · rw [side_installTorrent]
        rfl
      · rfl
    | driveWebseed => exact (counts_driveWebseed host env w).adds
    | rangeJobDone id result => exact (counts_onRangeJobDone id result env.now w.sess).adds
    | _ => cases fetches
  | false =>
    have adds := adds_path (path_step digests host env fetches w)
    cases e with
    | kickMetadata => cases fetches
    | install t => cases fetches
    | driveWebseed => cases fetches
    | rangeJobDone id result => cases fetches
    | _ => exact adds

theorem adds_run (events : List (Env × Event H)) (w : World H) :
    Adds (received digests host events w) w.sess.side (run digests host events w).sess.side := by
  induction events generalizing w with
  | nil => exact adds_same rfl
  | cons e tail ih => exact (adds_step digests host e.1 e.2 w).trans (ih _)

end Received

theorem downloaded_initial {s : TorrentSession} (initial : Initial s) : s.downloadedBytes = 0 := by
  induction initial with
  | torrent t cfg now => rfl
  | magnet ih webSeeds cfg now => rfl
  | @restored fresh _ haveBytes priorities up down reputation now zero =>
    have same := congrArg Side.downloaded (side_applySavedState haveBytes priorities up down reputation now fresh)
    exact same.trans zero

theorem downloaded_run {H : Type} (digests : Digests) (host : Host H) {s : TorrentSession} (initial : Initial s)
    (io : DiskCache.State H) (events : List (Env × Event H)) :
    (run digests host events ⟨s, io, []⟩).sess.downloadedBytes = received digests host events ⟨s, io, []⟩ % 2 ^ 64 := by
  have adds := adds_run digests host events ⟨s, io, []⟩
  have zero : TorrentSession.downloadedBytes s = 0 := downloaded_initial initial
  have bytes := adds.bytes
  have bound := adds.bound (by rw [show s.side.downloaded = 0 from zero]; decide)
  rw [show s.side.downloaded = 0 from zero, Nat.zero_add] at bytes
  exact (Nat.mod_eq_of_lt bound).symm.trans bytes

end TypeBit.Session
