import TypeBit.Session.Steps

/-! Every outstanding request of a session takes one slot of the in-flight window that all sessions
share. Whatever a session does, it takes and returns as many slots as its requests come and go. -/

namespace TypeBit.Session
open Metainfo Leech Wire OrdMap

def load (s : TorrentSession) : Nat := s.requestedBy.total (fun _ reqs => reqs.length)

section Balance
variable {H : Type}

/-- The slots taken by others stay: the window changes by as much as the load of this session. -/
structure Balanced (w v : World H) : Prop where
  slots : w.io.cache.maxInflightBlocks < 2 ^ 64 → ∀ others, w.io.cache.inflightBlocks = others + load w.sess →
    v.io.cache.inflightBlocks = others + load v.sess
  limit : v.io.cache.maxInflightBlocks = w.io.cache.maxInflightBlocks

theorem Balanced.refl (w : World H) : Balanced w w := ⟨fun _ _ even => even, rfl⟩

theorem Balanced.trans {w v u : World H} (first : Balanced w v) (second : Balanced v u) : Balanced w u := by
  refine ⟨fun small others even => ?_, second.limit.trans first.limit⟩
  exact second.slots (first.limit ▸ small) others (first.slots small others even)

theorem Balanced.foldl {α : Type} {f : World H → α → World H} (each : ∀ w a, Balanced w (f w a)) (l : List α)
    (w : World H) : Balanced w (l.foldl f w) := by
  induction l generalizing w with
  | nil => exact Balanced.refl w
  | cons a tail ih => exact (each w a).trans (ih (f w a))

variable {w v : World H}

theorem balanced_same (requestedBy : v.sess.requestedBy = w.sess.requestedBy)
    (window : v.io.cache.window = w.io.cache.window) : Balanced w v := by
  have inflight : v.io.cache.inflightBlocks = w.io.cache.inflightBlocks := congrArg Prod.fst window
  refine ⟨fun _ others even => ?_, congrArg Prod.snd window⟩
  rw [inflight, even, load, load, requestedBy]

theorem balanced_release (n : Nat) (inflight : v.io.cache.inflightBlocks = w.io.cache.inflightBlocks - n)
    (limit : v.io.cache.maxInflightBlocks = w.io.cache.maxInflightBlocks) (fewer : load w.sess = n + load v.sess) :
    Balanced w v := by
  refine ⟨fun _ others even => ?_, limit⟩
  rw [inflight, even, fewer]
  omega

theorem Idle.balanced (idle : Idle w v) : Balanced w v :=
  balanced_same (congrArg Ledger.requestedBy idle.ledger) idle.window

/-! ### Releasing requests -/

/-- So many slots were returned, and the request table is as before. -/
structure Spent (n : Nat) (w v : World H) : Prop where
  inflight : v.io.cache.inflightBlocks = w.io.cache.inflightBlocks - n
  limit : v.io.cache.maxInflightBlocks = w.io.cache.maxInflightBlocks
  requestedBy : v.sess.requestedBy = w.sess.requestedBy

theorem Spent.foldl {α : Type} {f : World H → α → World H} (each : ∀ w a, Spent 1 w (f w a)) (l : List α)
    (w : World H) : Spent l.length w (l.foldl f w) := by
  induction l generalizing w with
  | nil => exact ⟨rfl, rfl, rfl⟩
  | cons a tail ih =>
    have first := each w a
    have rest := ih (f w a)
    refine ⟨?_, rest.limit.trans first.limit, rest.requestedBy.trans first.requestedBy⟩
    rw [List.foldl_cons, rest.inflight, first.inflight, List.length_cons]
    omega

theorem load_eq (s : TorrentSession) (k : BlockKey) :
    load s = ((s.requestedBy.get? k).getD []).length + (s.requestedBy.erase k).total (fun _ reqs => reqs.length) := by
  unfold load
  cases found : s.requestedBy.get? k with
  | none =>
    rw [erase_of_absent found]
    simp
  | some reqs => exact total_erase found

theorem spent_inflightDec (w : World H) : Spent 1 w w.inflightDec := ⟨rfl, rfl, rfl⟩

theorem balanced_cancelSkipped (w : World H) (k : BlockKey) : Balanced w (cancelSkipped w k) := by
  unfold cancelSkipped
  split
  · exact Balanced.refl w
  · rename_i reqs found
    dsimp only
    have cancelled := Spent.foldl (f := cancelRequester (H := H) (ofLex k).1 (ofLex k).2)
      (fun v c => ⟨rfl, rfl, rfl⟩) reqs (w.map (fun s => { s with requestedBy := s.requestedBy.erase k }))
    refine balanced_release reqs.length cancelled.inflight cancelled.limit ?_
    rw [load_eq w.sess k, found]
    exact congrArg (fun m => reqs.length + total (fun _ (r : List ConnId) => r.length) m) cancelled.requestedBy.symm

theorem spent_timeoutRequesters (piece block maxTimeouts : Nat) (reqs : List ConnId) (acc : World H × List ConnId) :
    Spent reqs.length acc.1 (reqs.foldl (timeoutRequester piece block maxTimeouts) acc).1 := by
  induction reqs generalizing acc with
  | nil => exact ⟨rfl, rfl, rfl⟩
  | cons c tail ih =>
    have rest := ih (timeoutRequester piece block maxTimeouts acc c)
    refine ⟨?_, rest.limit, rest.requestedBy⟩
    rw [List.foldl_cons, rest.inflight, List.length_cons]
    show acc.1.io.cache.inflightBlocks - 1 - tail.length = _
    omega

theorem balanced_timeoutBlock (maxTimeouts : Nat) (acc : World H × List ConnId) (k : BlockKey) :
    Balanced acc.1 (timeoutBlock maxTimeouts acc k).1 := by
  unfold timeoutBlock
  split
  · exact Balanced.refl _
  · rename_i reqs found
    have timedOut := spent_timeoutRequesters (ofLex k).1 (ofLex k).2 maxTimeouts reqs acc
    refine balanced_release reqs.length timedOut.inflight timedOut.limit ?_
    rw [load_eq acc.1.sess k, found]
    exact congrArg (fun m => reqs.length + total (fun _ (r : List ConnId) => r.length) (erase m k))
      timedOut.requestedBy.symm

theorem spent_resolveRequest (conn : ConnId) (index start len : Nat) (w : World H) (c : ConnId) :
    Spent 1 w (resolveRequest conn index start len w c) := by
  unfold resolveRequest
  dsimp only
  split_ifs
  · exact ⟨rfl, rfl, rfl⟩
  · exact spent_inflightDec w

theorem balanced_resolveBlock (conn : ConnId) (index start len totalBlocks : Nat) (w : World H) (b : Nat) :
    Balanced w (resolveBlock conn index start len totalBlocks w b) := by
  have resolved := Spent.foldl (spent_resolveRequest conn index start len)
    ((w.sess.requestedBy.get? (blockKey index (b % 2 ^ 16))).getD []) w
  refine balanced_release _ resolved.inflight resolved.limit ?_
  rw [load_eq w.sess (blockKey index (b % 2 ^ 16))]
  exact congrArg (fun m => _ + total (fun _ (r : List ConnId) => r.length)
    (erase m (blockKey index (b % 2 ^ 16)))) resolved.requestedBy.symm

theorem balanced_withdraw {conn : ConnId} {index start : Nat} {reqs : List ConnId}
    (found : w.sess.requestedBy.get? (blockKey index (start / BLOCK_LEN % 2 ^ 16)) = some reqs) (outstanding : conn ∈ reqs) :
    Balanced w (cancelPeerRequest conn index start w).2 := by
  have listed : (w.sess.requestedBy.get? (blockKey index (start / BLOCK_LEN % 2 ^ 16))).filter
      (fun reqs => reqs.contains conn) = some reqs := by
    rw [found, Option.filter_some, if_pos (List.contains_iff_mem.mpr outstanding)]
  have shorter := List.length_erase_of_mem outstanding
  have nonempty := List.length_pos_of_mem outstanding
  have before := load_eq w.sess (blockKey index (start / BLOCK_LEN % 2 ^ 16))
  rw [found, Option.getD_some] at before
  unfold cancelPeerRequest
  simp only [listed]
  split_ifs with last
  · refine balanced_release 1 rfl rfl ?_
    rw [List.isEmpty_iff] at last
    rw [last, List.length_nil] at shorter
    rw [before, show reqs.length = 1 by omega]
    rfl
  · refine balanced_release 1 rfl rfl ?_
    have after : (w.sess.requestedBy.insert (blockKey index (start / BLOCK_LEN % 2 ^ 16)) (reqs.erase conn)).total
        (fun _ reqs => reqs.length) = (reqs.erase conn).length +
          (w.sess.requestedBy.erase (blockKey index (start / BLOCK_LEN % 2 ^ 16))).total (fun _ reqs => reqs.length) :=
      total_insert _ _ _ _
    refine Eq.trans ?_ (congrArg (1 + ·) after.symm)
    rw [shorter, before]
    omega

theorem load_struck (conn : ConnId) (m : OrdMap BlockKey (List ConnId)) :
    m.total (fun _ reqs => reqs.length) = (m.entries.filter (fun e => e.2.contains conn)).length +
      ((m.mapValues (fun _ reqs => reqs.erase conn)).filter (fun _ reqs => !reqs.isEmpty)).total
        (fun _ reqs => reqs.length) := by
  have struck : ((m.mapValues (fun _ reqs => reqs.erase conn)).filter (fun _ reqs => !reqs.isEmpty)).total
      (fun _ reqs => reqs.length) = m.total (fun _ reqs => (reqs.erase conn).length) := by
    rw [total_filter, total_mapValues]
    refine total_congr fun k reqs _ => ?_
    cases reqs.erase conn <;> rfl
  rw [struck, ← total_indicator m (fun _ reqs => reqs.contains conn), ← total_add]
  refine total_congr fun k reqs _ => ?_
  by_cases asked : conn ∈ reqs
  · have nonempty := List.length_pos_of_mem asked
    rw [if_pos (List.contains_iff_mem.mpr asked), List.length_erase_of_mem asked]
    omega
  · rw [if_neg (by simpa using asked), List.erase_of_not_mem asked, Nat.zero_add]

theorem balanced_releaseRequests (conn : ConnId) (w : World H) : Balanced w (releaseRequests conn w) := by
  have paid := Spent.foldl (f := fun (w : World H) (_ : BlockKey × List ConnId) => w.inflightDec)
    (fun v _ => spent_inflightDec v) (w.sess.requestedBy.entries.filter (fun e => e.2.contains conn)) w
  have cleared : ∀ (v : World H) (k : BlockKey), Balanced v (v.map (fun s => s.releaseBlock k)) :=
    fun v k => balanced_same rfl rfl
  unfold releaseRequests
  dsimp only
  refine Balanced.trans ?_ (Balanced.foldl cleared _ _)
  refine balanced_release _ paid.inflight paid.limit ?_
  refine (load_struck conn w.sess.requestedBy).trans (congrArg (_ + ·) ?_)
  exact congrArg (fun m : OrdMap BlockKey (List ConnId) => ((m.mapValues (fun _ reqs => reqs.erase conn)).filter
    (fun _ reqs => !reqs.isEmpty)).total (fun _ reqs => reqs.length)) paid.requestedBy.symm

/-! ### Moves and deeds -/

structure Roster where
  peers : OrdMap ConnId Peer
  requestedBy : OrdMap BlockKey (List ConnId)
  requestedAt : OrdMap BlockKey Nat

def TorrentSession.roster (s : TorrentSession) : Roster := ⟨s.peers, s.requestedBy, s.requestedAt⟩

theorem roster_refreshCompletion (s : TorrentSession) : (refreshCompletion s).roster = s.roster := by
  unfold refreshCompletion
  split_ifs <;> rfl

theorem roster_recomputePriorities (s : TorrentSession) : (recomputePriorities s).roster = s.roster := by
  unfold recomputePriorities
  split
  · rfl
  · exact roster_refreshCompletion _

theorem balanced_issueRequest (env : Env) (conn : ConnId) (piece block totalBlocks len : Nat)
    (room : w.io.cache.inflightAvailable = true) : Balanced w (issueRequest env conn piece block totalBlocks len w) := by
  have free : w.io.cache.inflightBlocks < w.io.cache.maxInflightBlocks := of_decide_eq_true room
  refine ⟨fun small others even => ?_, rfl⟩
  have after : load (issueRequest env conn piece block totalBlocks len w).sess =
      ((w.sess.requestedBy.get? (blockKey piece block)).getD [] ++ [conn]).length +
        (w.sess.requestedBy.erase (blockKey piece block)).total (fun _ reqs => reqs.length) :=
    total_insert _ _ _ _
  have taken : satAdd w.io.cache.inflightBlocks 1 = w.io.cache.inflightBlocks + 1 := by
    refine Nat.min_eq_left ?_
    have below := Nat.lt_of_lt_of_le free (Nat.le_sub_one_of_lt small)
    exact below
  have before := load_eq w.sess (blockKey piece block)
  rw [after, List.length_append, List.length_singleton]
  refine taken.trans ?_
  omega

theorem balanced_storeBytes (conn : ConnId) (index start : Nat) (data : Bytes) (pieceLen : Nat) (w : World H) :
    Balanced w (storeBytes conn index start data pieceLen w) := by
  unfold storeBytes
  dsimp only
  split
  · exact balanced_same rfl rfl
  · split
    · unfold handOver
      split
      · exact balanced_same rfl rfl
      · exact balanced_same rfl rfl
    · exact balanced_same rfl rfl

theorem balanced_acceptPiece (env : Env) (conn : ConnId) (index start : Nat) (data : Bytes) (pieceLen : Nat) (w : World H) :
    Balanced w (acceptPiece env conn index start data pieceLen w) := by
  have resolved := Balanced.foldl (balanced_resolveBlock conn index start data.length (blockCountFor pieceLen))
    (overlapped start data.length) w
  unfold acceptPiece
  dsimp only
  refine resolved.trans (Balanced.trans ?_ (balanced_storeBytes conn index start data pieceLen _))
  exact balanced_same rfl rfl

theorem Parting.balanced (parting : Parting w v) : Balanced w v := by
  cases parting with
  | idle same => exact same.balanced
  | detach conn attached =>
    have erased : Balanced w (w.map (fun s => { s with peers := s.peers.erase conn })) := balanced_same rfl rfl
    exact erased.trans (balanced_releaseRequests conn _)

theorem Chore.balanced (chore : Chore w v) : Balanced w v := by
  cases chore with
  | part parting => exact parting.balanced
  | commit conn piece inside => exact balanced_same rfl rfl
  | release conn w => exact balanced_same rfl rfl
  | issue env conn piece block len attached pledged torrent known wanted free room =>
    exact balanced_issueRequest env conn piece block _ len room
  | cancel w k => exact balanced_cancelSkipped w k
  | timeout maxTimeouts w toBan k => exact balanced_timeoutBlock maxTimeouts (w, toBan) k
  | withdraw conn index start found outstanding => exact balanced_withdraw found outstanding
  | judge w index => exact balanced_same rfl rfl
  | take w => exact balanced_same rfl rfl
  | fetch fetched window traced => exact balanced_same (congrArg Ledger.requestedBy fetched.ledger) window
  | install env t absent => exact balanced_same (congrArg Roster.requestedBy (roster_recomputePriorities _)) rfl
  | refetch fails fetching => exact balanced_same rfl rfl
  | abandon fails fetching => exact balanced_same rfl rfl
  | fail w => exact balanced_same rfl rfl

theorem Move.balanced (move : Move w v) : Balanced w v := by
  cases move with
  | chore chore => exact chore.balanced
  | attach w conn peer unused => exact balanced_same rfl rfl
  | accept env conn index start data torrent known filled inside blocks =>
    exact balanced_acceptPiece env conn index start data _ w
  | forget w index => exact balanced_same rfl rfl

theorem Moves.balanced (moves : Moves w v) : Balanced w v :=
  moves.invariant (P := Balanced w) (fun move before => before.trans move.balanced) (Balanced.refl w)

theorem roster_setFilePriority (file : Nat) (prio : FilePriority) (s : TorrentSession) :
    (setFilePriority file prio s).2.roster = s.roster := by
  unfold setFilePriority
  split
  · rfl
  · split
    · rfl
    · exact roster_recomputePriorities { s with cfg := { s.cfg with filePriorities := _ } }

theorem roster_setFilePriorities (priorities : List FilePriority) (s : TorrentSession) :
    (setFilePriorities priorities s).2.roster = s.roster := by
  unfold setFilePriorities
  split
  · rfl
  · dsimp only
    split
    · exact roster_recomputePriorities _
    · exact (roster_refreshCompletion _).trans (roster_recomputePriorities _)

theorem roster_applySavedState (haveBytes priorities : Bytes) (up down : Nat) (reputation : Option ReputationStore)
    (now : Nat) (s : TorrentSession) :
    (applySavedState haveBytes priorities up down reputation now s).2.roster = s.roster := by
  unfold applySavedState
  split
  · rfl
  · dsimp only
    split
    · rfl
    · rename_i u selected
      have chosen : u.roster = s.roster := by
        split_ifs at selected
        · cases selected
          rfl
        · split at selected
          · cases selected
          · cases selected
            exact roster_recomputePriorities _
      refine (roster_refreshCompletion _).trans (Eq.trans ?_ chosen)
      cases reputation with
      | none => rfl
      | some r => rfl

theorem requestedBy_stop (host : Host H) (w : World H) : (stop host w).sess.requestedBy = w.sess.requestedBy := by
  unfold stop
  split
  · rfl
  · have closed := (idle_emit w (e := .announced .stopped) rfl).trans
      (Idle.foldl (fun (v : World H) c => idle_emit v (e := .closed c) rfl) w.sess.peers.keys _)
    exact congrArg Ledger.requestedBy closed.ledger

theorem balanced_stop (host : Host H) (w : World H) : Balanced w (stop host w) := by
  unfold stop
  split
  · exact Balanced.refl w
  · have closed := (idle_emit w (e := .announced .stopped) rfl).trans
      (Idle.foldl (fun (v : World H) c => idle_emit v (e := .closed c) rfl) w.sess.peers.keys _)
    exact closed.balanced.trans (balanced_same rfl rfl)

theorem Deed.balanced {host : Host H} {env : Env} {e : Event H} (deed : Deed host env e w v)
    (own : ∀ state, e ≠ .io state) : Balanced w v := by
  cases deed with
  | start halted => exact balanced_same (congrArg Roster.requestedBy (roster_refreshCompletion _)) rfl
  | pause running => exact balanced_same rfl rfl
  | resume paused =>
    rw [Session.resume, if_neg (not_not.mpr paused)]
    exact balanced_same (congrArg Roster.requestedBy (roster_refreshCompletion _)) rfl
  | stop running => exact balanced_stop host w
  | setFilePriority file prio w =>
    exact balanced_same (congrArg Roster.requestedBy (roster_setFilePriority file prio w.sess)) rfl
  | setFilePriorities priorities w =>
    exact balanced_same (congrArg Roster.requestedBy (roster_setFilePriorities priorities w.sess)) rfl
  | setHoldData hold w =>
    exact balanced_same (congrArg Roster.requestedBy (roster_recomputePriorities _)) rfl
  | @verify piece totalBlocks abs data t w u verifying torrent located written =>
    have stored := idle_writeAbs host abs data (w.map (fun s => { s with verifying := s.verifying.erase piece }))
    rw [written] at stored
    have judged : Balanced w (w.map (fun s => { s with verifying := s.verifying.erase piece })) := balanced_same rfl rfl
    refine (judged.trans stored.balanced).trans ?_
    unfold announceCompletion
    split
    · exact balanced_same rfl rfl
    · exact balanced_same rfl rfl
  | share state w => exact absurd rfl (own state)

theorem balanced_step (digests : Digests) (host : Host H) (env : Env) {e : Event H} (own : ∀ state, e ≠ .io state)
    (w : World H) : Balanced w (step digests host env e w) := by
  rcases step_cases digests host env e w with moves | ⟨u, deed, moves⟩
  · exact moves.balanced
  · exact (deed.balanced own).trans moves.balanced

end Balance
end TypeBit.Session
