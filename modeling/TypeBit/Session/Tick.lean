import TypeBit.Session.Steps

/-! One tick of a session, its parts in order. A session that is stopped, paused or failed does
nothing; otherwise a tick is a sequence of moves. -/

namespace TypeBit.Session
open Metainfo Leech Wire Relation

/-- What a tick finds due, whom its choke pass picks and whom it evicts, and the peers the DHT found. -/
structure TickPlan where
  unchoke : Option (List ConnId)
  evict : Option ConnId
  found : List NetAddr
  pex : Bool

def METADATA_SERVED_IDLE_TIMEOUT_MS : Nat := 10000

def metadataIdle (now : Nat) (p : Peer) : Bool :=
  p.metadataServed && decide (now - p.metadataServedAt ≥ METADATA_SERVED_IDLE_TIMEOUT_MS) &&
    decide (p.lastRealAt ≤ p.metadataServedAt)

def halted (s : TorrentSession) : Bool :=
  match s.status with
  | .stopped | .paused | .failed => true
  | _ => false

section Tick
variable {H : Type} (host : Host H) (env : Env)

def dropMetadataIdle (w : World H) : World H :=
  w.sess.peers.keys.foldl (fun w c =>
    match w.sess.peers.get? c with
    | none => w
    | some p => if metadataIdle env.now p then dropPeer env c w else w) w

def fillReady (w : World H) : World H :=
  if w.sess.torrent.isSome ∧ w.sess.status = .downloading then
    w.sess.peers.keys.foldl (fun w c =>
      match w.sess.peers.get? c with
      | none => w
      | some p => if p.peerChoking ∨ p.phase ≠ .ready then w else fillPipeline env c w) w
  else w

def flushUnderPressure (w : World H) : World H :=
  if w.io.cache.used > w.io.cache.budget / 2 then { w with io := (DiskCache.flush host.toDiskHost w.io).2 } else w

def tick (plan : TickPlan) (w : World H) : World H :=
  if halted w.sess then w
  else
    let w := if w.sess.filesNeedReopen then reopenFiles host w else w
    let w := if w.sess.requestsNeedPrioritySweep then cancelSkippedPieceRequests w else w
    let w := (announceDue env w).map (housekeeping env)
    let w := match plan.unchoke with
      | some conns => w.map (applyUnchoke env.now conns)
      | none => w
    let w := match plan.evict with
      | some conn => evict env conn w
      | none => w
    let w := dropMetadataIdle env w
    let w := plan.found.foldl (fun w a => w.map (enqueuePeer a .dht env.now)) w
    let w := if plan.pex then w.map broadcastPex else w
    let w := if w.sess.torrent.isNone then (kickMetadata env w).getD w else w
    flushUnderPressure host (driveWebseed host env (fillReady env (sweepRequestTimeouts env w)))

theorem tick_halted {w : World H} (still : halted w.sess = true) (plan : TickPlan) : tick host env plan w = w := if_pos still

theorem chores_dropMetadataIdle (w : World H) : Chores w (dropMetadataIdle env w) := by
  refine Chores.foldl (fun v c => ?_) _ w
  split
  · exact ReflTransGen.refl
  · split
    · exact (partings_dropPeer env c v).chores
    · exact ReflTransGen.refl

theorem chores_fillReady (w : World H) : Chores w (fillReady env w) := by
  unfold fillReady
  split
  · refine Chores.foldl (fun v c => ?_) _ w
    split
    · exact ReflTransGen.refl
    · split
      · exact ReflTransGen.refl
      · exact chores_fillLoop env c 512 v
  · exact ReflTransGen.refl

theorem idle_flushUnderPressure (w : World H) : Idle w (flushUnderPressure host w) := by
  unfold flushUnderPressure
  split
  · exact idle_of_ledger rfl (DiskCache.window_flush host.toDiskHost w.io) rfl
  · exact Idle.refl w

theorem chores_tick (plan : TickPlan) (w : World H) : Chores w (tick host env plan w) := by
  unfold tick
  split
  · exact ReflTransGen.refl
  · dsimp only
    refine ReflTransGen.trans ?_ (idle_flushUnderPressure host _).chores
    refine ReflTransGen.trans ?_ (chores_driveWebseed host env _)
    refine ReflTransGen.trans ?_ (chores_fillReady env _)
    refine ReflTransGen.trans ?_ (errands_sweepRequestTimeouts env _).chores
    have optionally : ∀ {c : Prop} [Decidable c] {v u : World H}, Chores v u → Chores v (if c then u else v) := by
      intro c _ v u chores
      split
      · exact chores
      · exact ReflTransGen.refl
    refine ReflTransGen.trans ?_ (optionally (idle_kickMetadata env _).chores)
    refine ReflTransGen.trans ?_ (optionally
      (idle_map (ledger_foldl (fun s c => ledger_broadcastPexTo c s) _ _)).chores)
    refine ReflTransGen.trans ?_ (Chores.foldl
      (fun v a => (idle_map (ledger_enqueuePeer a .dht env.now v.sess)).chores) _ _)
    refine ReflTransGen.trans ?_ (chores_dropMetadataIdle env _)
    have reopened : Chores w (if w.sess.filesNeedReopen then reopenFiles host w else w) :=
      optionally (errands_reopenFiles host w).chores
    generalize (if w.sess.filesNeedReopen then reopenFiles host w else w) = v at reopened ⊢
    have swept : Chores v (if v.sess.requestsNeedPrioritySweep then cancelSkippedPieceRequests v else v) :=
      optionally (errands_cancelSkippedPieceRequests v).chores
    have housekept := (reopened.trans swept).trans
      ((idle_announceDue env _).chores.trans (idle_map (f := housekeeping env) rfl).chores)
    cases plan.unchoke with
    | none =>
      cases plan.evict with
      | none => exact housekept
      | some conn => exact housekept.trans (partings_evict env conn _).chores
    | some conns =>
      have unchoked := housekept.trans (idle_map (ledger_applyUnchoke env.now conns _)).chores
      cases plan.evict with
      | none => exact unchoked
      | some conn => exact unchoked.trans (partings_evict env conn _).chores

end Tick
end TypeBit.Session
