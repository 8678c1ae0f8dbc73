import TypeBit.Session.WebPieces

/-! Runs of the web-seed fetcher. As long as no fetch is lost in the background, every buffer handed over is made of
fetched blocks, and a piece is handed over after as many fetches as it has blocks; blocks fetched in the foreground
never complete a piece. -/

namespace TypeBit.Session
open Metainfo

/-! ### Runs -/

/-- What happens to a fetcher: it is driven, a background fetch completes, or the session does something else. -/
inductive MirrorEvent (H : Type) where
  | drive (env : Env)
  | done (id : Nat) (result : Result Bytes) (now : Nat)
  | aside (w : World H)

section Runs
variable {H : Type} (host : Host H)

def mirrorStep (e : MirrorEvent H) (w : World H) : World H :=
  match e with
  | .drive env => driveWebseed host env w
  | .done id result now => w.map (onRangeJobDone id result now)
  | .aside v => v

def eventMarks (e : MirrorEvent H) (w : World H) : List Mark :=
  match e with
  | .drive env => driveMarks host env w
  | .done id result _ => jobMarks id result w.sess
  | .aside _ => []

def mirrorRun : List (MirrorEvent H) → World H → World H
  | [], w => w
  | e :: tail, w => mirrorRun tail (mirrorStep host e w)

def mirrorLog : List (MirrorEvent H) → World H → List Mark
  | [], _ => []
  | e :: tail, w => eventMarks host e w ++ mirrorLog tail (mirrorStep host e w)

/-- Every event meets a condition on the state it finds. -/
def Throughout (condition : MirrorEvent H → World H → Prop) : List (MirrorEvent H) → World H → Prop
  | [], _ => True
  | e :: tail, w => condition e w ∧ Throughout condition tail (mirrorStep host e w)

/-- Whatever else the session does, it leaves the fetcher and the configuration alone, and its metadata is this torrent's. -/
def Proper (t : Torrent) (e : MirrorEvent H) (w : World H) : Prop :=
  match e with
  | .aside v => v.sess.webseed = w.sess.webseed ∧ v.sess.cfg = w.sess.cfg ∧ ∀ u, v.sess.torrent = some u → u = t
  | _ => True

/-- A completed fetch brings its block whole. -/
def Delivered (e : MirrorEvent H) (w : World H) : Prop :=
  match e with
  | .done id result _ => ∀ job, w.sess.webseed.inFlight.find? (fun j => decide (j.jobId = id)) = some job →
      (result.toOption.getD []).length = job.len
  | _ => True

/-- A completed fetch brings its block whole, or was the last hope of the piece. -/
def Spared (e : MirrorEvent H) (w : World H) : Prop :=
  match e with
  | .done id result _ => ∀ job, w.sess.webseed.inFlight.find? (fun j => decide (j.jobId = id)) = some job →
      (result.toOption.getD []).length = job.len ∨
        ∀ f ∈ w.sess.webseed.seedFails.modify job.seed (fun f => Leech.satAdd32 f 1), w.sess.cfg.webseed.maxFails ≤ f
  | _ => True

end Runs

/-! ### What the log says -/

def Landed (log : List Mark) (p : Nat) (buf : Bytes) (b : Nat) : Prop :=
  ∃ background body, Mark.fetched background p b (some body) ∈ log ∧ (buf.drop (b * BLOCK_LEN)).take BLOCK_LEN = body

def Whole (t : Torrent) (log : List Mark) (p : Nat) (buf : Bytes) : Prop :=
  Sized t p buf.length ∧ ∀ b, b * BLOCK_LEN < buf.length → Landed log p buf b

/-- Every buffer handed over was fetched before. -/
def Assembled (t : Torrent) (log : List Mark) : Prop :=
  ∀ before after p buf, log = before ++ .handed p buf :: after → Whole t before p buf

def Mark.isFetch : Mark → Bool
  | .fetched _ _ _ _ => true
  | _ => false

/-- A piece is handed over once there were as many fetches as it has blocks. -/
def Finishes (log : List Mark) : Prop :=
  ∀ before after p blocks, log = before ++ .begun p blocks :: after → blocks ≤ after.countP Mark.isFetch →
    ∃ buf, Mark.handed p buf ∈ after

/-! ### The piece at hand -/

section Deeds
variable {sized : Nat → Nat → Prop} {maxFails : Nat} {w v : WebSeedState} {marks : List Mark}

/-- What the fetcher knows of its piece: its size, and the blocks it asked for. -/
structure Holding (sized : Nat → Nat → Prop) (w : WebSeedState) : Prop where
  idle : w.piece = none → w.inFlight = []
  size : ∀ p, w.piece = some p → sized p w.data.length
  total : ∀ p, w.piece = some p → w.totalBlocks = blockCountFor w.data.length
  asked : w.nextBlock ≤ w.totalBlocks
  jobs : ∀ job ∈ w.inFlight, job.block < w.nextBlock ∧ job.block * BLOCK_LEN < w.data.length ∧
    job.len = slotLen w.data.length job.block

theorem holding_idle (idle : w.piece = none) (landed : w.inFlight = []) (asked : w.nextBlock ≤ w.totalBlocks) : Holding sized w where
  idle _ := landed
  size p held := by rw [idle] at held; cases held
  total p held := by rw [idle] at held; cases held
  asked := asked
  jobs job member := by rw [landed] at member; cases member

theorem Holding.closed (holding : Holding sized w) : Holding sized w.closed := by
  unfold WebSeedState.closed
  split
  next complete => exact holding_idle rfl complete.1 (Nat.le_refl 0)
  next => exact holding

theorem Due.subset {p block blen : Nat} {background : Bool} {flight : List WebSeedJob}
    (due : Due sized w p background block blen flight) : flight ⊆ w.inFlight := by
  cases due with
  | job flying => exact List.erase_subset
  | now size room inside => exact List.Subset.refl _

theorem Holding.landed (holding : Holding sized w) {flight : List WebSeedJob} {data : Bytes} {fails : List Nat}
    (fewer : flight ⊆ w.inFlight) (length : data.length = w.data.length) :
    Holding sized { w with inFlight := flight, data := data, seedFails := fails } where
  idle absent := by
    have empty := holding.idle absent
    rw [empty] at fewer
    exact List.subset_nil.mp fewer
  size p held := length ▸ holding.size p held
  total p held := length ▸ holding.total p held
  asked := holding.asked
  jobs job member := length ▸ holding.jobs job (fewer member)

theorem FetchDeed.holding (functional : ∀ p a b, sized p a → sized p b → a = b) (deed : FetchDeed sized maxFails w marks v)
    (holding : Holding sized w) : Holding sized v := by
  cases deed with
  | turn seedIdx => exact ⟨holding.idle, holding.size, holding.total, holding.asked, holding.jobs⟩
  | @begin p len idle size seeds =>
    have length : (List.replicate len (0 : UInt8)).length = len := List.length_replicate
    refine ⟨fun absent => (nomatch absent), ?_, ?_, Nat.zero_le _, ?_⟩
    · rintro q ⟨rfl⟩
      exact length.symm ▸ size
    · rintro q ⟨rfl⟩
      exact congrArg blockCountFor length.symm
    · intro job member
      rw [show w.inFlight = [] from holding.idle idle] at member
      cases member
  | @start p len held size room inside id seed =>
    have length : len = w.data.length := functional p _ _ size (holding.size p held)
    subst length
    refine ⟨fun absent => ?_, holding.size, holding.total, room, ?_⟩
    · rw [show w.piece = none from absent] at held
      cases held
    · intro job member
      rcases List.mem_append.mp member with old | new
      · obtain ⟨before, within, slot⟩ := holding.jobs job old
        exact ⟨Nat.lt_succ_of_lt before, within, slot⟩
      · obtain rfl := List.mem_singleton.mp new
        exact ⟨Nat.lt_succ_self _, inside, rfl⟩
  | drop held room reason retryAt => exact holding_idle rfl rfl (Nat.le_refl 0)
  | land held due fits mended after =>
    subst after
    exact (holding.landed due.subset (Patch.length_splice fits)).closed
  | miss held due after =>
    subst after
    exact (holding.landed due.subset rfl).closed
  | fall held due retryAt => exact holding_idle rfl rfl (Nat.le_refl 0)

end Deeds

theorem sized_functional (t : Torrent) : ∀ p a b, Sized t p a → Sized t p b → a = b := by
  rintro p a b ⟨i, known, rfl⟩ ⟨j, same, rfl⟩
  rw [known] at same
  cases same
  rfl

/-! ### Buffers of fetched blocks -/

section Filling
variable {t : Torrent} {maxFails : Nat} {log marks : List Mark} {w v : WebSeedState}

theorem Landed.mono {p b : Nat} {buf : Bytes} (landed : Landed log p buf b) (more : List Mark) : Landed (log ++ more) p buf b := by
  obtain ⟨background, body, noted, holds⟩ := landed
  exact ⟨background, body, List.mem_append_left _ noted, holds⟩

theorem Assembled.snoc (assembled : Assembled t log) {mark : Mark} (whole : ∀ p buf, mark = .handed p buf → Whole t log p buf) :
    Assembled t (log ++ [mark]) := by
  intro before after p buf same
  rcases List.eq_nil_or_concat after with rfl | ⟨rest, last, rfl⟩
  · obtain ⟨rfl, at_end⟩ := List.append_inj' same rfl
    exact whole p buf (List.singleton_inj.mp at_end)
  · rw [List.concat_eq_append, ← List.cons_append, ← List.append_assoc] at same
    obtain ⟨rfl, -⟩ := List.append_inj' same rfl
    exact assembled before rest p buf rfl

/-- Every block asked for is in flight or in place, and what was handed over is whole. -/
structure Filling (t : Torrent) (log : List Mark) (w : WebSeedState) : Prop where
  holding : Holding (Sized t) w
  blocks : ∀ p, w.piece = some p → ∀ b < w.nextBlock, (∃ job ∈ w.inFlight, job.block = b) ∨ Landed log p w.data b
  assembled : Assembled t log

theorem Filling.snoc (filling : Filling t log w) {mark : Mark} (other : ∀ p buf, mark ≠ .handed p buf) :
    Filling t (log ++ [mark]) w where
  holding := filling.holding
  blocks p held b below := (filling.blocks p held b below).imp_right fun landed => landed.mono [mark]
  assembled := filling.assembled.snoc fun p buf same => absurd same (other p buf)

theorem Filling.closed (sizes : ∀ p len, Sized t p len → len ≤ 65535 * BLOCK_LEN) (filling : Filling t log w) {p : Nat}
    (held : w.piece = some p) : Filling t (log ++ w.closeMarks p) w.closed := by
  have closes := filling.holding.closed
  unfold WebSeedState.closed WebSeedState.closeMarks at *
  by_cases complete : w.Complete
  · rw [if_pos complete] at closes
    rw [if_pos complete, if_pos complete]
    refine ⟨closes, fun q absent => (nomatch absent), filling.assembled.snoc ?_⟩
    rintro q buf ⟨rfl, rfl⟩
    have size := filling.holding.size p held
    refine ⟨size, fun b inside => ?_⟩
    have below : b < w.nextBlock := by
      refine Nat.lt_of_lt_of_le (lt_blockCountFor (sizes p _ size) inside) ?_
      rw [← filling.holding.total p held]
      exact complete.2
    rcases filling.blocks p held b below with ⟨job, flying, -⟩ | landed
    · rw [complete.1] at flying
      cases flying
    · exact landed
  · rw [if_neg complete, if_neg complete, List.append_nil]
    exact filling

variable {background : Bool} {flight : List WebSeedJob}

theorem Due.slot {p block blen : Nat} (holding : Holding (Sized t) w)
    (held : w.piece = some p) (due : Due (Sized t) w p background block blen flight) : blen = slotLen w.data.length block := by
  cases due with
  | job flying => exact (holding.jobs _ flying).2.2
  | now size room inside => rw [sized_functional t p _ _ size (holding.size p held)]

theorem Due.others {p block blen : Nat}
    (due : Due (Sized t) w p background block blen flight) {job : WebSeedJob} (flying : job ∈ w.inFlight)
    (other : job.block ≠ block) : job ∈ flight := by
  cases due with
  | @job landed _ =>
    refine (List.mem_erase_of_ne ?_).mpr flying
    rintro rfl
    exact other rfl
  | now size room inside => exact flying

theorem Filling.land (filling : Filling t log w) {p block : Nat} {body : Bytes}
    (held : w.piece = some p) (due : Due (Sized t) w p background block body.length flight)
    (fits : block * BLOCK_LEN + body.length ≤ w.data.length) (fails : List Nat) :
    Filling t (log ++ [.fetched background p block (some body)])
      { w with inFlight := flight, data := Patch.splice w.data (block * BLOCK_LEN) body, seedFails := fails } where
  holding := filling.holding.landed due.subset (Patch.length_splice fits)
  blocks q same b below := by
    obtain rfl : p = q := Option.some.inj (held.symm.trans same)
    have slot := due.slot filling.holding held
    by_cases here : b = block
    · subst here
      refine Or.inr ⟨background, body, List.mem_append_right _ List.mem_cons_self, ?_⟩
      exact Patch.window_splice fits slot
    · rcases filling.blocks p held b below with ⟨job, flying, rfl⟩ | ⟨earlier, old, noted, holds⟩
      · exact Or.inl ⟨job, due.others flying here, rfl⟩
      · refine Or.inr ⟨earlier, old, List.mem_append_left _ noted, ?_⟩
        have apart : b * BLOCK_LEN + BLOCK_LEN ≤ block * BLOCK_LEN ∨ block * BLOCK_LEN + body.length ≤ b * BLOCK_LEN := by
          have short : body.length ≤ BLOCK_LEN := slot ▸ Nat.min_le_left _ _
          rw [← Nat.succ_mul]
          rcases Nat.lt_or_gt_of_ne here with before | after
          · exact Or.inl (Nat.mul_le_mul_right _ before)
          · have steps := Nat.mul_le_mul_right BLOCK_LEN after
            rw [Nat.succ_mul] at steps
            omega
        rw [Patch.window_splice_apart fits apart]
        exact holds
  assembled := filling.assembled.snoc fun q buf absurd => (nomatch absurd)

theorem FetchDeed.filling (sizes : ∀ p len, Sized t p len → len ≤ 65535 * BLOCK_LEN)
    (deed : FetchDeed (Sized t) maxFails w marks v) (kept : ∀ p b, Mark.lost p b ∉ marks) (filling : Filling t log w) :
    Filling t (log ++ marks) v := by
  have holding := deed.holding (sized_functional t) filling.holding
  cases deed with
  | turn seedIdx =>
    rw [List.append_nil]
    exact ⟨holding, filling.blocks, filling.assembled⟩
  | begin idle size seeds =>
    exact ⟨holding, fun p held b below => absurd below (Nat.not_lt_zero b),
      filling.assembled.snoc fun p buf absurd => (nomatch absurd)⟩
  | @start p len held size room inside id seed =>
    refine ⟨holding, fun q same b below => ?_, filling.assembled.snoc fun p buf absurd => (nomatch absurd)⟩
    rcases Nat.lt_succ_iff_lt_or_eq.mp below with old | rfl
    · refine (filling.blocks q same b old).imp ?_ fun landed => landed.mono _
      rintro ⟨job, flying, at_b⟩
      exact ⟨job, List.mem_append_left _ flying, at_b⟩
    · exact Or.inl ⟨_, List.mem_append_right _ List.mem_cons_self, rfl⟩
  | drop held room reason retryAt =>
    exact ⟨holding, fun p absent => (nomatch absent), filling.assembled.snoc fun p buf absurd => (nomatch absurd)⟩
  | land held due fits mended after =>
    subst after
    rw [List.append_cons]
    exact (filling.land held due fits _).closed sizes held
  | @miss p held background block blen flight due fails v after =>
    cases due with
    | job flying => exact absurd (List.mem_cons_of_mem _ (List.mem_append_left _ List.mem_cons_self)) (kept p _)
    | now size room inside =>
      subst after
      rw [List.append_cons]
      have same : Filling t log { w with seedFails := fails } :=
        ⟨filling.holding.landed (List.Subset.refl _) rfl, filling.blocks, filling.assembled⟩
      have noted : Filling t (log ++ [.fetched false p w.nextBlock none]) { w with seedFails := fails } :=
        same.snoc fun q buf absurd => (nomatch absurd)
      exact noted.closed sizes held
  | @fall p held background block blen flight due retryAt =>
    rw [List.append_cons]
    have assembled : Assembled t (log ++ [.fetched background p block none]) :=
      filling.assembled.snoc fun p buf absurd => (nomatch absurd)
    exact ⟨holding, fun p absent => (nomatch absent), assembled.snoc fun p buf absurd => (nomatch absurd)⟩

end Filling

/-! ### Pieces that get done -/

def Concluded (log : List Mark) : Prop :=
  ∀ before after p blocks, log = before ++ .begun p blocks :: after → ∃ buf, Mark.handed p buf ∈ after

section Advancing
variable {t : Torrent} {maxFails : Nat} {log marks : List Mark} {w v : WebSeedState}

theorem begun_split {before after early late : List Mark} {p q n m : Nat} (last : ∀ q n, Mark.begun q n ∉ after)
    (same : before ++ .begun p n :: after = early ++ .begun q m :: late) :
    (p = q ∧ n = m ∧ late = after) ∨ ∃ rest, before = early ++ .begun q m :: rest ∧ rest ⊆ late := by
  rcases List.append_eq_append_iff.mp same with ⟨between, rfl, tail⟩ | ⟨between, rfl, tail⟩
  · cases between with
    | nil =>
      rw [List.nil_append] at tail
      cases tail
      exact Or.inl ⟨rfl, rfl, rfl⟩
    | cons mark rest =>
      cases tail
      exact absurd (List.mem_append_right _ List.mem_cons_self) (last q m)
  · cases between with
    | nil =>
      rw [List.nil_append] at tail
      cases tail
      exact Or.inl ⟨rfl, rfl, rfl⟩
    | cons mark rest =>
      cases tail
      exact Or.inr ⟨rest, rfl, List.subset_append_left _ _⟩

/-- Fetching without failures: the blocks asked for are in flight or done, and earlier pieces were handed over. -/
structure Advancing (t : Torrent) (log : List Mark) (w : WebSeedState) : Prop where
  holding : Holding (Sized t) w
  unfailed : ∀ f ∈ w.seedFails, f = 0
  incomplete : ∀ p, w.piece = some p → ¬ w.Complete
  settled : w.piece = none → Concluded log
  pending : ∀ p, w.piece = some p → ∃ before after, log = before ++ .begun p w.totalBlocks :: after ∧ Concluded before ∧
    (∀ q n, Mark.begun q n ∉ after) ∧ after.countP Mark.isFetch + w.inFlight.length = w.nextBlock

theorem Advancing.finishes (advancing : Advancing t log w) : Finishes log := by
  intro early late q m split enough
  cases held : w.piece with
  | none => exact advancing.settled held early late q m split
  | some p =>
    obtain ⟨before, after, rfl, settled, last, count⟩ := advancing.pending p held
    rcases begun_split last split with ⟨rfl, rfl, rfl⟩ | ⟨rest, rfl, later⟩
    · -- all blocks fetched and none in flight would make the piece complete
      have asked := advancing.holding.asked
      refine absurd ⟨List.eq_nil_of_length_eq_zero ?_, ?_⟩ (advancing.incomplete p held)
      · omega
      · omega
    · obtain ⟨buf, handed⟩ := settled early rest q m rfl
      exact ⟨buf, later handed⟩

theorem settled_of_handed {before after : List Mark} {p n : Nat} {buf : Bytes} (settled : Concluded before)
    (last : ∀ q n, Mark.begun q n ∉ after) (handed : Mark.handed p buf ∈ after) : Concluded (before ++ .begun p n :: after) := by
  intro early late q m split
  rcases begun_split last split with ⟨rfl, rfl, rfl⟩ | ⟨rest, rfl, later⟩
  · exact ⟨buf, handed⟩
  · obtain ⟨other, there⟩ := settled early rest q m rfl
    exact ⟨other, later there⟩

theorem Advancing.land (advancing : Advancing t log w) {p block blen : Nat} {flight : List WebSeedJob} {body data : Bytes}
    (held : w.piece = some p) (due : Due (Sized t) w p true block blen flight) {fails : List Nat}
    (clean : ∀ f ∈ fails, f = 0) (length : data.length = w.data.length) (v : WebSeedState)
    (after : v = { w with inFlight := flight, data := data, seedFails := fails }) :
    Advancing t (log ++ .fetched true p block (some body) :: v.closeMarks p) v.closed := by
  obtain ⟨before, since, rfl, settled, last, count⟩ := advancing.pending p held
  have holding : Holding (Sized t) v := after ▸ advancing.holding.landed due.subset length
  have fewer : flight.length + 1 = w.inFlight.length := by
    cases due with
    | job flying =>
      have some_flying := List.length_pos_of_mem flying
      rw [List.length_erase_of_mem flying]
      omega
  have closes := holding.closed
  unfold WebSeedState.closed WebSeedState.closeMarks at *
  by_cases complete : v.Complete
  · rw [if_pos complete] at closes
    rw [if_pos complete, if_pos complete]
    refine ⟨closes, fun f absent => (nomatch absent), fun q absent => (nomatch absent), fun _ => ?_, fun q absent => (nomatch absent)⟩
    rw [List.append_assoc, List.cons_append]
    have handed : Mark.handed p v.data ∈ since ++ [.fetched true p block (some body), .handed p v.data] := by simp
    refine settled_of_handed settled ?_ handed
    intro q n member
    rcases List.mem_append.mp member with old | new
    · exact last q n old
    · simp at new
  · rw [if_neg complete, if_neg complete]
    subst after
    refine ⟨holding, clean, fun q same => complete, fun absent => ?_, fun q same => ?_⟩
    · rw [show w.piece = none from absent] at held
      cases held
    · obtain rfl : p = q := Option.some.inj (held.symm.trans same)
      refine ⟨before, since ++ [.fetched true p block (some body)], by simp, settled, ?_, ?_⟩
      · intro q n member
        rcases List.mem_append.mp member with old | new
        · exact last q n old
        · simp at new
      · rw [List.countP_append, List.countP_singleton]
        simp only [Mark.isFetch, if_true]
        omega

end Advancing

def Mark.clean : Mark → Prop
  | .fetched background _ _ body => background = true ∧ body.isSome = true
  | _ => True

def Mark.unlost : Mark → Prop
  | .lost _ _ => False
  | _ => True

def Mark.unstarted : Mark → Prop
  | .started _ _ => False
  | _ => True

section Progress
variable {t : Torrent} {maxFails : Nat} {log marks : List Mark} {w v : WebSeedState}

theorem FetchDeed.advancing (sizes : ∀ p len, Sized t p len → 0 < len ∧ len ≤ 65535 * BLOCK_LEN) (patient : 0 < maxFails)
    (deed : FetchDeed (Sized t) maxFails w marks v) (clean : ∀ m ∈ marks, m.clean) (advancing : Advancing t log w) :
    Advancing t (log ++ marks) v := by
  have holding := deed.holding (sized_functional t) advancing.holding
  cases deed with
  | turn seedIdx =>
    rw [List.append_nil]
    exact ⟨holding, advancing.unfailed, advancing.incomplete, advancing.settled, advancing.pending⟩
  | @begin p len idle size seeds =>
    obtain ⟨positive, small⟩ := sizes p len size
    have some_blocks : 0 < blockCountFor len := lt_blockCountFor small (by omega)
    refine ⟨holding, fun f member => List.eq_of_mem_replicate member, fun q same complete => ?_,
      fun absent => (nomatch absent), ?_⟩
    · exact absurd complete.2 (Nat.not_le_of_lt some_blocks)
    · rintro q ⟨rfl⟩
      refine ⟨log, [], rfl, advancing.settled idle, fun q n absurd => (nomatch absurd), ?_⟩
      rw [advancing.holding.idle idle]
      rfl
  | @start p len held size room inside id seed =>
    refine ⟨holding, advancing.unfailed, fun q same complete => ?_, fun absent => ?_, fun q same => ?_⟩
    · exact absurd complete.1 (List.append_ne_nil_of_right_ne_nil _ (List.cons_ne_nil _ _))
    · rw [show w.piece = none from absent] at held
      cases held
    · obtain ⟨before, after, rfl, settled, last, count⟩ := advancing.pending q same
      refine ⟨before, after ++ [.started p w.nextBlock], by simp, settled, ?_, ?_⟩
      · intro q n member
        rcases List.mem_append.mp member with old | new
        · exact last q n old
        · simp at new
      · rw [List.countP_append, List.countP_singleton, List.length_append, List.length_singleton]
        simp only [Mark.isFetch, Bool.false_eq_true, if_false]
        omega
  | drop held room reason retryAt =>
    exfalso
    rcases reason patient with ⟨f, member, failed⟩ | short
    · exact failed (advancing.unfailed f member)
    · have beyond := short _ (advancing.holding.size _ held)
      rw [advancing.holding.total _ held] at room
      exact absurd (inside_of_lt_blockCountFor room) (Nat.not_lt_of_le beyond)
  | land held due fits mended after =>
    obtain ⟨rfl, -⟩ := clean _ List.mem_cons_self
    exact advancing.land held due (mended advancing.unfailed) (Patch.length_splice fits) _ after
  | miss held due after => exact absurd (clean _ List.mem_cons_self).2 Bool.false_ne_true
  | fall held due retryAt => exact absurd (clean _ List.mem_cons_self).2 Bool.false_ne_true

/-- Blocks fetched in the foreground only: the fetcher never gets past the first one. -/
structure Stuck (log : List Mark) (w : WebSeedState) : Prop where
  flight : w.inFlight = []
  next : w.nextBlock = 0
  unhanded : ∀ p buf, Mark.handed p buf ∉ log

theorem Stuck.closed {sized : Nat → Nat → Prop} (stuck : Stuck log w) {p block blen : Nat} {background : Bool} {flight : List WebSeedJob}
    (due : Due sized w p background block blen flight) {data : Bytes} {fails : List Nat} (v : WebSeedState)
    (after : v = { w with inFlight := flight, data := data, seedFails := fails }) :
    v.closeMarks p = [] ∧ Stuck log v.closed := by
  cases due with
  | job flying =>
    rw [stuck.flight] at flying
    cases flying
  | now size room inside =>
    have incomplete : ¬ v.Complete := by
      rintro ⟨-, asked⟩
      subst after
      exact absurd asked (Nat.not_le_of_lt room)
    rw [WebSeedState.closeMarks, WebSeedState.closed, if_neg incomplete, if_neg incomplete]
    subst after
    exact ⟨rfl, stuck.flight, stuck.next, stuck.unhanded⟩

theorem Stuck.more (stuck : Stuck log w) {more : List Mark} (unhanded : ∀ p buf, Mark.handed p buf ∉ more) : Stuck (log ++ more) w := by
  refine ⟨stuck.flight, stuck.next, fun p buf member => ?_⟩
  rcases List.mem_append.mp member with old | new
  · exact stuck.unhanded p buf old
  · exact unhanded p buf new

theorem FetchDeed.stuck {sized : Nat → Nat → Prop} (deed : FetchDeed sized maxFails w marks v)
    (foreground : ∀ p b, Mark.started p b ∉ marks) (stuck : Stuck log w) : Stuck (log ++ marks) v := by
  cases deed with
  | turn seedIdx => exact ⟨stuck.flight, stuck.next, (stuck.more (by simp)).unhanded⟩
  | begin idle size seeds => exact ⟨stuck.flight, rfl, (stuck.more (by simp)).unhanded⟩
  | start held size room inside id seed => exact absurd List.mem_cons_self (foreground _ _)
  | drop held room reason retryAt => exact ⟨rfl, rfl, (stuck.more (by simp)).unhanded⟩
  | land held due fits mended after =>
    obtain ⟨unhanded, still⟩ := stuck.closed due _ after
    rw [unhanded]
    exact still.more (by simp)
  | @miss _ _ background _ _ _ due _ _ after =>
    obtain ⟨unhanded, still⟩ := stuck.closed due _ after
    rw [unhanded]
    exact still.more (by cases background <;> simp)
  | fall held due retryAt => exact ⟨rfl, rfl, (stuck.more (by simp)).unhanded⟩

end Progress

/-! ### The marks of an event -/

variable {s : TorrentSession}

theorem copyBlock_whole {block : Nat} {body : Bytes} (fits : block * BLOCK_LEN + body.length ≤ s.webseed.data.length) :
    ∃ u, copyBlock block body.length (.ok ()) body s = (true, u) := ⟨_, if_pos ⟨rfl, rfl, fits⟩⟩

variable {m : Mark}

theorem mem_applyMarks {background : Bool} {seed block blen : Nat} {got : Result Unit} {body : Bytes}
    (member : m ∈ applyMarks background seed block blen got body s) :
    ∃ p, (∃ found, m = .fetched background p block found) ∨ m = .dropped p ∨ (background = true ∧ m = .lost p block) ∨
      ∃ buf, m = .handed p buf := by
  cases held : s.webseed.piece with
  | none =>
    rw [applyMarks, held] at member
    cases member
  | some p =>
    refine ⟨p, ?_⟩
    obtain ⟨ok, u, copied⟩ : ∃ ok u, copyBlock block blen got body s = (ok, u) := ⟨_, _, rfl⟩
    rw [applyMarks_eq held seed block blen got body background copied] at member
    rcases List.mem_cons.mp member with rfl | later
    · exact Or.inl ⟨_, rfl⟩
    · split at later
      · exact Or.inr (Or.inl (List.mem_singleton.mp later))
      · rcases List.mem_append.mp later with lost | closing
        · split at lost
          next failed =>
            exact Or.inr (Or.inr (Or.inl ⟨Bool.and_elim_left failed, List.mem_singleton.mp lost⟩))
          next => cases lost
        · rw [WebSeedState.closeMarks] at closing
          split at closing
          · exact Or.inr (Or.inr (Or.inr ⟨_, List.mem_singleton.mp closing⟩))
          · cases closing

variable {id : Nat} {result : Result Bytes} {sized : Nat → Nat → Prop}

theorem mem_jobMarks_delivered (holding : Holding sized s.webseed)
    (delivered : ∀ job, s.webseed.inFlight.find? (fun j => decide (j.jobId = id)) = some job →
      (result.toOption.getD []).length = job.len) (member : m ∈ jobMarks id result s) :
    ∃ p, (∃ block body, m = .fetched true p block (some body)) ∨ ∃ buf, m = .handed p buf := by
  unfold jobMarks at member
  cases found : s.webseed.inFlight.find? (fun j => decide (j.jobId = id)) with
  | none =>
    rw [found] at member
    cases member
  | some job =>
    rw [found] at member
    dsimp only at member
    have length := delivered job found
    generalize result.toOption.getD [] = body at member length
    rw [if_pos length] at member
    have fits : job.block * BLOCK_LEN + body.length ≤ s.webseed.data.length := by
      obtain ⟨-, inside, slot⟩ := holding.jobs job (List.mem_of_find?_eq_some found)
      rw [length, slot, slotLen]
      omega
    cases held : s.webseed.piece with
    | none =>
      rw [applyMarks] at member
      rw [show ({ s with webseed := { s.webseed with inFlight := s.webseed.inFlight.erase job } } : TorrentSession).webseed.piece =
        none from held] at member
      cases member
    | some p =>
      refine ⟨p, ?_⟩
      rw [← length] at member
      obtain ⟨u, copied⟩ := copyBlock_whole (s := { s with webseed := { s.webseed with inFlight := s.webseed.inFlight.erase job } }) fits
      rw [applyMarks_eq (by exact held) job.seed job.block body.length (.ok ()) body true copied, WebSeedState.closeMarks] at member
      simp only [Bool.not_true, Bool.false_and, Bool.and_false, Bool.false_eq_true, if_false, if_true, List.nil_append] at member
      rcases List.mem_cons.mp member with rfl | later
      · exact Or.inl ⟨_, _, rfl⟩
      · split_ifs at later
        · exact Or.inr ⟨_, List.mem_singleton.mp later⟩
        · cases later

theorem lost_jobMarks (holding : Holding sized s.webseed)
    (spared : ∀ job, s.webseed.inFlight.find? (fun j => decide (j.jobId = id)) = some job →
      (result.toOption.getD []).length = job.len ∨
        ∀ f ∈ s.webseed.seedFails.modify job.seed (fun f => Leech.satAdd32 f 1), s.cfg.webseed.maxFails ≤ f) (p b : Nat) :
    Mark.lost p b ∉ jobMarks id result s := by
  intro member
  cases found : s.webseed.inFlight.find? (fun j => decide (j.jobId = id)) with
  | none =>
    rw [jobMarks, found] at member
    cases member
  | some job =>
    rcases spared job found with whole | hopeless
    · have delivered : ∀ other, s.webseed.inFlight.find? (fun j => decide (j.jobId = id)) = some other →
          (result.toOption.getD []).length = other.len := by
        intro other same
        rw [found] at same
        exact Option.some.inj same ▸ whole
      obtain ⟨q, ⟨_, _, absurd⟩ | ⟨_, absurd⟩⟩ := mem_jobMarks_delivered holding delivered member
      · cases absurd
      · cases absurd
    · rw [jobMarks, found] at member
      dsimp only at member
      generalize result.toOption.getD [] = body at member
      generalize shortened : ({ s with webseed := { s.webseed with inFlight := s.webseed.inFlight.erase job } } : TorrentSession) = u
        at member
      have fails : u.webseed.seedFails = s.webseed.seedFails := by rw [← shortened]
      have cfg : u.cfg = s.cfg := by rw [← shortened]
      cases held : u.webseed.piece with
      | none =>
        rw [applyMarks, held] at member
        cases member
      | some q =>
        rcases copyBlock_cases job.block job.len (if body.length = job.len then .ok () else .error .protocol) body u with
          ⟨r, copied, -⟩ | copied
        · rw [applyMarks_eq held job.seed job.block job.len _ body true copied, WebSeedState.closeMarks] at member
          simp only [Bool.not_true, Bool.false_and, Bool.and_false, Bool.false_eq_true, if_false, List.nil_append] at member
          split_ifs at member <;> simp at member
        · rw [applyMarks_eq held job.seed job.block job.len _ body true copied] at member
          have failed : allFailed (counted job.seed false u) = true := by
            refine List.all_eq_true.mpr fun f there => decide_eq_true ?_
            show u.cfg.webseed.maxFails ≤ f
            rw [cfg]
            refine hopeless f ?_
            rw [← fails]
            exact there
          rw [failed] at member
          simp at member

theorem unstarted_jobMarks (member : m ∈ jobMarks id result s) : m.unstarted := by
  unfold jobMarks at member
  split at member
  · cases member
  · obtain ⟨_, ⟨_, rfl⟩ | rfl | ⟨-, rfl⟩ | ⟨_, rfl⟩⟩ := mem_applyMarks member <;> trivial

section Marks
variable {H : Type} {host : Host H}

theorem mem_loopMarks {t : Torrent} {piece rounds : Nat} {w : World H} {m : Mark} (member : m ∈ loopMarks host t piece rounds w) :
    m = .dropped piece ∨
    ((∃ b, m = .started piece b) ∧ w.sess.cfg.proxied = false ∧
      ∃ h url first last ms, (host.httpGetRangeAsync h url first last ms).1 ≠ 0) ∨
    ((∃ seed b len got body s, m ∈ applyMarks false seed b len got body s) ∧
      (w.sess.cfg.proxied = true ∨ ∃ h url first last ms, (host.httpGetRangeAsync h url first last ms).1 = 0)) := by
  induction rounds generalizing w with
  | zero => cases member
  | succ rounds ih =>
    rw [loopMarks] at member
    dsimp only at member
    split at member
    · cases member
    · generalize pickSeed w.sess.webSeeds.length w.sess.webseed.seedFails w.sess.cfg.webseed.maxFails
        w.sess.webSeeds.length w.sess.webseed.seedIdx = picked at member
      obtain ⟨seed, cursor⟩ := picked
      dsimp only at member
      have cfg : (w.map fun s => { s with webseed := { s.webseed with seedIdx := cursor } }).sess.cfg = w.sess.cfg := rfl
      rw [← cfg]
      generalize (w.map fun s => { s with webseed := { s.webseed with seedIdx := cursor } }) = v at member ⊢
      cases seed with
      | none => exact Or.inl (List.mem_singleton.mp member)
      | some seed =>
        dsimp only at member
        generalize webseedBlock v.sess t piece w.sess.webseed.nextBlock seed = chosen at member
        cases chosen with
        | none => exact Or.inl (List.mem_singleton.mp member)
        | some found =>
          obtain ⟨url, first, last, len⟩ := found
          dsimp only at member
          rcases Bool.eq_false_or_eq_true v.sess.cfg.proxied with proxied | proxied
          · rw [proxied] at member
            exact Or.inr (Or.inr ⟨⟨_, _, _, _, _, _, member⟩, Or.inl proxied⟩)
          · rw [proxied] at member
            simp only [Bool.false_eq_true, if_false] at member
            split at member
            next taken =>
              rcases List.mem_cons.mp member with rfl | later
              · exact Or.inr (Or.inl ⟨⟨_, rfl⟩, proxied, _, _, _, _, _, taken⟩)
              · have rest := ih later
                exact rest
            next refused =>
              exact Or.inr (Or.inr ⟨⟨_, _, _, _, _, _, member⟩, Or.inr ⟨_, _, _, _, _, not_not.mp refused⟩⟩)

theorem mem_driveMarks {env : Env} {w : World H} {m : Mark} (member : m ∈ driveMarks host env w) :
    (∃ p blocks, m = .begun p blocks) ∨ ∃ t piece rounds v, m ∈ loopMarks host t piece rounds v ∧ v.sess.cfg = w.sess.cfg := by
  unfold driveMarks at member
  split at member
  · cases member
  next t torrent =>
    dsimp only at member
    split at member
    · cases member
    · rcases List.mem_append.mp member with begun | looped
      · unfold beginMarks at begun
        split at begun
        · cases begun
        · split at begun
          · cases begun
          · exact Or.inl ⟨_, _, List.mem_singleton.mp begun⟩
      · split at looped
        · cases looped
        · exact Or.inr ⟨t, _, _, _, looped, (@fetching_beginWebseed 0 env t w.sess).2.cfg⟩

end Marks

/-! ### Along a run -/

theorem Fetching.invariant {maxFails : Nat} {P : List Mark → WebSeedState → Prop} {allowed : Mark → Prop}
    (each : ∀ {log marks : List Mark} {w v : WebSeedState}, FetchDeed sized maxFails w marks v → (∀ m ∈ marks, allowed m) →
      P log w → P (log ++ marks) v)
    {log marks : List Mark} {w v : WebSeedState} (fetching : Fetching sized maxFails w marks v) (fair : ∀ m ∈ marks, allowed m)
    (start : P log w) : P (log ++ marks) v := by
  induction fetching generalizing log with
  | done w =>
    rw [List.append_nil]
    exact start
  | next deed rest ih =>
    rw [← List.append_assoc]
    exact ih (fun m member => fair m (List.mem_append_right _ member))
      (each deed (fun m member => fair m (List.mem_append_left _ member)) start)

section Along
variable {H : Type} {host : Host H} {t : Torrent} {w : World H}

theorem fetching_mirrorStep {e : MirrorEvent H} (proper : Proper t e w) (known : ∀ u, w.sess.torrent = some u → u = t)
    (idle : w.sess.webseed.piece = none → w.sess.webseed.inFlight = []) :
    Fetching (Sized t) w.sess.cfg.webseed.maxFails w.sess.webseed (eventMarks host e w) (mirrorStep host e w).sess.webseed ∧
      (mirrorStep host e w).sess.cfg = w.sess.cfg ∧ ∀ u, (mirrorStep host e w).sess.torrent = some u → u = t := by
  cases e with
  | drive env =>
    obtain ⟨fetching, outside⟩ := fetching_driveWebseed host env known rfl
    refine ⟨fetching, outside.cfg, fun u found => known u ?_⟩
    rw [← outside.torrent]
    exact found
  | done id result now =>
    obtain ⟨fetching, outside⟩ := fetching_onRangeJobDone idle id result now
    refine ⟨fetching, outside.cfg, fun u found => known u ?_⟩
    rw [← outside.torrent]
    exact found
  | aside v =>
    obtain ⟨same, cfg, torrent⟩ := proper
    refine ⟨?_, cfg, torrent⟩
    show Fetching _ _ _ [] v.sess.webseed
    rw [same]
    exact .done _

theorem mirrorRun_invariant {cfg : SessionConfig} {P : List Mark → WebSeedState → Prop} {allowed : Mark → Prop}
    {condition : MirrorEvent H → World H → Prop}
    (each : ∀ {log marks : List Mark} {w v : WebSeedState}, FetchDeed (Sized t) cfg.webseed.maxFails w marks v →
      (∀ m ∈ marks, allowed m) → P log w → P (log ++ marks) v)
    (held : ∀ {log : List Mark} {w : WebSeedState}, P log w → Holding (Sized t) w)
    (marked : ∀ {e : MirrorEvent H} {w : World H}, Holding (Sized t) w.sess.webseed → w.sess.cfg = cfg → condition e w →
      ∀ m ∈ eventMarks host e w, allowed m)
    {events : List (MirrorEvent H)} {log : List Mark} (proper : Throughout host (Proper t) events w)
    (through : Throughout host condition events w) (known : ∀ u, w.sess.torrent = some u → u = t) (same : w.sess.cfg = cfg)
    (start : P log w.sess.webseed) :
    P (log ++ mirrorLog host events w) (mirrorRun host events w).sess.webseed ∧ (mirrorRun host events w).sess.cfg = cfg := by
  induction events generalizing log w with
  | nil =>
    rw [mirrorLog, List.append_nil]
    exact ⟨start, same⟩
  | cons e tail ih =>
    obtain ⟨fetching, config, torrent⟩ := @fetching_mirrorStep H host t w e proper.1 known (held start).idle
    rw [same] at fetching
    rw [mirrorLog, ← List.append_assoc]
    exact ih proper.2 through.2 torrent (config.trans same)
      (fetching.invariant each (marked (held start) same through.1) start)

theorem throughout_true (events : List (MirrorEvent H)) (w : World H) : Throughout host (fun _ _ => True) events w := by
  induction events generalizing w with
  | nil => exact trivial
  | cons e tail ih => exact ⟨trivial, ih _⟩

theorem flying_fetchLoop (env : Env) (background : ∀ h url first last ms, (host.httpGetRangeAsync h url first last ms).1 ≠ 0)
    (piece rounds : Nat) {w : World H} (direct : w.sess.cfg.proxied = false)
    (work : w.sess.webseed.inFlight ≠ [] ∨ 0 < rounds ∧ w.sess.webseed.nextBlock < w.sess.webseed.totalBlocks) :
    (fetchLoop host env t piece rounds w).sess.webseed.piece = none ∨
      (fetchLoop host env t piece rounds w).sess.webseed.inFlight ≠ [] := by
  induction rounds generalizing w with
  | zero => exact Or.inr (work.resolve_right fun absurd => Nat.lt_irrefl 0 absurd.1)
  | succ rounds ih =>
    rw [fetchLoop]
    dsimp only
    split
    next full =>
      rcases work with flying | ⟨-, room⟩
      · exact Or.inr flying
      · refine Or.inr (List.ne_nil_of_length_pos ?_)
        unfold MAX_INFLIGHT at full
        omega
    next room =>
      generalize pickSeed w.sess.webSeeds.length w.sess.webseed.seedFails w.sess.cfg.webseed.maxFails
        w.sess.webSeeds.length w.sess.webseed.seedIdx = picked
      obtain ⟨seed, cursor⟩ := picked
      dsimp only
      have cfg : (w.map fun s => { s with webseed := { s.webseed with seedIdx := cursor } }).sess.cfg = w.sess.cfg := rfl
      rw [← cfg] at direct
      generalize (w.map fun s => { s with webseed := { s.webseed with seedIdx := cursor } }) = v at direct ⊢
      cases seed with
      | none => exact Or.inl rfl
      | some seed =>
        dsimp only
        generalize webseedBlock v.sess t piece w.sess.webseed.nextBlock seed = chosen
        cases chosen with
        | none => exact Or.inl rfl
        | some found =>
          obtain ⟨url, first, last, len⟩ := found
          dsimp only
          rw [direct]
          simp only [Bool.false_eq_true, if_false]
          rw [if_pos (background _ _ _ _ _)]
          have more : ∀ job : WebSeedJob, v.sess.webseed.inFlight ++ [job] ≠ [] := fun job =>
            List.append_ne_nil_of_right_ne_nil _ (List.cons_ne_nil _ _)
          exact ih direct (Or.inl (more _))

end Along

/-! ### Pieces from mirrors -/

/-- The session wants pieces from its mirrors. -/
structure Ready {H : Type} (t : Torrent) (w : World H) : Prop where
  torrent : w.sess.torrent = some t
  enabled : w.sess.cfg.webseed.enabled = true
  mirrors : w.sess.webSeeds ≠ []
  downloading : w.sess.status = .downloading

section Results
variable {H : Type} {host : Host H} {t : Torrent} {w : World H}

theorem flying_driveWebseed (env : Env) {log : List Mark}
    (sizes : ∀ p len, Sized t p len → 0 < len ∧ len ≤ 65535 * BLOCK_LEN) (patient : 0 < w.sess.cfg.webseed.maxFails)
    (background : ∀ h url first last ms, (host.httpGetRangeAsync h url first last ms).1 ≠ 0)
    (direct : w.sess.cfg.proxied = false) (advancing : Advancing t log w.sess.webseed) (ready : Ready t w) :
    (driveWebseed host env w).sess.webseed.piece = none ∨ (driveWebseed host env w).sess.webseed.inFlight ≠ [] := by
  have open_ : ¬ (!w.sess.cfg.webseed.enabled || w.sess.webSeeds.isEmpty || decide (w.sess.status ≠ .downloading)) = true := by
    rw [ready.enabled, ready.downloading, List.isEmpty_eq_false_iff.mpr ready.mirrors]
    decide
  unfold driveWebseed
  rw [ready.torrent]
  dsimp only
  rw [if_neg open_]
  obtain ⟨fetching, outside⟩ := @fetching_beginWebseed w.sess.cfg.webseed.maxFails env t w.sess
  have clean : ∀ m ∈ beginMarks env t w.sess, m.clean := by
    intro m member
    unfold beginMarks at member
    split at member
    · cases member
    · split at member
      · cases member
      · obtain rfl := List.mem_singleton.mp member
        trivial
  have begun := fetching.invariant (fun deed allowed => deed.advancing sizes patient allowed) clean advancing
  cases held : (w.map (beginWebseed env t)).sess.webseed.piece with
  | none => exact Or.inl held
  | some piece =>
    dsimp only
    refine flying_fetchLoop env background piece _ ?_ ?_
    · show (beginWebseed env t w.sess).cfg.proxied = false
      rw [outside.cfg]
      exact direct
    · by_cases flying : (w.map (beginWebseed env t)).sess.webseed.inFlight = []
      · refine Or.inr ⟨Nat.succ_pos _, Nat.lt_of_not_le fun asked => begun.incomplete piece held ⟨flying, asked⟩⟩
      · exact Or.inl flying

theorem advancing_default : Advancing t [] WebSeedState.default :=
  ⟨holding_idle rfl rfl (Nat.le_refl 0), fun f absent => (nomatch absent), fun p absent => (nomatch absent),
    fun _ before after p blocks split => absurd split (by simp), fun p absent => (nomatch absent)⟩

theorem filling_default : Filling t [] WebSeedState.default :=
  ⟨holding_idle rfl rfl (Nat.le_refl 0), fun p absent => (nomatch absent), fun before after p buf split => absurd split (by simp)⟩

theorem stuck_default : Stuck [] WebSeedState.default := ⟨rfl, rfl, fun _ _ absent => (nomatch absent)⟩

theorem unlost_eventMarks {e : MirrorEvent H} (holding : Holding (Sized t) w.sess.webseed) (spared : Spared e w) :
    ∀ m ∈ eventMarks host e w, m.unlost := by
  intro m member
  cases e with
  | drive env =>
    rcases mem_driveMarks member with ⟨_, _, rfl⟩ | ⟨_, _, _, _, looped, -⟩
    · trivial
    · rcases mem_loopMarks looped with rfl | ⟨⟨_, rfl⟩, -⟩ | ⟨⟨_, _, _, _, _, _, applied⟩, -⟩
      · trivial
      · trivial
      · obtain ⟨_, ⟨_, rfl⟩ | rfl | ⟨absurd, -⟩ | ⟨_, rfl⟩⟩ := mem_applyMarks applied <;> trivial
  | done id result now =>
    cases m with
    | lost p b => exact lost_jobMarks holding spared p b member
    | _ => trivial
  | aside u => cases member

theorem clean_eventMarks {e : MirrorEvent H} (holding : Holding (Sized t) w.sess.webseed) (direct : w.sess.cfg.proxied = false)
    (background : ∀ h url first last ms, (host.httpGetRangeAsync h url first last ms).1 ≠ 0) (delivered : Delivered e w) :
    ∀ m ∈ eventMarks host e w, m.clean := by
  intro m member
  cases e with
  | drive env =>
    rcases mem_driveMarks member with ⟨_, _, rfl⟩ | ⟨_, _, _, _, looped, same⟩
    · trivial
    · rcases mem_loopMarks looped with rfl | ⟨⟨_, rfl⟩, -⟩ | ⟨-, proxied | ⟨_, _, _, _, _, refused⟩⟩
      · trivial
      · trivial
      · rw [same, direct] at proxied
        cases proxied
      · exact absurd refused (background _ _ _ _ _)
  | done id result now =>
    obtain ⟨_, ⟨_, _, rfl⟩ | ⟨_, rfl⟩⟩ := mem_jobMarks_delivered holding delivered member
    · exact ⟨rfl, rfl⟩
    · trivial
  | aside u => cases member

theorem unstarted_eventMarks {e : MirrorEvent H}
    (foreground : w.sess.cfg.proxied = true ∨ ∀ h url first last ms, (host.httpGetRangeAsync h url first last ms).1 = 0) :
    ∀ m ∈ eventMarks host e w, m.unstarted := by
  intro m member
  cases e with
  | drive env =>
    rcases mem_driveMarks member with ⟨_, _, rfl⟩ | ⟨_, _, _, _, looped, same⟩
    · trivial
    · rcases mem_loopMarks looped with rfl | ⟨-, direct, _, _, _, _, _, taken⟩ | ⟨⟨_, _, _, _, _, _, applied⟩, -⟩
      · trivial
      · rcases foreground with proxied | refused
        · rw [same, proxied] at direct
          cases direct
        · exact absurd (refused _ _ _ _ _) taken
      · obtain ⟨_, ⟨_, rfl⟩ | rfl | ⟨absurd, -⟩ | ⟨_, rfl⟩⟩ := mem_applyMarks applied <;> trivial
  | done id result now => exact unstarted_jobMarks member
  | aside u => cases member

/-- As long as no fetch is lost in the background, what is handed over was fetched; when every fetch is made in the
background and brings its block, a piece is done after as many fetches as it has blocks, and after every tick one of
them is in flight; and nothing is ever handed over when fetches are made in the foreground. -/
theorem web_pieces_fetched (sizes : ∀ p len, Sized t p len → 0 < len ∧ len ≤ 65535 * BLOCK_LEN)
    {events : List (MirrorEvent H)} (fresh : w.sess.webseed = .default) (known : ∀ u, w.sess.torrent = some u → u = t)
    (proper : Throughout host (Proper t) events w) :
    (Throughout host Spared events w → Assembled t (mirrorLog host events w)) ∧
    (Throughout host Delivered events w → 0 < w.sess.cfg.webseed.maxFails → w.sess.cfg.proxied = false →
      (∀ h url first last ms, (host.httpGetRangeAsync h url first last ms).1 ≠ 0) →
      Finishes (mirrorLog host events w) ∧ ∀ env, Ready t (mirrorRun host events w) →
        (driveWebseed host env (mirrorRun host events w)).sess.webseed.piece = none ∨
          (driveWebseed host env (mirrorRun host events w)).sess.webseed.inFlight ≠ []) ∧
    (w.sess.cfg.proxied = true ∨ (∀ h url first last ms, (host.httpGetRangeAsync h url first last ms).1 = 0) →
      ∀ p buf, Mark.handed p buf ∉ mirrorLog host events w) := by
  refine ⟨fun spared => ?_, fun delivered patient direct background => ?_, fun foreground => ?_⟩
  · have kept : Filling t ([] ++ mirrorLog host events w) (mirrorRun host events w).sess.webseed ∧
        (mirrorRun host events w).sess.cfg = w.sess.cfg := by
      refine mirrorRun_invariant ?_ (fun filling => filling.holding) (fun holding _ => unlost_eventMarks holding)
        proper spared known rfl (fresh ▸ filling_default)
      intro log marks u v deed unlost filling
      exact deed.filling (fun p len size => (sizes p len size).2) (fun p b member => unlost _ member) filling
    exact kept.1.assembled
  · have kept : Advancing t ([] ++ mirrorLog host events w) (mirrorRun host events w).sess.webseed ∧
        (mirrorRun host events w).sess.cfg = w.sess.cfg := by
      refine mirrorRun_invariant ?_ (fun advancing => advancing.holding)
        (fun holding same => clean_eventMarks holding (same ▸ direct) background) proper delivered known rfl
        (fresh ▸ advancing_default)
      intro log marks u v deed clean advancing
      exact deed.advancing sizes patient clean advancing
    obtain ⟨advancing, cfg⟩ := kept
    refine ⟨advancing.finishes, fun env ready => ?_⟩
    exact flying_driveWebseed env sizes (cfg ▸ patient) background (cfg ▸ direct) advancing ready
  · have kept : (Holding (Sized t) (mirrorRun host events w).sess.webseed ∧
        Stuck ([] ++ mirrorLog host events w) (mirrorRun host events w).sess.webseed) ∧
        (mirrorRun host events w).sess.cfg = w.sess.cfg := by
      refine @mirrorRun_invariant _ _ _ _ _ (fun log v => Holding (Sized t) v ∧ Stuck log v) Mark.unstarted (fun _ _ => True)
        ?_ (fun both => both.1) (fun _ same _ => unstarted_eventMarks (same ▸ foreground)) _ _ proper (throughout_true events w)
        known rfl ?_
      · intro log marks u v deed unstarted both
        exact ⟨deed.holding (sized_functional t) both.1, deed.stuck (fun p b member => unstarted _ member) both.2⟩
      · rw [fresh]
        exact ⟨holding_idle rfl rfl (Nat.le_refl 0), stuck_default⟩
    exact kept.1.2.unhanded

end Results

/-! ### A mirror of one piece -/

namespace Sample

def mirrored : Torrent := { torrent with webSeeds := [ascii "http://m/a"] }

def backgroundHost : Host Unit := { host with httpGetRangeAsync := fun _ _ _ _ _ => (7, ()) }

def foregroundHost : Host Unit := { host with httpGetRange := fun _ _ _ _ _ _ => ((.ok (), [1, 2, 3]), ()) }

def mirroring : World Unit := (start host env ⟨fromTorrent mirrored .default 0, io, []⟩).2

def good : List (MirrorEvent Unit) := [.drive env, .done 7 (.ok [1, 2, 3]) 5]

def bad : List (MirrorEvent Unit) := [.drive env, .done 7 (.error .io) 5]

theorem sized_mirrored : ∀ p len, Sized mirrored p len → 0 < len ∧ len ≤ 65535 * BLOCK_LEN := by
  rintro p len ⟨info, known, rfl⟩
  cases p with
  | zero =>
    have first : mirrored.pieceInfo 0 = .ok ⟨0, 0, 3⟩ := by decide
    rw [first] at known
    cases known
    decide
  | succ p =>
    have count : divCeil mirrored.totalSize mirrored.pieceLength = 1 := by decide
    unfold Torrent.pieceInfo at known
    rw [show mirrored.kind = .v1 from rfl] at known
    dsimp only at known
    rw [count, if_pos (Nat.le_add_left 1 p)] at known
    cases known

theorem webseed_mirroring : mirroring.sess.webseed = .default ∧ (∀ u, mirroring.sess.torrent = some u → u = mirrored) ∧
    mirroring.sess.cfg.webseed.maxFails = 5 ∧ mirroring.sess.cfg.proxied = false := by
  refine ⟨by decide, ?_, by decide, by decide⟩
  have torrent : mirroring.sess.torrent = some mirrored := by decide
  intro u found
  rw [torrent] at found
  exact (Option.some.inj found).symm

end Sample

theorem web_pieces_fetched_good : Assembled Sample.mirrored (mirrorLog Sample.backgroundHost Sample.good Sample.mirroring) ∧
    Finishes (mirrorLog Sample.backgroundHost Sample.good Sample.mirroring) ∧
    mirrorLog Sample.backgroundHost Sample.good Sample.mirroring =
      [.begun 0 1, .started 0 0, .fetched true 0 0 (some [1, 2, 3]), .handed 0 [1, 2, 3]] := by
  obtain ⟨fresh, known, patient, direct⟩ := Sample.webseed_mirroring
  have delivered : Throughout Sample.backgroundHost Delivered Sample.good Sample.mirroring := by
    refine ⟨trivial, ?_, trivial⟩
    intro job found
    have flight : (mirrorStep Sample.backgroundHost (.drive Sample.env) Sample.mirroring).sess.webseed.inFlight = [⟨7, 0, 0, 3, 0⟩] := by
      decide +kernel
    rw [flight] at found
    cases found
    rfl
  have spared : Throughout Sample.backgroundHost Spared Sample.good Sample.mirroring :=
    ⟨trivial, fun job found => Or.inl (delivered.2.1 job found), trivial⟩
  have background : ∀ h url first last ms, (Sample.backgroundHost.httpGetRangeAsync h url first last ms).1 ≠ 0 :=
    fun _ _ _ _ _ => Nat.succ_ne_zero 6
  have proper : Throughout Sample.backgroundHost (Proper Sample.mirrored) Sample.good Sample.mirroring := ⟨trivial, trivial, trivial⟩
  obtain ⟨assembled, finishes, -⟩ := web_pieces_fetched Sample.sized_mirrored fresh known proper
  exact ⟨assembled spared, (finishes delivered (by rw [patient]; decide) direct background).1, by decide⟩

/-- A fetch that fails in the background leaves a hole in the piece; fetches in the foreground never complete one. -/
theorem web_piece_handed_unfetched :
    ¬ Assembled Sample.mirrored (mirrorLog Sample.backgroundHost Sample.bad Sample.mirroring) ∧
    ¬ Finishes (mirrorLog Sample.foregroundHost [.drive Sample.env] Sample.mirroring) := by
  constructor
  · intro assembled
    have log : mirrorLog Sample.backgroundHost Sample.bad Sample.mirroring =
        [.begun 0 1, .started 0 0, .fetched true 0 0 none, .lost 0 0] ++ .handed 0 [0, 0, 0] :: [] := by decide
    obtain ⟨-, blocks⟩ := assembled _ _ _ _ log
    obtain ⟨_, _, noted, -⟩ := blocks 0 (by decide)
    simp at noted
  · intro finishes
    have log : mirrorLog Sample.foregroundHost [.drive Sample.env] Sample.mirroring =
        [] ++ .begun 0 1 :: [.fetched false 0 0 (some [1, 2, 3])] := by decide
    obtain ⟨_, handed⟩ := finishes _ _ _ _ log (by decide)
    simp at handed

/-- Between two hand-overs to the engine, what waits for the verifier are the pieces that the log says were handed over, with
their buffers. -/
theorem pending_of_log {H : Type} (host : Host H) {events : List (MirrorEvent H)} {w : World H}
    (aside : Throughout host (fun e w => ∀ v, e = .aside v → v.sess.pendingVerify = w.sess.pendingVerify) events w) :
    (mirrorRun host events w).sess.pendingVerify = awaiting (mirrorLog host events w) w.sess.pendingVerify := by
  induction events generalizing w with
  | nil => rfl
  | cons e rest ih =>
    obtain ⟨here, later⟩ := aside
    have step : (mirrorStep host e w).sess.pendingVerify = awaiting (eventMarks host e w) w.sess.pendingVerify := by
      cases e with
      | drive env => exact pendingVerify_driveWebseed host env w
      | done id result now => exact pendingVerify_onRangeJobDone id result now w.sess
      | aside v => exact here v rfl
    rw [mirrorRun, mirrorLog, ih later, awaiting_append, step]

theorem pending_of_log_good : (mirrorRun Sample.backgroundHost Sample.good Sample.mirroring).sess.pendingVerify =
    awaiting (mirrorLog Sample.backgroundHost Sample.good Sample.mirroring) Sample.mirroring.sess.pendingVerify :=
  pending_of_log Sample.backgroundHost ⟨by simp, by simp, trivial⟩

end TypeBit.Session
