import TypeBit.Engine.Holding

/-! Whether the transport of a peer hears that its session let it go: what a run of the engine releases, and the uTP
socket that stays open when its peer is dropped, with nothing that refers to it any more. -/

namespace TypeBit.Links
open Metainfo Wire Utp RateLimit OrdMap UtpManager

variable {H : Type} {host : UdpHost H} {l l' : Links H}

section Tables
variable {gone : List ConnId}

/-! ### Tearing connections down -/

variable {conn : ConnId} {start : Links H}

theorem Released.later (released : Released conn start l)
    (longer : start.tcpClosed <+: l.tcpClosed) (closed : l.tcpClosed <+: l'.tcpClosed) (utp : l'.utp = l.utp) :
    Released conn start l' := by
  unfold Released at released ⊢
  split
  next flag =>
    rw [if_pos flag] at released
    rw [utp]
    exact released
  next tcp =>
    rw [if_neg tcp] at released
    obtain ⟨more, same⟩ := closed
    rw [← same, List.drop_append_of_le_length longer.length_le]
    exact List.mem_append_left _ released

theorem Released.earlier (released : Released conn l l')
    (longer : start.tcpClosed <+: l.tcpClosed) : Released conn start l' := by
  unfold Released at released ⊢
  split
  next flag =>
    rw [if_pos flag] at released
    exact released
  next tcp =>
    rw [if_neg tcp] at released
    exact List.drop_subset_drop_left _ longer.length_le released

/-- Peers go, each released; the only ones that come are on connections that were just dialed. -/
structure Sweeps (dialed : ConnId → Prop) (l l' : Links H) : Prop where
  utp : l'.utp = l.utp
  listed : ∀ hash c, Listed hash c l' → Listed hash c l ∨ dialed c
  waiting : ∀ c ∈ l'.inbound.keys, c ∈ l.inbound.keys
  closed : l.tcpClosed <+: l'.tcpClosed
  releases : Releases l l'

theorem sweeps_still {dialed : ConnId → Prop} (utp : l'.utp = l.utp) (sessions : l'.sessions = l.sessions)
    (waiting : ∀ c ∈ l'.inbound.keys, c ∈ l.inbound.keys) (closed : l'.tcpClosed = l.tcpClosed) : Sweeps dialed l l' := by
  have same : ∀ hash c, Listed hash c l' ↔ Listed hash c l := by
    intro hash c
    unfold Listed
    rw [sessions]
  exact ⟨utp, fun hash c listed => Or.inl ((same hash c).mp listed), waiting, closed ▸ List.prefix_refl _,
    fun hash c listed lost => absurd ((same hash c).mpr listed) lost⟩

theorem Sweeps.trans {first second both : ConnId → Prop} (before : Sweeps first start l)
    (after : Sweeps second l l') (left : ∀ c, first c → both c) (right : ∀ c, second c → both c) : Sweeps both start l' where
  utp := after.utp.trans before.utp
  listed hash c listed := by
    rcases after.listed hash c listed with was | new
    · exact (before.listed hash c was).imp_right (left c)
    · exact Or.inr (right c new)
  waiting c waits := before.waiting c (after.waiting c waits)
  closed := before.closed.trans after.closed
  releases hash c listed lost := by
    by_cases between : Listed hash c l
    · exact (after.releases hash c between lost).earlier before.closed
    · exact (before.releases hash c listed between).later before.closed after.closed after.utp

theorem sweeps_dropPeer {dialed : ConnId → Prop} {hash : InfoHash}
    (shut : Listed hash conn l → l.utp.isOpen conn = false) : Sweeps dialed l (l.dropPeer hash conn) where
  utp := utp_dropPeer hash conn l
  listed hash' c listed := Or.inl (listed_dropPeer.mp listed).1
  waiting c waits := by rwa [inbound_dropPeer] at waits
  closed := by
    unfold dropPeer
    split
    · exact List.prefix_refl _
    · exact List.prefix_append _ _
  releases hash' c listed lost := by
    have here : hash = hash' ∧ c = conn := by
      by_contra other
      exact lost (listed_dropPeer.mpr ⟨listed, other⟩)
    obtain ⟨rfl, rfl⟩ := here
    obtain ⟨s, found, -⟩ := id listed
    unfold Released
    split
    · rw [utp_dropPeer]
      exact shut listed
    · unfold dropPeer
      rw [found]
      dsimp only [Links.tcpClose]
      rw [List.drop_left]
      exact List.mem_singleton_self c

theorem sweeps_attachOutbound (hash : InfoHash) (conn : ConnId) (addr : NetAddr) (source : DiscoverySource) (banned : Bool)
    (now : Nat) (l : Links H) : Sweeps (· = conn) l (l.attachOutbound hash conn addr source banned now) where
  utp := by
    unfold Links.attachOutbound
    rw [utp_attachPeer]
  listed hash' c listed := by
    have more := listed_attachPeer listed
    exact more.imp_right And.right
  waiting c waits := by
    unfold Links.attachOutbound at waits
    rwa [inbound_attachPeer] at waits
  closed := by
    unfold Links.attachOutbound attachPeer
    dsimp only
    split
    · exact List.prefix_refl _
    split
    · exact List.prefix_append _ _
    · exact List.prefix_refl _
  releases hash' c listed lost := by
    apply absurd _ lost
    unfold Links.attachOutbound
    apply Listed.attachPeer
    exact listed

theorem sweeps_cleanupUtpConn (tidy : Tidy host gone l) (shut : l.utp.isOpen conn = false)
    {rest : List ConnId} (left : ∀ c ∈ gone, c = conn ∨ c ∈ rest) (sub : ∀ c ∈ rest, c ∈ gone) (tcpFallback : Bool)
    {answer : Result ConnId} (new : ∀ tcp, answer = .ok tcp → Unused tcp l) (banned : Bool) (now : Nat) :
    Sweeps (fun c => answer = .ok c) l (l.cleanupUtpConn conn tcpFallback answer banned now) ∧
      Tidy host rest (l.cleanupUtpConn conn tcpFallback answer banned now) := by
  have unlisted : Sweeps (fun c => answer = .ok c) l (l.unlist conn) :=
    sweeps_still rfl rfl (fun c waits => ((mem_keys_erase _ _ _).mp waits).2) rfl
  unfold Links.cleanupUtpConn
  split
  next orphan =>
    refine ⟨unlisted, tidy.vanish shut left sub (fun hash c => ⟨fun listed => ⟨listed, ?_⟩, And.left⟩) rfl rfl rfl⟩
    rintro rfl
    cases orphan.symm.trans (tidy.owned hash c listed)
  next hash owner =>
    have dropping : Sweeps (fun c => answer = .ok c) (l.unlist conn) ((l.unlist conn).dropPeer hash conn) :=
      sweeps_dropPeer fun _ => shut
    have dropped : Sweeps (fun c => answer = .ok c) l ((l.unlist conn).dropPeer hash conn) :=
      unlisted.trans dropping (fun _ => id) (fun _ => id)
    have gone_ : Tidy host rest ((l.unlist conn).dropPeer hash conn) := by
      apply tidy.vanish shut left sub _ (connOwner_dropPeer hash conn (l.unlist conn))
        (inbound_dropPeer hash conn (l.unlist conn)) (utp_dropPeer hash conn (l.unlist conn))
      intro hash' c
      rw [listed_dropPeer]
      constructor
      · rintro ⟨listed, other⟩
        refine ⟨listed, ?_⟩
        rintro rfl
        cases owner.symm.trans (tidy.owned hash' c listed)
        exact other ⟨rfl, rfl⟩
      · exact fun ⟨listed, other⟩ => ⟨listed, fun lost => other lost.2⟩
    dsimp only
    split
    next p tcp _ =>
      split
      · refine ⟨dropped.trans (sweeps_attachOutbound hash tcp p.addr p.source banned now _) (fun _ => id) ?_, ?_⟩
        · rintro c rfl
          rfl
        · apply gone_.attachTcp
          have free := new tcp rfl
          refine ⟨free.1, fun held => free.2 ?_⟩
          rcases held with ⟨hash', listed⟩ | waits
          · exact Or.inl ⟨hash', (listed_dropPeer.mp listed).1⟩
          · exact Or.inr (dropped.waiting tcp waits)
      · exact ⟨dropped, gone_⟩
    next => exact ⟨dropped, gone_⟩

def Dialed (replies : Replies) (k : Nat) (conn : ConnId) : Prop := ∃ j < k, replies.dial j = .ok conn

variable {replies : Replies} {k now : Nat}

theorem Sweeps.unused (sweeps : Sweeps (Dialed replies k) start l)
    (fresh : Fresh replies start) {tcp : ConnId} (answer : replies.dial k = .ok tcp) : Unused tcp l := by
  refine ⟨(fresh.1 k tcp answer).1, ?_⟩
  rintro (⟨hash, listed⟩ | waits)
  · rcases sweeps.listed hash tcp listed with before | ⟨j, earlier, same⟩
    · exact (fresh.1 k tcp answer).2 (Or.inl ⟨hash, before⟩)
    · exact Nat.ne_of_lt earlier (fresh.2 j k tcp same answer)
  · exact (fresh.1 k tcp answer).2 (Or.inr (sweeps.waiting tcp waits))

theorem Sweeps.next {replies : Replies} {k : Nat} {start : Links H} (sweeps : Sweeps (Dialed replies k) start l)
    (step : Sweeps (fun c => replies.dial k = .ok c) l l') : Sweeps (Dialed replies (k + 1)) start l' := by
  apply sweeps.trans step
  · exact fun c ⟨j, earlier, same⟩ => ⟨j, Nat.lt_succ_of_lt earlier, same⟩
  · exact fun c same => ⟨k, Nat.lt_succ_self k, same⟩

theorem sweeps_takeReaped (fresh : Fresh replies start) (now : Nat)
    (reaped : List ConnId) (k : Nat) (sweeps : Sweeps (Dialed replies k) start l) (tidy : Tidy host reaped l) :
    ∃ n, Sweeps (Dialed replies n) start ((reaped.zipIdx k).foldl (fun l e =>
        l.cleanupUtpConn e.1 (l.connecting.contains e.1) (replies.dial e.2) (replies.banned e.2) now) l) ∧
      Tidy host [] ((reaped.zipIdx k).foldl (fun l e =>
        l.cleanupUtpConn e.1 (l.connecting.contains e.1) (replies.dial e.2) (replies.banned e.2) now) l) := by
  induction reaped generalizing l k with
  | nil => exact ⟨k, sweeps, tidy⟩
  | cons conn rest ih =>
    have shut : l.utp.isOpen conn = false := by
      cases opened : l.utp.isOpen conn with
      | false => rfl
      | true => exact absurd (mem_keys_of_isOpen opened) (tidy.buried conn List.mem_cons_self)
    have cleaned := sweeps_cleanupUtpConn tidy shut (fun c => List.mem_cons.mp) (fun c => List.mem_cons_of_mem _)
      (l.connecting.contains conn) (fun tcp => sweeps.unused fresh) (replies.banned k) now
    rw [List.zipIdx_cons, List.foldl_cons]
    exact ih (k + 1) (sweeps.next cleaned.1) cleaned.2

/-! ### Driving the establishing connections -/

structure Settling (host : UdpHost H) (replies : Replies) (start l : Links H) (k : Nat) : Prop where
  sweeps : Sweeps (Dialed replies k) start l
  tidy : Tidy host [] l
  deadlines : ∀ c, isUtpHandle c = true → ∀ t, l.connectDeadline.get? c = some t → start.connectDeadline.get? c = some t

theorem overdue_iff (clock : now < 2 ^ 64) :
    l.overdue conn now = true ↔ ∃ t, l.connectDeadline.get? conn = some t ∧ t < now := by
  unfold overdue
  cases l.connectDeadline.get? conn with
  | none =>
    simp only [Option.getD_none, decide_eq_true_eq]
    constructor
    · intro late
      omega
    · exact fun ⟨t, wrong, _⟩ => by cases wrong
  | some t => simp

theorem deadlines_cleanupUtpConn {tcpFallback : Bool} {answer : Result ConnId} {banned : Bool}
    (tcp : ∀ c, answer = .ok c → isUtpHandle c = false) {c : ConnId} (flag : isUtpHandle c = true) {t : Nat}
    (deadline : (l.cleanupUtpConn conn tcpFallback answer banned now).connectDeadline.get? c = some t) :
    l.connectDeadline.get? c = some t := by
  have erased : ∀ {m : Links H}, m.connectDeadline = l.connectDeadline.erase conn →
      m.connectDeadline.get? c = some t → l.connectDeadline.get? c = some t := by
    intro m same found
    rw [same] at found
    exact get?_of_erase found
  unfold Links.cleanupUtpConn at deadline
  split at deadline
  · exact erased rfl deadline
  next hash _ =>
    have dropped := connectDeadline_dropPeer hash conn (l.unlist conn)
    dsimp only at deadline
    split at deadline
    next p dialed _ =>
      split at deadline
      · have other : dialed ≠ c := by
          rintro rfl
          cases flag.symm.trans (tcp dialed rfl)
        unfold Links.attachOutbound at deadline
        rw [connectDeadline_attachPeer, get?_insert_ne _ _ other] at deadline
        exact erased dropped deadline
      · exact erased dropped deadline
    next => exact erased dropped deadline

theorem Settling.next {replies : Replies} {start : Links H} {k : Nat} (settling : Settling host replies start l k)
    (step : Sweeps (fun c => replies.dial k = .ok c) l l') (tidy : Tidy host [] l')
    (deadlines : ∀ c, isUtpHandle c = true → ∀ t, l'.connectDeadline.get? c = some t → l.connectDeadline.get? c = some t) :
    Settling host replies start l' (k + 1) :=
  ⟨settling.sweeps.next step, tidy, fun c flag t found => settling.deadlines c flag t (deadlines c flag t found)⟩

theorem settling_settle (fresh : Fresh replies start) (clock : now < 2 ^ 64)
    (punctual : start.overdue conn now = true → start.utp.isOpen conn = true → start.utp.isConnected conn = true) {still : List ConnId} (settling : Settling host replies start l k) :
    Settling host replies start (settle replies now (still, l) (conn, k)).2 (k + 1) := by
  have idle : Settling host replies start l (k + 1) :=
    settling.next (sweeps_still rfl rfl (fun _ => id) rfl) settling.tidy (fun _ _ _ => id)
  have untimed : ∀ c, isUtpHandle c = true → ∀ t, (l.connectDeadline.erase conn).get? c = some t →
      l.connectDeadline.get? c = some t := fun _ _ _ => get?_of_erase
  have timedTidy : Tidy host [] { l with connectDeadline := l.connectDeadline.erase conn } :=
    settling.tidy.same (fun _ _ => Iff.rfl) rfl (fun _ => Iff.rfl) rfl
  have timed : Settling host replies start { l with connectDeadline := l.connectDeadline.erase conn } (k + 1) :=
    settling.next (sweeps_still rfl rfl (fun _ => id) rfl) timedTidy untimed
  unfold settle
  dsimp only
  split
  · exact idle
  next hash owner =>
    split
    next flag =>
      split
      · exact timed
      next waits =>
        split
        next late =>
          have shut : l.utp.isOpen conn = false := by
            cases opened : l.utp.isOpen conn with
            | false => rfl
            | true =>
              obtain ⟨t, deadline, passed⟩ := (overdue_iff clock).mp late
              rw [settling.sweeps.utp] at opened waits
              have connected := punctual ((overdue_iff clock).mpr ⟨t, settling.deadlines conn flag t deadline, passed⟩) opened
              exact absurd connected waits
          have new : ∀ tcp, replies.dial k = .ok tcp → Unused tcp { l with connectDeadline := l.connectDeadline.erase conn } :=
            fun tcp answer => settling.sweeps.unused fresh answer
          have none_gone : ∀ c ∈ ([] : List ConnId), c = conn ∨ c ∈ ([] : List ConnId) := fun c => Or.inr
          have cleaned := sweeps_cleanupUtpConn timedTidy shut none_gone (fun c => id) true new (replies.banned k) now
          have still_ : Sweeps (fun c => replies.dial k = .ok c) l { l with connectDeadline := l.connectDeadline.erase conn } :=
            sweeps_still rfl rfl (fun _ => id) rfl
          apply settling.next (still_.trans cleaned.1 (fun _ => id) (fun _ => id)) cleaned.2
          intro c utp t found
          exact untimed c utp t (deadlines_cleanupUtpConn (fun tcp answer => (new tcp answer).1) utp found)
        next => exact idle
    next tcp =>
      have dropped : Settling host replies start
          (dropPeer hash conn { l with connectDeadline := l.connectDeadline.erase conn }) (k + 1) := by
        have shut : l.utp.isOpen conn = false := settling.tidy.shut_of_tcp (by simpa using tcp)
        have still_ : Sweeps (fun c => replies.dial k = .ok c) l { l with connectDeadline := l.connectDeadline.erase conn } :=
          sweeps_still rfl rfl (fun _ => id) rfl
        have dropping : Sweeps (fun c => replies.dial k = .ok c) { l with connectDeadline := l.connectDeadline.erase conn }
            (dropPeer hash conn { l with connectDeadline := l.connectDeadline.erase conn }) := sweeps_dropPeer fun _ => shut
        apply settling.next (still_.trans dropping (fun _ => id) (fun _ => id)) (timedTidy.dropPeer fun _ => shut)
        intro c utp t found
        rw [connectDeadline_dropPeer] at found
        exact untimed c utp t found
      split
      · split
        · exact dropped
        · exact idle
      · exact dropped
      · exact timed

theorem settling_settles (fresh : Fresh replies start)
    (clock : now < 2 ^ 64) {conns : List ConnId} (punctual : ∀ conn ∈ conns, start.overdue conn now = true →
      start.utp.isOpen conn = true → start.utp.isConnected conn = true) {acc : List ConnId × Links H}
    (settling : Settling host replies start acc.2 k) :
    ∃ n, Settling host replies start ((conns.zipIdx k).foldl (settle replies now) acc).2 n := by
  induction conns generalizing k acc with
  | nil => exact ⟨k, settling⟩
  | cons conn rest ih =>
    rw [List.zipIdx_cons, List.foldl_cons]
    apply ih (fun c member => punctual c (List.mem_cons_of_mem _ member))
    exact settling_settle fresh clock (punctual conn List.mem_cons_self) settling

theorem settled_driveConnecting (tidy : Tidy host [] l) (fresh : Fresh replies l)
    (clock : now < 2 ^ 64) (punctual : ∀ conn ∈ l.connecting, l.overdue conn now = true →
      l.utp.isOpen conn = true → l.utp.isConnected conn = true) :
    Tidy host [] (l.driveConnecting replies now) ∧ Releases l (l.driveConnecting replies now) := by
  have start : Settling host replies l { l with connecting := [] } 0 :=
    ⟨sweeps_still rfl rfl (fun _ => id) rfl, tidy.same (fun _ _ => Iff.rfl) rfl (fun _ => Iff.rfl) rfl, fun _ _ _ => id⟩
  obtain ⟨n, settled⟩ : ∃ n, Settling host replies l
      ((l.connecting.zipIdx 0).foldl (settle replies now) ([], { l with connecting := [] })).2 n :=
    settling_settles fresh clock punctual start
  unfold driveConnecting
  generalize l.connecting.zipIdx.foldl (settle replies now) ([], { l with connecting := [] }) = acc at settled
  exact ⟨settled.tidy.same (fun _ _ => Iff.rfl) rfl (fun _ => Iff.rfl) rfl, settled.sweeps.releases⟩

/-! ### The uTP part of a tick -/

theorem takeAccepted_frame (accepted : List (ConnId × NetAddr)) (l : Links H) : takeAccepted accepted l =
    { l with inbound := (takeAccepted accepted l).inbound, homes := (takeAccepted accepted l).homes } := by
  unfold takeAccepted
  induction accepted generalizing l with
  | nil => rfl
  | cons e tail ih =>
    rw [List.foldl_cons, ih]
    rfl

theorem mem_takeAccepted (accepted : List (ConnId × NetAddr)) (l : Links H) (c : ConnId) :
    c ∈ (takeAccepted accepted l).inbound.keys ↔ c ∈ accepted.map Prod.fst ∨ c ∈ l.inbound.keys := by
  unfold takeAccepted
  induction accepted generalizing l with
  | nil => simp
  | cons e tail ih =>
    rw [List.foldl_cons, ih, letIn, mem_keys_insert, List.map_cons, List.mem_cons]
    tauto

theorem tidy_taken (tidy : Tidy host [] l) {n : UtpManager} (reached : Reachable host n)
    (ticks : Ticks l.utp n) {inbound : OrdMap ConnId InboundPeer}
    (homes : OrdMap ConnId NetAddr) (taken : ∀ c, c ∈ inbound.keys ↔ c ∈ n.accepted.map Prod.fst ∨ c ∈ l.inbound.keys) (udp : H) :
    Tidy host n.reaped { l with utp := n.takeAccepted.2.takeReaped.2, udp := udp, inbound := inbound, homes := homes } := by
  have announced : ∀ c, c ∈ n.accepted.map Prod.fst ↔ c ∈ l.utp.accepted.map Prod.fst := by
    intro c
    rw [ticks.accepted]
  have still : ∀ c, Held c l → Held c { l with utp := n.takeAccepted.2.takeReaped.2, udp := udp, inbound := inbound, homes := homes } := fun c =>
    Or.imp_right fun waits => (taken c).mpr (Or.inr waits)
  constructor
  · exact .takeReaped (.takeAccepted reached)
  · exact fun c listed => tidy.flagged c (ticks.old c listed)
  · rfl
  · exact tidy.owned
  · intro hash c listed waits
    rcases (taken c).mp waits with accepted | before
    · exact (tidy.pending c ((announced c).mp accepted)).2 (Or.inl ⟨hash, listed⟩)
    · exact tidy.apart hash c listed before
  · intro c flag held
    have before : c ∈ l.utp.conns.keys := by
      rcases held with listed | waits
      · exact (tidy.live c flag (Or.inl listed)).resolve_right List.not_mem_nil
      · rcases (taken c).mp waits with accepted | waiting
        · exact (tidy.pending c ((announced c).mp accepted)).1
        · exact (tidy.live c flag (Or.inr waiting)).resolve_right List.not_mem_nil
    exact ticks.kept c before
  · intro c opened
    rcases tidy.anchored c (ticks.opens c opened) with held | accepted
    · exact Or.inl (still c held)
    · exact Or.inl (Or.inr ((taken c).mpr (Or.inl ((announced c).mpr accepted))))
  · intro c none_left
    cases none_left
  · intro c gone listed
    rcases ticks.gone c gone with before | ⟨-, lost⟩
    · rw [tidy.reaped] at before
      cases before
    · exact lost listed

theorem released_driveUtp (tidy : Tidy host [] l) (fresh : Fresh replies l) (now : Nat) :
    Tidy host [] (l.driveUtp host replies now) ∧ Releases l (l.driveUtp host replies now) := by
  unfold driveUtp
  split
  · exact ⟨tidy, fun hash conn listed lost => absurd listed lost⟩
  · have ticks := ticks_tick host l.utp (satMul now 1000) l.udp
    have reached := Reachable.tick tidy.reached (satMul now 1000) l.udp
    generalize l.utp.tick host (satMul now 1000) l.udp = ticked at ticks reached
    dsimp only
    have taken := mem_takeAccepted ticked.1.takeAccepted.1 { l with utp := ticked.1.takeAccepted.2, udp := ticked.2 }
    rw [takeAccepted_frame]
    generalize (takeAccepted ticked.1.takeAccepted.1 { l with utp := ticked.1.takeAccepted.2, udp := ticked.2 }).inbound =
      inbound at taken
    generalize (takeAccepted ticked.1.takeAccepted.1 { l with utp := ticked.1.takeAccepted.2, udp := ticked.2 }).homes = homes
    have cleaning := tidy_taken tidy reached ticks homes taken ticked.2
    have unused : Fresh replies
        { l with utp := ticked.1.takeAccepted.2.takeReaped.2, udp := ticked.2, inbound := inbound, homes := homes } := by
      refine ⟨fun i tcp answer => ⟨(fresh.1 i tcp answer).1, ?_⟩, fresh.2⟩
      rintro (listed | waits)
      · exact (fresh.1 i tcp answer).2 (Or.inl listed)
      · rcases (taken tcp).mp waits with accepted | before
        · have announced : tcp ∈ l.utp.accepted.map Prod.fst := by
            rw [← ticks.accepted]
            exact accepted
          cases (fresh.1 i tcp answer).1.symm.trans (tidy.flagged tcp (tidy.pending tcp announced).1)
        · exact (fresh.1 i tcp answer).2 (Or.inr before)
    obtain ⟨n, swept, cleaned⟩ := sweeps_takeReaped unused now ticked.1.reaped 0 (sweeps_still rfl rfl (fun _ => id) rfl) cleaning
    exact ⟨cleaned, swept.releases⟩

theorem Tidy.accept (tidy : Tidy host [] l) {addr : NetAddr} {n : UtpManager}
    (reached : Reachable host n) (bears : Bears conn l.utp n)
    (accepted : n.accepted = l.utp.accepted ++ [(conn, addr)]) (udp : H) : Tidy host [] { l with utp := n, udp := udp } := by
  have flag : isUtpHandle conn = true := decide_eq_true bears.flagged
  have announced : ∀ c, c ∈ n.accepted.map Prod.fst ↔ c ∈ l.utp.accepted.map Prod.fst ∨ c = conn := by
    intro c
    rw [accepted]
    simp
  constructor
  · exact reached
  · intro c listed
    rcases (bears.keys c).mp listed with rfl | before
    · exact flag
    · exact tidy.flagged c before
  · exact bears.reaped.trans tidy.reaped
  · exact tidy.owned
  · exact tidy.apart
  · intro c marked held
    exact (tidy.live c marked held).imp_left fun before => (bears.keys c).mpr (Or.inr before)
  · intro c opened
    rcases bears.opens c opened with here | before
    · exact Or.inr ((announced c).mpr (Or.inr here))
    · exact (tidy.anchored c before).imp_right fun was => (announced c).mpr (Or.inl was)
  · intro c listed
    rcases (announced c).mp listed with before | rfl
    · exact ⟨(bears.keys c).mpr (Or.inr (tidy.pending c before).1), (tidy.pending c before).2⟩
    · refine ⟨(bears.keys c).mpr (Or.inl rfl), fun held => ?_⟩
      rcases tidy.live c flag held with old | buried
      · exact bears.fresh old
      · cases buried
  · intro c buried
    cases buried

end Tables

/-! ### Runs -/

theorem releases_of_listed (still : ∀ hash c, Listed hash c l → Listed hash c l') : Releases l l' := fun hash c listed lost =>
  absurd (still hash c listed) lost

theorem listed_pumpInbound {conn : ConnId} {results : List (Result Bytes)} {banned : Bool} {hash : InfoHash} {c : ConnId}
    (listed : Listed hash c l) : Listed hash c (l.pumpInbound conn results banned) := by
  have closing : ∀ {m : Links H}, Listed hash c m → Listed hash c (m.streamClose conn) := by
    intro m was
    unfold streamClose
    split
    · exact was
    · exact was
  have received : Listed hash c (recvInbound conn results l).2 := by
    fun_induction recvInbound conn results l with
    | case1 l => exact listed
    | case2 tail l => exact listed
    | case3 data tail l _ full => exact closing listed
    | case4 data tail l _ fits ih => exact ih listed
    | case5 tail l => exact listed
    | case6 e tail l _ => exact closing listed
  unfold pumpInbound
  split
  next gone =>
    rw [gone] at received
    exact received
  next going =>
    rw [going] at received
    unfold routeInbound
    split
    · exact received
    split
    · exact received
    dsimp only
    split
    · exact closing received
    split
    · exact closing received
    · apply Listed.attachPeer
      exact received

theorem listed_dialQueued {hash hash' : InfoHash} {addr : NetAddr} {source : DiscoverySource} {banned : Bool}
    {answer : Result ConnId} {now : Nat} {c : ConnId} (listed : Listed hash' c l) :
    Listed hash' c (l.dialQueued hash addr source banned answer now) := by
  have attached : ∀ {m : Links H} (conn : ConnId), Listed hash' c m →
      Listed hash' c (m.attachOutbound hash conn addr source banned now) := by
    intro m conn was
    unfold attachOutbound
    apply Listed.attachPeer
    exact was
  unfold dialQueued
  split
  · exact listed
  split
  · exact listed
  split
  · split
    · exact listed
    · exact attached _ listed
  · cases answer with
    | ok conn => exact attached conn listed
    | error e => exact listed

theorem tidy_perform {now : Nat} (clock : now < 2 ^ 64) {step : Step} (tidy : Tidy host [] l) (new : HandsOutNew step l)
    (shut : LetsGoShut step l now) :
    Tidy host [] (l.perform host now step) ∧ Releases l (l.perform host now step) := by
  unfold perform
  cases step with
  | addTorrent hash =>
    dsimp only
    split
    · exact ⟨tidy, releases_of_listed fun _ _ => id⟩
    next unknown =>
      have same : ∀ hash' c, Listed hash' c { l with sessions := l.sessions.insert hash {} } ↔ Listed hash' c l := by
        intro hash' c
        rw [listed_overwrite]
        split
        next here =>
          subst here
          constructor
          · intro none_yet
            cases none_yet
          · rintro ⟨s, found, -⟩
            exact absurd ((contains_iff _ _).mpr ⟨s, found⟩) unknown
        next => rfl
      exact ⟨tidy.same same rfl (fun _ => Iff.rfl) rfl, releases_of_listed fun hash' c => (same hash' c).mpr⟩
  | start hash =>
    have same : ∀ hash' c, Listed hash' c { l with sessions := l.sessions.modify hash fun s => { s with stopped := false } } ↔
        Listed hash' c l := by
      intro hash' c
      unfold Listed
      dsimp only
      rw [get?_modify]
      split
      · cases l.sessions.get? hash' with
        | none => simp
        | some s => simp
      · rfl
    exact ⟨tidy.same same rfl (fun _ => Iff.rfl) rfl, releases_of_listed fun hash' c => (same hash' c).mpr⟩
  | removeTorrent hash => exact ⟨tidy_removeTorrent tidy shut, releases_removeTorrent tidy shut⟩
  | openUdp => exact ⟨tidy.same (fun _ _ => Iff.rfl) rfl (fun _ => Iff.rfl) rfl, releases_of_listed fun _ _ => id⟩
  | drop hash conn =>
    have swept : Sweeps (fun _ => False) l (l.dropPeer hash conn) := sweeps_dropPeer shut
    exact ⟨tidy.dropPeer shut, swept.releases⟩
  | incoming conn addr =>
    refine ⟨tidy_onInboundConnection tidy new addr, releases_of_listed fun hash c listed => ?_⟩
    dsimp only
    unfold onInboundConnection
    split
    · exact listed
    split
    · exact listed
    split
    · exact listed
    · exact listed
  | sweepStale =>
    refine ⟨tidy_sweepStale tidy, releases_of_listed fun hash c listed => ?_⟩
    dsimp only
    unfold sweepStale Listed
    dsimp only
    rw [(disowns_frame _ l).1]
    exact listed
  | driveConnecting replies => exact settled_driveConnecting tidy new clock shut
  | dialQueued hash addr source banned answer =>
    dsimp only
    split
    next known => exact ⟨tidy_dialQueued tidy known new shut, releases_of_listed fun _ _ => listed_dialQueued⟩
    next => exact ⟨tidy, releases_of_listed fun _ _ => id⟩
  | pumpInbound conn results banned => exact ⟨tidy_pumpInbound tidy results shut, releases_of_listed fun _ _ => listed_pumpInbound⟩
  | datagram source payload =>
    have reached := Reachable.datagram tidy.reached source payload (satMul now 1000) l.udp
    refine ⟨?_, releases_of_listed fun _ _ => id⟩
    rcases handleDatagram_cases host (keyed_reachable host tidy.reached) shut source (satMul now 1000) l.udp
      with steady | ⟨conn, bears, accepted⟩
    · exact tidy.steady reached steady _
    · exact tidy.accept reached bears accepted _
  | utpSend conn data =>
    exact ⟨tidy.steady (.send tidy.reached conn data) (steady_send l.utp conn data) l.udp,
      releases_of_listed fun _ _ => id⟩
  | utpRecv conn n =>
    exact ⟨tidy.steady (.recv tidy.reached conn n) (steady_recv l.utp conn n) l.udp,
      releases_of_listed fun _ _ => id⟩
  | driveUtp replies => exact released_driveUtp tidy new now

theorem tidy_new (cfg : LinkConfig) (udp : H) : Tidy host [] (new cfg udp) where
  reached := .new
  flagged _ listed := by cases listed
  reaped := rfl
  owned hash c listed := by
    obtain ⟨s, found, -⟩ := listed
    cases found
  apart hash c listed := by
    obtain ⟨s, found, -⟩ := listed
    cases found
  live c _ held := by
    rcases held with ⟨hash, s, found, -⟩ | waits
    · cases found
    · cases waits
  anchored c opened := by cases opened
  pending c listed := by cases listed
  buried c listed := by cases listed

/-- In every run in which the host's handles are new and no uTP connection is let go while its socket is open, a peer
that a session loses is released in the same step, and at every moment something refers to each open uTP socket. -/
theorem released_if_shut (host : UdpHost H) (cfg : LinkConfig) (udp : H) (steps : List (UInt64 × Step))
    (handles : ∀ m ∈ moments host steps (new cfg udp), HandsOutNew m.1.2 m.2)
    (shut : ∀ m ∈ moments host steps (new cfg udp), LetsGoShut m.1.2 m.2 m.1.1.toNat) :
    (∀ m ∈ moments host steps (new cfg udp), Referenced m.2 ∧ Releases m.2 (m.2.perform host m.1.1.toNat m.1.2)) ∧
      Referenced (run host steps (new cfg udp)) := by
  have tidy := run_invariant (P := Tidy host []) (Q := fun step l now => HandsOutNew step l ∧ LetsGoShut step l now)
    (fun now clock step l before here => (tidy_perform clock before here.1 here.2).1) steps (tidy_new cfg udp)
    (fun m member => ⟨handles m member, shut m member⟩)
  refine ⟨fun m member => ⟨(tidy.1 m member).referenced, ?_⟩, tidy.2.referenced⟩
  exact (tidy_perform m.1.1.toNat_lt (tidy.1 m member) (handles m member) (shut m member)).2

/-! ### A peer that came over TCP, and one that came over uTP -/

namespace Sample

def infoHash : Bytes := List.replicate 20 1

def greeting : Bytes := (Session.Sample.plainHandshake 1 2).encode

def orderly : List (UInt64 × Step) :=
  [(0, .incoming 7 stranger), (0, .addTorrent (.v1 infoHash)), (0, .openUdp),
    (1, .pumpInbound 7 [.ok greeting] false), (1, .datagram peer (syn 5)), (1, .driveUtp silent),
    (2, .drop (.v1 infoHash) 7), (3, .sweepStale)]

def dropped : List (UInt64 × Step) :=
  [(0, .addTorrent (.v1 infoHash)), (0, .openUdp), (1, .datagram peer (syn 5)), (1, .driveUtp silent),
    (2, .pumpInbound 0x80000001 [.ok greeting] false), (2, .drop (.v1 infoHash) 0x80000001), (3, .sweepStale),
    (3, .driveConnecting silent), (3, .driveUtp silent)]

theorem fresh_silent (l : Links Unit) : Fresh silent l :=
  ⟨fun _ _ answer => (by cases answer), fun _ _ _ answer => (by cases answer)⟩

end Sample

theorem released_if_shut_orderly :
    Referenced (run taking Sample.orderly (new strict ())) ∧
      (run taking Sample.orderly (new strict ())).utp.isOpen 0x80000001 = true ∧
      7 ∈ (run taking Sample.orderly (new strict ())).tcpClosed := by
  have handles : ∀ m ∈ moments taking Sample.orderly (new strict ()), HandsOutNew m.1.2 m.2 := by
    intro m member
    simp only [Sample.orderly, moments, List.mem_cons, List.not_mem_nil, or_false] at member
    rcases member with rfl | rfl | rfl | rfl | rfl | rfl | rfl | rfl
    · refine ⟨by decide, ?_⟩
      rintro (⟨hash, s, found, -⟩ | waits)
      · cases found
      · cases waits
    · trivial
    · trivial
    · trivial
    · trivial
    · exact Sample.fresh_silent _
    · trivial
    · trivial
  have shut : ∀ m ∈ moments taking Sample.orderly (new strict ()), LetsGoShut m.1.2 m.2 m.1.1.toNat := by
    intro m member
    simp only [Sample.orderly, moments, List.mem_cons, List.not_mem_nil, or_false] at member
    rcases member with rfl | rfl | rfl | rfl | rfl | rfl | rfl | rfl
    · trivial
    · trivial
    · trivial
    · exact fun _ => rfl
    · intro h _ _ id s found
      have listed := (expecting_spec found).1
      have empty : ((((((new strict ()).perform taking 0 (.incoming 7 stranger)).perform
        taking 0 (.addTorrent (.v1 Sample.infoHash))).perform taking 0 .openUdp).perform taking 1
        (.pumpInbound 7 [.ok Sample.greeting] false)).utp.conns) = ∅ := by decide
      have none_there := congrArg (fun conns => conns.get? id) empty
      cases none_there.symm.trans listed
    · trivial
    · exact fun _ => by decide
    · trivial
  exact ⟨(released_if_shut taking strict () Sample.orderly handles shut).2, by decide, by decide⟩

/-- A dropped uTP peer: `tcp_close` is called with its handle, twice, and its socket stays connected with nothing that
refers to it. -/
theorem dropped_peer_stays_open : ¬ ∀ (cfg : LinkConfig) (steps : List (UInt64 × Step)),
    (∀ m ∈ moments taking steps (new cfg ()), HandsOutNew m.1.2 m.2) →
      Referenced (run taking steps (new cfg ())) := by
  intro always
  have handles : ∀ m ∈ moments taking Sample.dropped (new strict ()), HandsOutNew m.1.2 m.2 := by
    intro m member
    simp only [Sample.dropped, moments, List.mem_cons, List.not_mem_nil, or_false] at member
    rcases member with rfl | rfl | rfl | rfl | rfl | rfl | rfl | rfl | rfl
    · trivial
    · trivial
    · trivial
    · exact Sample.fresh_silent _
    · trivial
    · trivial
    · trivial
    · exact Sample.fresh_silent _
    · exact Sample.fresh_silent _
  have opened : (run taking Sample.dropped (new strict ())).utp.isOpen 0x80000001 = true := by decide
  have unlisted : (run taking Sample.dropped (new strict ())).sessions.entries.all
      (fun e => !e.2.peers.keys.contains 0x80000001) = true := by decide
  rcases always strict Sample.dropped handles 0x80000001 opened with (⟨hash, s, found, listed⟩ | waits) | connecting | accepted
  · have free := List.all_eq_true.mp unlisted _ ((mem_entries_iff _ hash s).mpr found)
    rw [List.contains_iff_mem.mpr listed] at free
    cases free
  · exact absurd waits (by decide)
  · exact absurd connecting (by decide)
  · exact absurd accepted (by decide)

end TypeBit.Links
