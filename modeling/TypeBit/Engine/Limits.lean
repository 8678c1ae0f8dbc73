import TypeBit.Engine.Links
import TypeBit.Utp.Opening
import Mathlib.Data.Finset.Card

/-! The limits on connections. Inbound TCP connections and dialed ones are counted before they are let in, and a
fallback takes the place of the connection it replaces. Accepted uTP connections are let in uncounted, and the count by IP
misses a connection whose peer was dropped: the limits hold as long as those find room and nothing is missed. -/

namespace TypeBit.Links
open Metainfo Wire Utp RateLimit OrdMap Finset UtpManager

variable {H : Type} {host : UdpHost H} {l l' l'' : Links H}

def tracked (l : Links H) : Finset ConnId :=
  l.connOwner.keys.toFinset ∪ l.connecting.toFinset ∪ l.inbound.keys.toFinset

/-- Those of some connections that were let in from this IP. -/
def on (key : Bytes) (l : Links H) (conns : Finset ConnId) : Finset ConnId :=
  conns.filter fun c => (l.homes.get? c).map Engine.ipKey = some key

structure WithinLimits (l : Links H) : Prop where
  waiting : l.inbound.size ≤ Engine.MAX_INBOUND
  all : l.tracked.card ≤ l.cfg.globalMaxConnections
  /-- Every tracked connection is of some IP. -/
  homed : ∀ c ∈ l.tracked, (l.homes.get? c).isSome = true
  perIp : ∀ key, (l.on key l.tracked).card ≤ l.cfg.maxConnectionsPerIp

/-- A session or the inbound table lists the connection under this address. -/
def Shows (conn : ConnId) (addr : NetAddr) (l : Links H) : Prop :=
  (∃ hash s p, l.sessions.get? hash = some s ∧ s.peers.get? conn = some p ∧ p.addr = addr) ∨
    ∃ p, l.inbound.get? conn = some p ∧ p.addr = addr

def Unlisted (conn : ConnId) (l : Links H) : Prop := ∀ addr, ¬ Shows conn addr l

/-- One more connection from this address exceeds no limit. -/
def Room (addr : NetAddr) (l : Links H) : Prop :=
  l.inbound.size < Engine.MAX_INBOUND ∧ l.tracked.card < l.cfg.globalMaxConnections ∧
    (l.on (Engine.ipKey addr) l.tracked).card < l.cfg.maxConnectionsPerIp

def Fit : List (ConnId × NetAddr) → Links H → Prop
  | [], _ => True
  | e :: tail, l => Unlisted e.1 l ∧ Room e.2 l ∧ Fit tail (l.letIn e.1 e.2)

/-- Where the engine's count of an IP is below the limit, that of the tracked connections is. -/
def Counts (addr : NetAddr) (l : Links H) : Prop :=
  l.ipCount addr < l.cfg.maxConnectionsPerIp → (l.on (Engine.ipKey addr) l.tracked).card < l.cfg.maxConnectionsPerIp

/-- The connections dialed as fallbacks are new ones. -/
def DialsNew (replies : Replies) (l : Links H) : Prop :=
  (∀ i tcp, replies.dial i = .ok tcp → Unlisted tcp l) ∧
    ∀ i j tcp, replies.dial i = .ok tcp → replies.dial j = .ok tcp → i = j

/-- No handle that a table lists is handed out again, the engine's count of an IP misses none that matters, and the accepted uTP
connections find room. -/
def Roomy : Step → Links H → Nat → Prop
  | .incoming conn addr, l, _ => Unlisted conn l ∧ Counts addr l
  | .dialQueued _ addr _ _ answer, l, now => Counts addr l ∧ (∀ conn, answer = .ok conn → Unlisted conn l) ∧
      ∀ conn utp, l.utp.connect addr (satMul now 1000) = some (conn, utp) → Unlisted conn l
  | .driveConnecting replies, l, _ => DialsNew replies l
  | .driveUtp replies, l, _ => l.udpOpen = true → Fit l.utp.accepted l ∧ DialsNew replies (takeAccepted l.utp.accepted l)
  | _, _, _ => True

/-! ### Counting -/

variable {conn c : ConnId}

theorem mem_tracked : conn ∈ l.tracked ↔ conn ∈ l.connOwner.keys ∨ conn ∈ l.connecting ∨ conn ∈ l.inbound.keys := by
  simp [tracked]

theorem mem_on {key : Bytes} {conns : Finset ConnId} :
    c ∈ l.on key conns ↔ c ∈ conns ∧ (l.homes.get? c).map Engine.ipKey = some key := mem_filter

structure Shrinks (l l' : Links H) : Prop where
  cfg : l'.cfg = l.cfg
  waiting : l'.inbound.size ≤ l.inbound.size
  known : l'.tracked ⊆ l.tracked
  homes : l'.homes = l.homes
  shows : ∀ c addr, Shows c addr l' → Shows c addr l

theorem Shrinks.refl (l : Links H) : Shrinks l l := ⟨rfl, le_rfl, subset_rfl, rfl, fun _ _ => id⟩

theorem Shrinks.trans (first : Shrinks l l') (second : Shrinks l' l'') : Shrinks l l'' :=
  ⟨second.cfg.trans first.cfg, second.waiting.trans first.waiting, second.known.trans first.known,
    second.homes.trans first.homes, fun c addr listed => first.shows c addr (second.shows c addr listed)⟩

theorem Shrinks.foldl {α : Type} {f : Links H → α → Links H} (each : ∀ l a, Shrinks l (f l a)) (items : List α)
    (l : Links H) : Shrinks l (items.foldl f l) := by
  apply List.foldlRecOn (motive := Shrinks l) items f (.refl l)
  intro l' before a _
  exact before.trans (each l' a)

/-- The limits, with connections that are not in the tables at the moment. -/
structure Within (still : Finset ConnId) (l : Links H) : Prop where
  waiting : l.inbound.size ≤ Engine.MAX_INBOUND
  all : (still ∪ l.tracked).card ≤ l.cfg.globalMaxConnections
  homed : ∀ c ∈ still ∪ l.tracked, (l.homes.get? c).isSome = true
  perIp : ∀ key, (l.on key (still ∪ l.tracked)).card ≤ l.cfg.maxConnectionsPerIp
  /-- A connection is listed under the address of its IP. -/
  placed : ∀ c addr, Shows c addr l → l.homes.get? c = some addr

theorem Within.limits (within : Within ∅ l) : WithinLimits l := by
  obtain ⟨waiting, all, homed, perIp, -⟩ := within
  simp only [empty_union] at all homed perIp
  exact ⟨waiting, all, homed, perIp⟩

variable {still rest : Finset ConnId} {addr : NetAddr}

theorem Shrinks.on (shrinks : Shrinks l l') (less : rest ∪ l'.tracked ⊆ still ∪ l.tracked) (key : Bytes) :
    l'.on key (rest ∪ l'.tracked) ⊆ l.on key (still ∪ l.tracked) := by
  intro c member
  rw [mem_on, shrinks.homes] at member
  exact mem_on.mpr ⟨less member.1, member.2⟩

theorem Within.shrink (within : Within still l) (shrinks : Shrinks l l') (less : rest ∪ l'.tracked ⊆ still ∪ l.tracked) :
    Within rest l' where
  waiting := shrinks.waiting.trans within.waiting
  all := by
    rw [shrinks.cfg]
    exact (card_le_card less).trans within.all
  homed c member := by
    rw [shrinks.homes]
    exact within.homed c (less member)
  perIp key := by
    rw [shrinks.cfg]
    exact (card_le_card (shrinks.on less key)).trans (within.perIp key)
  placed c addr listed := by
    rw [shrinks.homes]
    exact within.placed c addr (shrinks.shows c addr listed)

theorem Within.shrinks (within : Within still l) (shrinks : Shrinks l l') : Within still l' :=
  within.shrink shrinks (union_subset_union_right shrinks.known)

/-! ### Steps that let one connection in -/

structure Admits (conn : ConnId) (addr : NetAddr) (l l' : Links H) : Prop where
  cfg : l'.cfg = l.cfg
  known : l'.tracked ⊆ insert conn l.tracked
  homes : l'.homes = l.homes.insert conn addr
  shows : ∀ c at_, Shows c at_ l' → Shows c at_ l ∨ c = conn ∧ at_ = addr

theorem admits_letIn (conn : ConnId) (addr : NetAddr) (l : Links H) : Admits conn addr l (l.letIn conn addr) := by
  refine ⟨rfl, ?_, rfl, ?_⟩
  · intro c member
    rw [mem_insert, mem_tracked]
    rw [mem_tracked] at member
    rcases member with owned | establishing | waits
    · exact Or.inr (Or.inl owned)
    · exact Or.inr (Or.inr (Or.inl establishing))
    · rcases (mem_keys_insert _ _ _ _).mp waits with same | before
      · exact Or.inl same
      · exact Or.inr (Or.inr (Or.inr before))
  · rintro c at_ (listed | ⟨p, waits, same⟩)
    · exact .inl (.inl listed)
    · have there : (l.inbound.insert conn ⟨addr, []⟩).get? c = some p := waits
      rw [get?_insert] at there
      split at there
      next here =>
        cases there
        exact .inr ⟨here.symm, same.symm⟩
      next => exact .inl (.inr ⟨p, there, same⟩)

/-- One connection more on its IP, and on no other. -/
theorem Admits.on (admits : Admits conn addr l l') (key : Bytes) : l'.on key (still ∪ l'.tracked) ⊆
    if Engine.ipKey addr = key then insert conn (l.on key (still ∪ l.tracked)) else l.on key (still ∪ l.tracked) := by
  intro c member
  rw [mem_on, admits.homes, get?_insert] at member
  obtain ⟨counted, homed⟩ := member
  by_cases here : conn = c
  · subst here
    rw [if_pos rfl] at homed
    rw [if_pos (Option.some.inj homed)]
    exact mem_insert_self ..
  · rw [if_neg here] at homed
    have before : c ∈ l.on key (still ∪ l.tracked) := by
      refine mem_on.mpr ⟨?_, homed⟩
      rcases mem_union.mp counted with aside | known
      · exact mem_union_left _ aside
      · exact mem_union_right _ (mem_of_mem_insert_of_ne (admits.known known) (Ne.symm here))
    split
    · exact mem_insert_of_mem before
    · exact before

theorem Within.join (within : Within still l) (admits : Admits conn addr l l') (unlisted : Unlisted conn l)
    (waiting : l'.inbound.size ≤ Engine.MAX_INBOUND) (room : (still ∪ l.tracked).card < l.cfg.globalMaxConnections)
    (roomOnIp : (l.on (Engine.ipKey addr) (still ∪ l.tracked)).card < l.cfg.maxConnectionsPerIp) : Within still l' := by
  have grown : still ∪ l'.tracked ⊆ insert conn (still ∪ l.tracked) := by
    rw [← union_insert]
    exact union_subset_union_right admits.known
  refine ⟨waiting, ?_, ?_, ?_, ?_⟩
  · rw [admits.cfg]
    calc (still ∪ l'.tracked).card
        ≤ (insert conn (still ∪ l.tracked)).card := card_le_card grown
      _ ≤ (still ∪ l.tracked).card + 1 := card_insert_le _ _
      _ ≤ l.cfg.globalMaxConnections := room
  · intro c member
    rw [admits.homes, get?_insert]
    split
    · rfl
    next other => exact within.homed c (mem_of_mem_insert_of_ne (grown member) (Ne.symm other))
  · intro key
    rw [admits.cfg]
    apply (card_le_card (admits.on key)).trans
    split
    next same =>
      subst same
      exact (card_insert_le _ _).trans roomOnIp
    next => exact within.perIp key
  · intro c at_ listed
    rw [admits.homes, get?_insert]
    rcases admits.shows c at_ listed with before | ⟨rfl, rfl⟩
    · have other : conn ≠ c := by
        rintro rfl
        exact unlisted at_ before
      rw [if_neg other]
      exact within.placed c at_ before
    · rw [if_pos rfl]

theorem Within.wait (within : Within ∅ l) (unlisted : Unlisted conn l) (room : Room addr l) : Within ∅ (l.letIn conn addr) := by
  obtain ⟨below, all, onIp⟩ := room
  rw [← empty_union l.tracked] at all onIp
  refine within.join (admits_letIn conn addr l) unlisted ?_ all onIp
  have more := total_insert_le (fun _ _ => 1) l.inbound conn ⟨addr, []⟩
  rw [← size_eq_total, ← size_eq_total] at more
  exact more.trans (by omega)

/-- No deadline of this connection has passed. -/
def Timely (now : Nat) (conn : ConnId) (l : Links H) : Prop := ∀ t, l.connectDeadline.get? conn = some t → now ≤ t

variable {now : Nat}

theorem Timely.same (timely : Timely now c l) (same : l'.connectDeadline = l.connectDeadline) : Timely now c l' := by
  unfold Timely
  rw [same]
  exact timely

theorem Timely.erase (timely : Timely now c l)
    (erased : l'.connectDeadline = l.connectDeadline.erase conn) : Timely now c l' := by
  intro t deadline
  rw [erased] at deadline
  exact timely t (get?_of_erase deadline)

theorem Timely.attachOutbound (clock : now < 2 ^ 64) (timely : Timely now c l) (hash : InfoHash)
    (conn : ConnId) (addr : NetAddr) (source : DiscoverySource) (banned : Bool) :
    Timely now c (l.attachOutbound hash conn addr source banned now) := by
  intro t deadline
  unfold Links.attachOutbound at deadline
  rw [connectDeadline_attachPeer, get?_insert] at deadline
  split at deadline
  · cases deadline
    unfold satAdd
    omega
  · exact timely t deadline

theorem Timely.cleanupUtpConn (clock : now < 2 ^ 64) (timely : Timely now c l) (conn : ConnId)
    (tcpFallback : Bool) (answer : Result ConnId) (banned : Bool) :
    Timely now c (l.cleanupUtpConn conn tcpFallback answer banned now) := by
  have unlisted : Timely now c (l.unlist conn) := timely.erase rfl
  unfold Links.cleanupUtpConn
  split
  · exact unlisted
  next hash _ =>
    have dropped : Timely now c ((l.unlist conn).dropPeer hash conn) := unlisted.same (connectDeadline_dropPeer hash conn _)
    dsimp only
    split
    next p tcp _ =>
      split
      · exact dropped.attachOutbound clock hash tcp p.addr p.source banned
      · exact dropped
    next => exact dropped

/-- While the establishing connections are driven, those that go on are counted with the others, and none of them is
overdue: a listed one is not torn down later. -/
structure Driven (now : Nat) (acc : List ConnId × Links H) : Prop where
  within : Within acc.1.toFinset acc.2
  timely : ∀ c ∈ acc.1, Timely now c acc.2

theorem Driven.push {still : List ConnId} (driven : Driven now (still, l)) (owned : conn ∈ l.connOwner.keys)
    (timely : Timely now conn l) : Driven now (still ++ [conn], l) := by
  constructor
  · have same : (still ++ [conn]).toFinset ∪ l.tracked ⊆ still.toFinset ∪ l.tracked := by
      intro c member
      rw [mem_union, List.mem_toFinset, List.mem_append, List.mem_singleton] at member
      rw [mem_union, List.mem_toFinset]
      rcases member with (before | rfl) | known
      · exact Or.inl before
      · exact Or.inr (mem_tracked.mpr (Or.inl owned))
      · exact Or.inr known
    exact driven.within.shrink (.refl l) same
  · intro c member
    rcases List.mem_append.mp member with before | here
    · exact driven.timely c before
    · rw [List.mem_singleton.mp here]
      exact timely

theorem unlisted (sessions : l.sessions = ∅) (inbound : l.inbound = ∅) : Unlisted conn l := by
  rintro addr (⟨hash, s, p, held, -⟩ | ⟨p, waits, -⟩)
  · rw [sessions] at held
    cases held
  · rw [inbound] at waits
    cases waits

def syn (connId : Nat) : Bytes := Header.encode ⟨ST_SYN, EXT_NONE, connId, 0, 0, 0, 0, 0⟩

def strict : LinkConfig := ⟨false, 2, 1, 10000⟩

def silent : Replies := ⟨fun _ => .error .wouldBlock, fun _ => .error .wouldBlock, fun _ => false⟩

/-- The connection waits no more, and its transport is told so. -/
def Freed (conn : ConnId) (l l' : Links H) : Prop :=
  l'.inbound.get? conn = none ∧ l'.tcpClosed = (l.streamClose conn).tcpClosed ∧ l'.utp = (l.streamClose conn).utp

theorem recvInbound_ended {p : InboundPeer} {chunks : List Bytes} (rest : List (Result Bytes))
    (waits : l.inbound.get? conn = some p) (filled : ∀ c ∈ chunks, c ≠ [])
    (short : (p.buf ++ chunks.flatten).length < HANDSHAKE_LEN) :
    ∃ l', recvInbound conn (chunks.map .ok ++ .ok [] :: rest) l = (true, l') ∧
      l'.inbound.get? conn = some ⟨p.addr, p.buf ++ chunks.flatten⟩ ∧ l'.inbound.size = l.inbound.size ∧
      (∀ key, l'.onIp key = l.onIp key) ∧ l'.tcpClosed = l.tcpClosed ∧ l'.utp = l.utp := by
  induction chunks generalizing l p with
  | nil => exact ⟨l, rfl, by simpa using waits, rfl, fun _ => rfl, rfl, rfl⟩
  | cons data tail ih =>
    have some_data := filled data List.mem_cons_self
    have fits : p.buf.length + data.length ≤ Engine.MAX_INBOUND_BUF := by
      simp only [List.flatten_cons, List.length_append, HANDSHAKE_LEN] at short
      unfold Engine.MAX_INBOUND_BUF
      omega
    have buffered : (l.inbound.modify conn fun p => { p with buf := p.buf ++ data }).get? conn =
        some ⟨p.addr, p.buf ++ data⟩ := by
      rw [get?_modify, if_pos rfl, waits]
      rfl
    obtain ⟨l', received, listed, size, weighs, closed, utp⟩ :=
      ih (l := { l with inbound := l.inbound.modify conn fun p => { p with buf := p.buf ++ data } }) buffered
        (fun c member => filled c (List.mem_cons_of_mem _ member)) (by simpa [List.append_assoc] using short)
    refine ⟨l', ?_, by simpa [List.append_assoc] using listed, size.trans ?_, fun key => (weighs key).trans ?_, closed, utp⟩
    · rw [← received, List.map_cons, List.cons_append, recvInbound]
      · rw [waits, if_neg (by simpa using fits)]
      · exact some_data
    · dsimp only
      rw [size_eq_total, size_eq_total]
      exact total_modify fun _ => rfl
    · unfold onIp
      apply Nat.add_left_cancel_iff.mpr
      exact total_modify fun _ => rfl

/-- Whatever the state, a stream that ends before the handshake is there keeps its slot: the pump that reads the end
neither removes it nor closes it, and it goes on counting. -/
theorem ended_stream_keeps_slot (l : Links H) (conn : ConnId) (p : InboundPeer) (chunks : List Bytes)
    (rest : List (Result Bytes)) (banned : Bool) (waits : l.inbound.get? conn = some p) (filled : ∀ c ∈ chunks, c ≠ [])
    (short : (p.buf ++ chunks.flatten).length < HANDSHAKE_LEN) :
    ¬ Freed conn l (l.pumpInbound conn (chunks.map .ok ++ .ok [] :: rest) banned) ∧
      (l.pumpInbound conn (chunks.map .ok ++ .ok [] :: rest) banned).inbound.get? conn =
        some ⟨p.addr, p.buf ++ chunks.flatten⟩ ∧
      (l.pumpInbound conn (chunks.map .ok ++ .ok [] :: rest) banned).tcpClosed = l.tcpClosed ∧
      (l.pumpInbound conn (chunks.map .ok ++ .ok [] :: rest) banned).utp = l.utp ∧
      (l.pumpInbound conn (chunks.map .ok ++ .ok [] :: rest) banned).inbound.size = l.inbound.size ∧
      ∀ addr, (l.pumpInbound conn (chunks.map .ok ++ .ok [] :: rest) banned).ipCount addr = l.ipCount addr := by
  obtain ⟨l', received, listed, size, weighs, closed, utp⟩ := recvInbound_ended rest waits filled short
  have pumped : l.pumpInbound conn (chunks.map .ok ++ .ok [] :: rest) banned = l' := by
    unfold pumpInbound
    rw [received]
    dsimp only
    unfold routeInbound
    rw [listed]
    dsimp only
    rw [if_pos short]
  rw [pumped]
  refine ⟨?_, listed, closed, utp, size, fun addr => weighs (Engine.ipKey addr)⟩
  intro freed
  rw [freed.1] at listed
  cases listed

def knock : Links Unit := (new strict ()).onInboundConnection 7 peer

theorem ended_stream_keeps_slot_knock :
    (knock.pumpInbound 7 [.ok [19], .ok []] false).inbound.get? 7 = some ⟨peer, [19]⟩ ∧
      (knock.pumpInbound 7 [.ok [19], .ok []] false).inbound.size = 1 := by
  have waits : knock.inbound.get? 7 = some ⟨peer, []⟩ := by decide
  have size : knock.inbound.size = 1 := by decide
  have kept := ended_stream_keeps_slot knock 7 ⟨peer, []⟩ [[19]] [] false waits (by decide) (by decide)
  exact ⟨kept.2.1, kept.2.2.2.2.1.trans size⟩

/-- It ends at once, and its slot is never given back. -/
theorem ended_stream_not_freed : ¬ ∀ (l : Links Unit) (conn : ConnId) (p : InboundPeer), l.inbound.get? conn = some p →
    p.buf.length < HANDSHAKE_LEN → Freed conn l (l.pumpInbound conn [.ok []] false) := by
  intro always
  have freed := always knock 7 ⟨peer, []⟩ (by decide) (by decide)
  have kept : (knock.pumpInbound 7 [.ok []] false).inbound.get? 7 = some ⟨peer, []⟩ := by decide
  rw [freed.1] at kept
  cases kept

end TypeBit.Links
