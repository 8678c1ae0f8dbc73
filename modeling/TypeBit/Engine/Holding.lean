import TypeBit.Engine.Limits

/-! Which tables of the engine refer to which connections, and that an open uTP socket is one that some table refers to.
Sessions close every connection with `tcp_close`, also those whose handle belongs to uTP, and the sweep of the engine does
the same: the steps here keep the invariant as long as a uTP connection is let go only when its socket is not open. -/

namespace TypeBit.Links
open Metainfo Wire Utp RateLimit OrdMap UtpManager

variable {H : Type} {host : UdpHost H} {l l' : Links H}

def Listed (hash : InfoHash) (conn : ConnId) (l : Links H) : Prop :=
  ∃ s, l.sessions.get? hash = some s ∧ conn ∈ s.peers.keys

/-- A session or the inbound table refers to the connection. -/
def Held (conn : ConnId) (l : Links H) : Prop := (∃ hash, Listed hash conn l) ∨ conn ∈ l.inbound.keys

/-- Every open uTP socket is one that a session, an inbound entry or the connect list refers to, or was accepted since
the last tick. -/
def Referenced (l : Links H) : Prop :=
  ∀ conn, l.utp.isOpen conn = true → Held conn l ∨ conn ∈ l.connecting ∨ conn ∈ l.utp.accepted.map Prod.fst

/-- A step that leads from `l` to `l'` closed the connection at the transport that owns its handle. -/
def Released (conn : ConnId) (l l' : Links H) : Prop :=
  if isUtpHandle conn then l'.utp.isOpen conn = false else conn ∈ l'.tcpClosed.drop l.tcpClosed.length

/-- Every peer that a session loses in a step is released by it. -/
def Releases (l l' : Links H) : Prop :=
  ∀ hash conn, Listed hash conn l → ¬ Listed hash conn l' → Released conn l l'

/-! ### What is asked of the host and of the run -/

def Unused (conn : ConnId) (l : Links H) : Prop := isUtpHandle conn = false ∧ ¬ Held conn l

def Fresh (replies : Replies) (l : Links H) : Prop :=
  (∀ i tcp, replies.dial i = .ok tcp → Unused tcp l) ∧
    ∀ i j tcp, replies.dial i = .ok tcp → replies.dial j = .ok tcp → i = j

def HandsOutNew : Step → Links H → Prop
  | .incoming conn _, l => Unused conn l
  | .dialQueued _ _ _ _ (.ok conn), l => Unused conn l
  | .driveConnecting replies, l => Fresh replies l
  | .driveUtp replies, l => Fresh replies l
  | _, _ => True

/-- A step lets no uTP connection go while its socket is open: no session drops or refuses such a peer, none of its
attempts to connect runs out of time, and no SYN comes to a socket that is closing. -/
def LetsGoShut : Step → Links H → Nat → Prop
  | .drop hash conn, l, _ => Listed hash conn l → l.utp.isOpen conn = false
  | .removeTorrent hash, l, _ => ∀ conn, Listed hash conn l → l.utp.isOpen conn = false
  | .driveConnecting _, l, now => ∀ conn ∈ l.connecting, l.overdue conn now = true → l.utp.isOpen conn = true →
      l.utp.isConnected conn = true
  | .dialQueued _ _ _ banned _, l, _ => l.cfg.proxied = false → l.udpOpen = true → banned = false
  | .pumpInbound conn _ banned, l, _ => l.utp.isOpen conn = true → banned = false
  | .datagram _ payload, l, _ => l.utp.SparesClosing payload
  | _, _, _ => True

/-! ### Which peers a session lists -/

variable {hash hash' : InfoHash} {c conn : ConnId}

theorem listed_overwrite (s : SessionLinks) : Listed hash' c { l with sessions := l.sessions.insert hash s } ↔
      if hash = hash' then c ∈ s.peers.keys else Listed hash' c l := by
  unfold Listed
  dsimp only
  rw [get?_insert]
  split
  · simp
  · rfl

theorem listed_dropPeer : Listed hash' c (l.dropPeer hash conn) ↔ Listed hash' c l ∧ ¬ (hash = hash' ∧ c = conn) := by
  unfold dropPeer
  split
  next missing =>
    refine ⟨fun listed => ⟨listed, ?_⟩, And.left⟩
    rintro ⟨rfl, -⟩
    obtain ⟨s, found, -⟩ := listed
    cases missing.symm.trans found
  next s found =>
    have closed : Listed hash' c (tcpClose conn { l with sessions := l.sessions.insert hash { s with peers := s.peers.erase conn } }) ↔
      Listed hash' c { l with sessions := l.sessions.insert hash { s with peers := s.peers.erase conn } } := Iff.rfl
    rw [closed, listed_overwrite]
    split
    next same =>
      subst same
      rw [mem_keys_erase]
      constructor
      · exact fun ⟨other, listed⟩ => ⟨⟨s, found, listed⟩, fun lost => other lost.2⟩
      · rintro ⟨⟨t, held, listed⟩, kept⟩
        cases found.symm.trans held
        exact ⟨fun same => kept ⟨rfl, same⟩, listed⟩
    next other => exact ⟨fun listed => ⟨listed, fun lost => other lost.1⟩, And.left⟩

theorem listed_attachPeer {addr : NetAddr} {source : DiscoverySource} {banned : Bool}
    (listed : Listed hash' c (l.attachPeer hash conn addr source banned)) : Listed hash' c l ∨ hash = hash' ∧ c = conn := by
  unfold attachPeer at listed
  split at listed
  · exact Or.inl listed
  next s found =>
    split at listed
    · exact Or.inl listed
    · rw [listed_overwrite] at listed
      split at listed
      next same =>
        subst same
        rcases (mem_keys_insert _ _ _ _).mp listed with here | before
        · exact Or.inr ⟨rfl, here⟩
        · exact Or.inl ⟨s, found, before⟩
      next => exact Or.inl listed

theorem Listed.attachPeer (listed : Listed hash' c l) (hash : InfoHash) (conn : ConnId)
    (addr : NetAddr) (source : DiscoverySource) (banned : Bool) :
    Listed hash' c (l.attachPeer hash conn addr source banned) := by
  unfold Links.attachPeer
  split
  · exact listed
  next s found =>
    split
    · exact listed
    · rw [listed_overwrite]
      split
      next same =>
        subst same
        obtain ⟨t, held, before⟩ := listed
        cases found.symm.trans held
        exact (mem_keys_insert _ _ _ _).mpr (Or.inr before)
      next => exact listed

theorem listed_attached (known : l.sessions.contains hash = true) (conn : ConnId) (addr : NetAddr)
    (source : DiscoverySource) : Listed hash conn (l.attachPeer hash conn addr source false) := by
  obtain ⟨s, found⟩ := (contains_iff _ _).mp known
  unfold attachPeer
  rw [found]
  simp only [Bool.false_eq_true, ↓reduceIte]
  rw [listed_overwrite, if_pos rfl]
  exact (mem_keys_insert _ _ _ _).mpr (Or.inl rfl)

/-! ### The invariant -/

/-- Which tables refer to which handles; `gone` are handles whose sockets were reaped and that are not cleaned up yet. -/
structure Tidy (host : UdpHost H) (gone : List ConnId) (l : Links H) : Prop where
  reached : Reachable host l.utp
  flagged : ∀ c ∈ l.utp.conns.keys, isUtpHandle c = true
  reaped : l.utp.reaped = []
  owned : ∀ hash c, Listed hash c l → l.connOwner.get? c = some hash
  apart : ∀ hash c, Listed hash c l → c ∉ l.inbound.keys
  live : ∀ c, isUtpHandle c = true → Held c l → c ∈ l.utp.conns.keys ∨ c ∈ gone
  anchored : ∀ c, l.utp.isOpen c = true → Held c l ∨ c ∈ l.utp.accepted.map Prod.fst
  pending : ∀ c ∈ l.utp.accepted.map Prod.fst, c ∈ l.utp.conns.keys ∧ ¬ Held c l
  buried : ∀ c ∈ gone, c ∉ l.utp.conns.keys

theorem Tidy.referenced {gone : List ConnId} (tidy : Tidy host gone l) : Referenced l := fun c opened =>
  (tidy.anchored c opened).imp_right Or.inr

theorem Tidy.shut_of_tcp {gone : List ConnId} (tidy : Tidy host gone l) (tcp : isUtpHandle conn = false) :
    l.utp.isOpen conn = false := by
  cases opened : l.utp.isOpen conn with
  | false => rfl
  | true => cases tcp.symm.trans (tidy.flagged conn (mem_keys_of_isOpen opened))

section Tables
variable {gone : List ConnId}

theorem Tidy.same (tidy : Tidy host gone l) (listed : ∀ hash c, Listed hash c l' ↔ Listed hash c l)
    (owner : l'.connOwner = l.connOwner) (inbound : ∀ c, c ∈ l'.inbound.keys ↔ c ∈ l.inbound.keys) (utp : l'.utp = l.utp) :
    Tidy host gone l' := by
  have held : ∀ c, Held c l' ↔ Held c l := by
    intro c
    unfold Held
    rw [inbound]
    exact or_congr_left (exists_congr fun hash => listed hash c)
  constructor
  · rw [utp]
    exact tidy.reached
  · rw [utp]
    exact tidy.flagged
  · rw [utp]
    exact tidy.reaped
  · intro hash c has
    rw [owner]
    exact tidy.owned hash c ((listed hash c).mp has)
  · intro hash c has waits
    exact tidy.apart hash c ((listed hash c).mp has) ((inbound c).mp waits)
  · intro c flag has
    rw [utp]
    exact tidy.live c flag ((held c).mp has)
  · intro c opened
    rw [utp] at opened ⊢
    exact (tidy.anchored c opened).imp_left (held c).mpr
  · intro c accepted
    rw [utp] at accepted ⊢
    exact ⟨(tidy.pending c accepted).1, fun has => (tidy.pending c accepted).2 ((held c).mp has)⟩
  · rw [utp]
    exact tidy.buried

theorem Tidy.tcpClose (tidy : Tidy host gone l) (conn : ConnId) : Tidy host gone (l.tcpClose conn) :=
  tidy.same (fun _ _ => Iff.rfl) rfl (fun _ => Iff.rfl) rfl

variable {hash : InfoHash} {conn : ConnId}

theorem Tidy.dropPeer (tidy : Tidy host gone l)
    (shut : Listed hash conn l → l.utp.isOpen conn = false) : Tidy host gone (l.dropPeer hash conn) := by
  have less : ∀ c, Held c (l.dropPeer hash conn) → Held c l := by
    rintro c (⟨hash', listed⟩ | waits)
    · exact Or.inl ⟨hash', (listed_dropPeer.mp listed).1⟩
    · rw [inbound_dropPeer] at waits
      exact Or.inr waits
  constructor
  · rw [utp_dropPeer]
    exact tidy.reached
  · rw [utp_dropPeer]
    exact tidy.flagged
  · rw [utp_dropPeer]
    exact tidy.reaped
  · intro hash' c listed
    rw [connOwner_dropPeer]
    exact tidy.owned hash' c (listed_dropPeer.mp listed).1
  · intro hash' c listed
    rw [inbound_dropPeer]
    exact tidy.apart hash' c (listed_dropPeer.mp listed).1
  · intro c flag held
    rw [utp_dropPeer]
    exact tidy.live c flag (less c held)
  · intro c opened
    rw [utp_dropPeer] at opened ⊢
    rcases tidy.anchored c opened with (⟨hash', listed⟩ | waits) | accepted
    · refine Or.inl (Or.inl ⟨hash', listed_dropPeer.mpr ⟨listed, ?_⟩⟩)
      rintro ⟨rfl, rfl⟩
      cases opened.symm.trans (shut listed)
    · refine Or.inl (Or.inr ?_)
      rw [inbound_dropPeer]
      exact waits
    · exact Or.inr accepted
  · intro c accepted
    rw [utp_dropPeer] at accepted ⊢
    exact ⟨(tidy.pending c accepted).1, fun held => (tidy.pending c accepted).2 (less c held)⟩
  · rw [utp_dropPeer]
    exact tidy.buried

theorem Tidy.disown (tidy : Tidy host gone l) (unlisted : ∀ hash, ¬ Listed hash conn l) : Tidy host gone (l.disown conn) := by
  refine { tidy with owned := ?_ }
  intro hash c listed
  have other : conn ≠ c := by
    rintro rfl
    exact unlisted hash listed
  exact (get?_erase_ne _ other).trans (tidy.owned hash c listed)

theorem Tidy.disowns (tidy : Tidy host gone l) {conns : List ConnId} (unlisted : ∀ c ∈ conns, ∀ hash, ¬ Listed hash c l) :
    Tidy host gone (conns.foldl (fun l c => l.disown c) l) := by
  induction conns generalizing l with
  | nil => exact tidy
  | cons conn rest ih =>
    apply ih (tidy.disown (unlisted conn List.mem_cons_self))
    exact fun c member => unlisted c (List.mem_cons_of_mem _ member)

theorem disowns_frame (conns : List ConnId) (l : Links H) :
    (conns.foldl (fun l c => l.disown c) l).sessions = l.sessions ∧ (conns.foldl (fun l c => l.disown c) l).utp = l.utp ∧
      (conns.foldl (fun l c => l.disown c) l).tcpClosed = l.tcpClosed ++ conns := by
  induction conns generalizing l with
  | nil => simp
  | cons conn rest ih =>
    obtain ⟨sessions, utp, closed⟩ := ih (l.disown conn)
    rw [List.foldl_cons]
    refine ⟨sessions, utp, ?_⟩
    rw [closed]
    exact List.append_assoc _ _ _

theorem tidy_sweepStale (tidy : Tidy host gone l) : Tidy host gone l.sweepStale := by
  unfold sweepStale
  dsimp only
  apply tidy.disowns
  intro c stale hash listed
  obtain ⟨⟨c', h⟩, kept, rfl⟩ := List.mem_map.mp stale
  obtain ⟨entry, unlisted⟩ := List.mem_filter.mp kept
  have owner : l.connOwner.get? c' = some h := (mem_entries_iff _ _ _).mp entry
  cases owner.symm.trans (tidy.owned hash c' listed)
  obtain ⟨s, found, has⟩ := listed
  rw [found] at unlisted
  have contains : s.peers.contains c' = true := (contains_iff _ _).mpr ((mem_keys_iff _ _).mp has)
  simp [contains] at unlisted

/-! ### A torrent is removed -/

theorem listed_erased {hash hash' : InfoHash} {c : ConnId} :
    Listed hash' c { l with sessions := l.sessions.erase hash } ↔ Listed hash' c l ∧ hash' ≠ hash := by
  unfold Listed
  dsimp only
  rw [get?_erase]
  split
  next same => simp [same]
  next other => simp [Ne.symm other]

theorem stop_frame (stopped : Bool) (conns : List ConnId) (l : Links H) :
    (if stopped then l else conns.foldl (fun l c => l.tcpClose c) l) =
      { l with tcpClosed := l.tcpClosed ++ if stopped then [] else conns } := by
  cases stopped with
  | true => simp
  | false =>
    simp only [Bool.false_eq_true, ↓reduceIte]
    induction conns generalizing l with
    | nil => simp
    | cons conn rest ih =>
      rw [List.foldl_cons, ih]
      simp [Links.tcpClose]

def ownedBy (hash : InfoHash) (l : Links H) : List ConnId :=
  (l.connOwner.entries.filter fun e => decide (e.2 = hash)).map Prod.fst

theorem mem_ownedBy {c : ConnId} : c ∈ l.ownedBy hash ↔ l.connOwner.get? c = some hash := by
  unfold ownedBy
  rw [List.mem_map]
  constructor
  · rintro ⟨⟨c', h⟩, kept, rfl⟩
    obtain ⟨entry, same⟩ := List.mem_filter.mp kept
    cases (of_decide_eq_true same : h = hash)
    exact (mem_entries_iff _ _ _).mp entry
  · intro owner
    exact ⟨(c, hash), List.mem_filter.mpr ⟨(mem_entries_iff _ _ _).mpr owner, by simp⟩, rfl⟩

theorem removeTorrent_eq {s : SessionLinks} (found : l.sessions.get? hash = some s) :
    l.removeTorrent hash = (l.ownedBy hash).foldl (fun l c => l.disown c)
      { l with sessions := l.sessions.erase hash, tcpClosed := l.tcpClosed ++ if s.stopped then [] else s.peers.keys } := by
  unfold removeTorrent
  rw [found]
  dsimp only
  rw [stop_frame]
  rfl

theorem tidy_removeTorrent (tidy : Tidy host gone l)
    (shut : ∀ conn, Listed hash conn l → l.utp.isOpen conn = false) : Tidy host gone (l.removeTorrent hash) := by
  cases found : l.sessions.get? hash with
  | none =>
    unfold removeTorrent
    rw [found]
    exact tidy
  | some s =>
    rw [removeTorrent_eq found]
    have removed : Tidy host gone { l with sessions := l.sessions.erase hash } := by
      have less : ∀ c, Held c { l with sessions := l.sessions.erase hash } → Held c l := fun c =>
        Or.imp_left fun ⟨hash', listed⟩ => ⟨hash', (listed_erased.mp listed).1⟩
      refine { tidy with owned := ?_, apart := ?_, live := ?_, anchored := ?_, pending := ?_ }
      · exact fun hash' c listed => tidy.owned hash' c (listed_erased.mp listed).1
      · exact fun hash' c listed => tidy.apart hash' c (listed_erased.mp listed).1
      · exact fun c flag held => tidy.live c flag (less c held)
      · intro c opened
        rcases tidy.anchored c opened with (⟨hash', listed⟩ | waits) | accepted
        · refine Or.inl (Or.inl ⟨hash', listed_erased.mpr ⟨listed, ?_⟩⟩)
          rintro rfl
          cases opened.symm.trans (shut c listed)
        · exact Or.inl (Or.inr waits)
        · exact Or.inr accepted
      · exact fun c accepted => ⟨(tidy.pending c accepted).1, fun held => (tidy.pending c accepted).2 (less c held)⟩
    have closed : Tidy host gone
        { l with sessions := l.sessions.erase hash, tcpClosed := l.tcpClosed ++ if s.stopped then [] else s.peers.keys } :=
      removed.same (fun _ _ => Iff.rfl) rfl (fun _ => Iff.rfl) rfl
    apply closed.disowns
    intro c mine hash' listed
    have kept : Listed hash' c l ∧ hash' ≠ hash := listed_erased.mp listed
    cases (mem_ownedBy.mp mine).symm.trans (tidy.owned hash' c kept.1)
    exact kept.2 rfl

theorem releases_removeTorrent (tidy : Tidy host gone l)
    (shut : ∀ conn, Listed hash conn l → l.utp.isOpen conn = false) : Releases l (l.removeTorrent hash) := by
  intro hash' conn listed lost
  cases found : l.sessions.get? hash with
  | none =>
    unfold removeTorrent at lost
    rw [found] at lost
    exact absurd listed lost
  | some s =>
    rw [removeTorrent_eq found] at lost ⊢
    obtain ⟨sessions, utp, closed⟩ := disowns_frame (l.ownedBy hash)
      { l with sessions := l.sessions.erase hash, tcpClosed := l.tcpClosed ++ if s.stopped then [] else s.peers.keys }
    have same : hash' = hash := by
      by_contra other
      apply lost
      unfold Listed
      rw [sessions]
      exact listed_erased.mpr ⟨listed, other⟩
    subst same
    unfold Released
    split
    · rw [utp]
      exact shut conn listed
    · rw [closed, List.append_assoc, List.drop_left]
      exact List.mem_append_right _ (mem_ownedBy.mpr (tidy.owned hash' conn listed))

/-! ### A connection leaves all tables -/

theorem Tidy.vanish (tidy : Tidy host gone l) (shut : l.utp.isOpen conn = false) {rest : List ConnId}
    (left : ∀ c ∈ gone, c = conn ∨ c ∈ rest) (sub : ∀ c ∈ rest, c ∈ gone)
    (listed : ∀ hash c, Listed hash c l' ↔ Listed hash c l ∧ c ≠ conn)
    (owner : l'.connOwner = l.connOwner.erase conn) (inbound : l'.inbound = l.inbound.erase conn) (utp : l'.utp = l.utp) :
    Tidy host rest l' := by
  have held : ∀ c, Held c l' ↔ Held c l ∧ c ≠ conn := by
    intro c
    unfold Held
    rw [inbound, mem_keys_erase]
    simp only [listed]
    constructor
    · rintro (⟨hash, has, other⟩ | ⟨other, waits⟩)
      · exact ⟨Or.inl ⟨hash, has⟩, other⟩
      · exact ⟨Or.inr waits, other⟩
    · rintro ⟨⟨hash, has⟩ | waits, other⟩
      · exact Or.inl ⟨hash, has, other⟩
      · exact Or.inr ⟨other, waits⟩
  constructor
  · rw [utp]
    exact tidy.reached
  · rw [utp]
    exact tidy.flagged
  · rw [utp]
    exact tidy.reaped
  · intro hash c has
    obtain ⟨before, other⟩ := (listed hash c).mp has
    rw [owner]
    exact (get?_erase_ne _ (Ne.symm other)).trans (tidy.owned hash c before)
  · intro hash c has waits
    rw [inbound, mem_keys_erase] at waits
    exact tidy.apart hash c ((listed hash c).mp has).1 waits.2
  · intro c flag has
    obtain ⟨before, other⟩ := (held c).mp has
    rw [utp]
    exact (tidy.live c flag before).imp_right fun buried => (left c buried).resolve_left other
  · intro c opened
    rw [utp] at opened ⊢
    have other : c ≠ conn := by
      rintro rfl
      cases opened.symm.trans shut
    exact (tidy.anchored c opened).imp_left fun has => (held c).mpr ⟨has, other⟩
  · intro c accepted
    rw [utp] at accepted ⊢
    exact ⟨(tidy.pending c accepted).1, fun has => (tidy.pending c accepted).2 ((held c).mp has).1⟩
  · intro c buried
    rw [utp]
    exact tidy.buried c (sub c buried)

variable {banned : Bool}

theorem Tidy.attachOutbound (tidy : Tidy host gone l) (free : ¬ Held conn l)
    (unannounced : conn ∉ l.utp.accepted.map Prod.fst) {n : UtpManager} (reached : Reachable host n)
    (flagged : ∀ c ∈ n.conns.keys, isUtpHandle c = true) (reaped : n.reaped = []) (accepted : n.accepted = l.utp.accepted)
    (kept : ∀ c ∈ l.utp.conns.keys, c ∈ n.conns.keys) (buried : ∀ c ∈ gone, c ∉ n.conns.keys)
    (made : isUtpHandle conn = true → conn ∈ n.conns.keys)
    (opens : ∀ c, n.isOpen c = true → l.utp.isOpen c = true ∨ c = conn ∧ banned = false ∧ l.sessions.contains hash = true)
    (addr : NetAddr) (source : DiscoverySource) (now : Nat) :
    Tidy host gone (Links.attachOutbound hash conn addr source banned now { l with utp := n }) := by
  have more : ∀ hash' c, Listed hash' c (Links.attachOutbound hash conn addr source banned now { l with utp := n }) →
      Listed hash' c l ∨ hash = hash' ∧ c = conn := by
    intro hash' c listed
    have cases_ := listed_attachPeer listed
    exact cases_
  have inbound : (Links.attachOutbound hash conn addr source banned now { l with utp := n }).inbound = l.inbound := by
    unfold Links.attachOutbound
    rw [inbound_attachPeer]
  have utp : (Links.attachOutbound hash conn addr source banned now { l with utp := n }).utp = n := by
    unfold Links.attachOutbound
    rw [utp_attachPeer]
  have held : ∀ c, Held c (Links.attachOutbound hash conn addr source banned now { l with utp := n }) → Held c l ∨ c = conn := by
    rintro c (⟨hash', listed⟩ | waits)
    · exact (more hash' c listed).imp (fun before => Or.inl ⟨hash', before⟩) And.right
    · rw [inbound] at waits
      exact Or.inl (Or.inr waits)
  have still : ∀ c, Held c l → Held c (Links.attachOutbound hash conn addr source banned now { l with utp := n }) := by
    rintro c (⟨hash', listed⟩ | waits)
    · refine Or.inl ⟨hash', ?_⟩
      unfold Links.attachOutbound
      apply Listed.attachPeer
      exact listed
    · rw [← inbound] at waits
      exact Or.inr waits
  constructor
  · rw [utp]
    exact reached
  · rw [utp]
    exact flagged
  · rw [utp]
    exact reaped
  · intro hash' c listed
    unfold Links.attachOutbound
    rw [connOwner_attachPeer, get?_insert]
    rcases more hash' c listed with before | ⟨same, here⟩
    · have other : conn ≠ c := by
        rintro rfl
        exact free (Or.inl ⟨hash', before⟩)
      rw [if_neg other]
      exact tidy.owned hash' c before
    · rw [if_pos here.symm, same]
  · intro hash' c listed
    rw [inbound]
    rcases more hash' c listed with before | ⟨-, rfl⟩
    · exact tidy.apart hash' c before
    · exact fun waits => free (Or.inr waits)
  · intro c flag has
    rw [utp]
    rcases held c has with before | rfl
    · exact (tidy.live c flag before).imp_left (kept c)
    · exact Or.inl (made flag)
  · intro c opened
    rw [utp] at opened ⊢
    rw [accepted]
    rcases opens c opened with before | ⟨rfl, rfl, known⟩
    · exact (tidy.anchored c before).imp_left (still c)
    · refine Or.inl (Or.inl ⟨hash, ?_⟩)
      unfold Links.attachOutbound
      apply listed_attached
      exact known
  · intro c announced
    rw [utp] at announced ⊢
    rw [accepted] at announced
    refine ⟨kept c (tidy.pending c announced).1, fun has => ?_⟩
    rcases held c has with before | rfl
    · exact (tidy.pending c announced).2 before
    · exact unannounced announced
  · rw [utp]
    exact buried

theorem Tidy.attachTcp (tidy : Tidy host gone l) (unused : Unused conn l) (hash : InfoHash)
    (addr : NetAddr) (source : DiscoverySource) (banned : Bool) (now : Nat) :
    Tidy host gone (l.attachOutbound hash conn addr source banned now) := by
  have unannounced : conn ∉ l.utp.accepted.map Prod.fst := by
    intro announced
    cases unused.1.symm.trans (tidy.flagged conn (tidy.pending conn announced).1)
  have tcp : isUtpHandle conn = true → conn ∈ l.utp.conns.keys := fun flag => by cases unused.1.symm.trans flag
  exact tidy.attachOutbound unused.2 unannounced tidy.reached tidy.flagged tidy.reaped rfl (fun _ => id) tidy.buried tcp
    (fun _ => Or.inl) addr source now

theorem tidy_dialQueued (tidy : Tidy host [] l) {addr : NetAddr} {source : DiscoverySource} {answer : Result ConnId}
    {now : Nat} (known : l.sessions.contains hash = true) (new : HandsOutNew (.dialQueued hash addr source banned answer) l)
    (welcome : l.cfg.proxied = false → l.udpOpen = true → banned = false) :
    Tidy host [] (l.dialQueued hash addr source banned answer now) := by
  unfold dialQueued
  split
  · exact tidy
  split
  · exact tidy
  split
  next direct =>
    simp only [Bool.and_eq_true, Bool.not_eq_true'] at direct
    have taken := welcome direct.1 direct.2
    split
    · exact tidy
    next conn n dialed =>
      obtain ⟨bears, accepted⟩ := bears_connect dialed
      have flag : isUtpHandle conn = true := decide_eq_true bears.flagged
      have free : ¬ Held conn l := by
        intro held
        rcases tidy.live conn flag held with listed | buried
        · exact bears.fresh listed
        · cases buried
      have unannounced : conn ∉ l.utp.accepted.map Prod.fst := fun announced =>
        bears.fresh (tidy.pending conn announced).1
      apply tidy.attachOutbound free unannounced (.connect tidy.reached addr _ dialed) ?_ (bears.reaped.trans tidy.reaped) accepted
        (fun c before => (bears.keys c).mpr (Or.inr before)) (by simp) (fun _ => (bears.keys conn).mpr (Or.inl rfl))
      · intro c opened
        rcases bears.opens c opened with here | before
        · exact Or.inr ⟨here, taken, known⟩
        · exact Or.inl before
      · intro c listed
        rcases (bears.keys c).mp listed with rfl | before
        · exact flag
        · exact tidy.flagged c before
  next =>
    cases answer with
    | ok conn => exact tidy.attachTcp new hash addr source banned now
    | error e => exact tidy

/-! ### Inbound connections -/

theorem Tidy.wait (tidy : Tidy host gone l) (unused : Unused conn l) (addr : NetAddr) :
    Tidy host gone (l.letIn conn addr) := by
  have held : ∀ c, Held c (l.letIn conn addr) → Held c l ∨ c = conn := by
    rintro c (listed | waits)
    · exact Or.inl (Or.inl listed)
    · rcases (mem_keys_insert _ _ _ _).mp waits with here | before
      · exact Or.inr here
      · exact Or.inl (Or.inr before)
  have still : ∀ c, Held c l → Held c (l.letIn conn addr) := fun c =>
    Or.imp_right fun waits => (mem_keys_insert _ _ _ _).mpr (Or.inr waits)
  refine { tidy with apart := ?_, live := ?_, anchored := ?_, pending := ?_ }
  · intro hash c listed waits
    rcases (mem_keys_insert _ _ _ _).mp waits with rfl | before
    · exact unused.2 (Or.inl ⟨hash, listed⟩)
    · exact tidy.apart hash c listed before
  · intro c flag has
    rcases held c has with before | rfl
    · exact tidy.live c flag before
    · cases unused.1.symm.trans flag
  · exact fun c opened => (tidy.anchored c opened).imp_left (still c)
  · intro c accepted
    refine ⟨(tidy.pending c accepted).1, fun has => ?_⟩
    rcases held c has with before | rfl
    · exact (tidy.pending c accepted).2 before
    · cases unused.1.symm.trans (tidy.flagged c (tidy.pending c accepted).1)

theorem tidy_onInboundConnection (tidy : Tidy host gone l) (unused : Unused conn l) (addr : NetAddr) :
    Tidy host gone (l.onInboundConnection conn addr) := by
  unfold onInboundConnection
  split
  · exact tidy.tcpClose conn
  split
  · exact tidy.tcpClose conn
  split
  · exact tidy.tcpClose conn
  · exact tidy.wait unused addr

theorem Tidy.steady (tidy : Tidy host gone l) {n : UtpManager} (reached : Reachable host n)
    (steady : Steady l.utp n) (udp : H) : Tidy host gone { l with utp := n, udp := udp } where
  reached := reached
  flagged c listed := tidy.flagged c ((steady.keys c).mp listed)
  reaped := steady.reaped.trans tidy.reaped
  owned := tidy.owned
  apart := tidy.apart
  live c flag held := (tidy.live c flag held).imp_left (steady.keys c).mpr
  anchored c opened := by
    dsimp only
    rw [steady.accepted]
    exact tidy.anchored c (steady.opens c opened)
  pending c accepted := by
    dsimp only at accepted
    rw [steady.accepted] at accepted
    exact ⟨(steady.keys c).mpr (tidy.pending c accepted).1, (tidy.pending c accepted).2⟩
  buried c left listed := tidy.buried c left ((steady.keys c).mp listed)

theorem Tidy.streamClose (tidy : Tidy host gone l) (conn : ConnId) : Tidy host gone (l.streamClose conn) := by
  unfold Links.streamClose
  split
  · exact tidy.steady (.close tidy.reached conn) (steady_close l.utp conn) l.udp
  · exact tidy.tcpClose conn

theorem shut_streamClose (tidy : Tidy host gone l) (conn : ConnId) : (l.streamClose conn).utp.isOpen conn = false := by
  unfold Links.streamClose
  split
  · exact isOpen_close l.utp conn
  next tcp => exact tidy.shut_of_tcp (by simpa using tcp)

theorem Tidy.unwait (tidy : Tidy host gone l) (shut : l.utp.isOpen conn = false) :
    Tidy host gone { l with inbound := l.inbound.erase conn } := by
  have less : ∀ c, Held c { l with inbound := l.inbound.erase conn } → Held c l := fun c =>
    Or.imp_right fun waits => ((mem_keys_erase _ _ _).mp waits).2
  refine { tidy with apart := ?_, live := ?_, anchored := ?_, pending := ?_ }
  · exact fun hash c listed waits => tidy.apart hash c listed ((mem_keys_erase _ _ _).mp waits).2
  · exact fun c flag has => tidy.live c flag (less c has)
  · intro c opened
    rcases tidy.anchored c opened with (listed | waits) | accepted
    · exact Or.inl (Or.inl listed)
    · refine Or.inl (Or.inr ((mem_keys_erase _ _ _).mpr ⟨?_, waits⟩))
      rintro rfl
      cases opened.symm.trans shut
    · exact Or.inr accepted
  · exact fun c accepted => ⟨(tidy.pending c accepted).1, fun has => (tidy.pending c accepted).2 (less c has)⟩

theorem Tidy.reject (tidy : Tidy host gone l) (conn : ConnId) :
    Tidy host gone (Links.streamClose conn { l with inbound := l.inbound.erase conn }) := by
  have closed := (tidy.streamClose conn).unwait (shut_streamClose tidy conn)
  have swapped : Links.streamClose conn { l with inbound := l.inbound.erase conn } =
      { l.streamClose conn with inbound := (l.streamClose conn).inbound.erase conn } := by
    unfold Links.streamClose
    split
    · rfl
    · rfl
  rw [swapped]
  exact closed

theorem tidy_recvInbound (conn : ConnId) (results : List (Result Bytes)) (tidy : Tidy host gone l) :
    Tidy host gone (recvInbound conn results l).2 := by
  fun_induction recvInbound conn results l with
  | case1 l => exact tidy
  | case2 tail l => exact tidy
  | case3 data tail l _ full => exact tidy.reject conn
  | case4 data tail l _ fits ih =>
    apply ih
    exact tidy.same (fun _ _ => Iff.rfl) rfl (fun c => mem_keys_modify _ _ _ _) rfl
  | case5 tail l => exact tidy
  | case6 e tail l _ => exact tidy.reject conn

theorem utp_recvInbound (conn : ConnId) (results : List (Result Bytes)) (l : Links H)
    (going : (recvInbound conn results l).1 = true) : (recvInbound conn results l).2.utp = l.utp := by
  fun_induction recvInbound conn results l with
  | case1 l => rfl
  | case2 tail l => rfl
  | case3 data tail l _ full => cases going
  | case4 data tail l _ fits ih => exact ih going
  | case5 tail l => rfl
  | case6 e tail l _ => cases going

theorem sessionFor_known {infoHash : Bytes} (found : l.sessionFor infoHash = some hash) : l.sessions.contains hash = true := by
  have listed : hash ∈ l.sessions.keys := by
    rcases Option.or_eq_some_iff.mp found with exact_ | ⟨-, close⟩
    · exact List.mem_of_find?_eq_some exact_
    · exact List.mem_of_find?_eq_some close
  exact (contains_iff _ _).mpr ((mem_keys_iff _ _).mp listed)

theorem Tidy.handOver (tidy : Tidy host gone l) (waits : conn ∈ l.inbound.keys)
    (known : l.sessions.contains hash = true) (welcome : l.utp.isOpen conn = true → banned = false)
    (addr : NetAddr) (source : DiscoverySource) : Tidy host gone (attachPeer hash conn addr source banned
      { l with inbound := l.inbound.erase conn, connOwner := l.connOwner.insert conn hash }) := by
  have more : ∀ hash' c, Listed hash' c (attachPeer hash conn addr source banned
      { l with inbound := l.inbound.erase conn, connOwner := l.connOwner.insert conn hash }) →
      Listed hash' c l ∨ hash = hash' ∧ c = conn := by
    intro hash' c listed
    have cases_ := listed_attachPeer listed
    exact cases_
  have held : ∀ c, Held c (attachPeer hash conn addr source banned
      { l with inbound := l.inbound.erase conn, connOwner := l.connOwner.insert conn hash }) → Held c l := by
    rintro c (⟨hash', listed⟩ | still)
    · rcases more hash' c listed with before | ⟨-, rfl⟩
      · exact Or.inl ⟨hash', before⟩
      · exact Or.inr waits
    · rw [inbound_attachPeer] at still
      exact Or.inr ((mem_keys_erase _ _ _).mp still).2
  constructor
  · rw [utp_attachPeer]
    exact tidy.reached
  · rw [utp_attachPeer]
    exact tidy.flagged
  · rw [utp_attachPeer]
    exact tidy.reaped
  · intro hash' c listed
    rw [connOwner_attachPeer, get?_insert]
    rcases more hash' c listed with before | ⟨same, here⟩
    · have other : conn ≠ c := by
        rintro rfl
        exact tidy.apart hash' conn before waits
      rw [if_neg other]
      exact tidy.owned hash' c before
    · rw [if_pos here.symm, same]
  · intro hash' c listed still
    rw [inbound_attachPeer, mem_keys_erase] at still
    rcases more hash' c listed with before | ⟨-, here⟩
    · exact tidy.apart hash' c before still.2
    · exact still.1 here
  · intro c flag has
    rw [utp_attachPeer]
    exact tidy.live c flag (held c has)
  · intro c opened
    rw [utp_attachPeer] at opened ⊢
    rcases tidy.anchored c opened with (⟨hash', listed⟩ | waiting) | accepted
    · refine Or.inl (Or.inl ⟨hash', ?_⟩)
      apply Listed.attachPeer
      exact listed
    · by_cases here : c = conn
      · subst here
        refine Or.inl (Or.inl ⟨hash, ?_⟩)
        rw [welcome opened]
        apply listed_attached
        exact known
      · refine Or.inl (Or.inr ?_)
        rw [inbound_attachPeer]
        exact (mem_keys_erase _ _ _).mpr ⟨here, waiting⟩
    · exact Or.inr accepted
  · intro c accepted
    rw [utp_attachPeer] at accepted ⊢
    exact ⟨(tidy.pending c accepted).1, fun has => (tidy.pending c accepted).2 (held c has)⟩
  · rw [utp_attachPeer]
    exact tidy.buried

theorem tidy_routeInbound (tidy : Tidy host gone l)
    (welcome : l.utp.isOpen conn = true → banned = false) : Tidy host gone (l.routeInbound conn banned) := by
  unfold routeInbound
  split
  · exact tidy
  next p waits =>
    split
    · exact tidy
    dsimp only
    split
    · exact tidy.reject conn
    split
    · exact tidy.reject conn
    next found => exact tidy.handOver ((mem_keys_iff _ _).mpr ⟨p, waits⟩) (sessionFor_known found) welcome p.addr .manual

theorem tidy_pumpInbound (tidy : Tidy host gone l) (results : List (Result Bytes))
    (welcome : l.utp.isOpen conn = true → banned = false) : Tidy host gone (l.pumpInbound conn results banned) := by
  have received := tidy_recvInbound conn results tidy
  have utp := utp_recvInbound conn results l
  unfold pumpInbound
  split
  next gone_ =>
    rw [gone_] at received
    exact received
  next going =>
    rw [going] at received utp
    apply tidy_routeInbound received
    rw [utp rfl]
    exact welcome

end Tables
end TypeBit.Links
