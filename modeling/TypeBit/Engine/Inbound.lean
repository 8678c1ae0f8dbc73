import TypeBit.Engine.Slots

/-! An inbound connection. The engine takes the handshake off its stream, and the session it hands
the connection to waits for another one. No stream of messages holds one, so the peer never becomes
ready, whereas the same stream on an outbound connection does make it ready. -/

namespace TypeBit.Engine
open Metainfo Leech Wire Session OrdMap Option

section Sessions
variable {H : Type} (digests : Digests) (host : Host H)

/-- The session waits for the handshake of a connection whose remaining stream holds only messages. -/
def AwaitsHandshake (conn : ConnId) (messages : List Message) (rest : Bytes) (s : TorrentSession) : Prop :=
  ∀ p, s.peers.get? conn = some p → p.phase = .handshake ∧ p.handshakeBuf ++ rest = encodeAll messages

theorem awaits_onData (env : Env) {conn : ConnId} {messages : List Message} {data rest : Bytes} {w : World H}
    (awaits : AwaitsHandshake conn messages (data ++ rest) w.sess) :
    AwaitsHandshake conn messages rest (onData digests host env conn data w).sess := by
  unfold onData
  split
  · rename_i absent
    intro p found
    rw [absent] at found
    cases found
  · rename_i peer found
    obtain ⟨phase, stream⟩ := awaits peer found
    dsimp only
    rw [if_pos phase]
    unfold onHandshakeData
    split
    · have split : (peer.handshakeBuf ++ data).take HANDSHAKE_LEN ++
          ((peer.handshakeBuf ++ data).drop HANDSHAKE_LEN ++ rest) = encodeAll messages := by
        rw [← List.append_assoc, List.take_append_drop, List.append_assoc, stream]
      split
      · intro p still
        rw [(dropPeer_letGo env conn _).peers, get?_erase_self] at still
        cases still
      · rename_i their parsed
        exact absurd parsed (Handshake.parse_messages split their)
    · intro p still
      simp only [World.mapPeer, World.map, get?_modify, if_true, found, map_some,
        some.injEq] at still
      subst still
      exact ⟨phase, (List.append_assoc _ _ _).trans stream⟩

theorem awaits_attachPeer (env : Env) {conn : ConnId} {messages : List Message} {rest : Bytes} (addr : NetAddr)
    (outbound : Bool) (source : DiscoverySource) {w : World H} (absent : w.sess.peers.get? conn = none)
    (stream : rest = encodeAll messages) :
    AwaitsHandshake conn messages rest (attachPeer env conn addr outbound source w).sess := by
  unfold attachPeer
  split
  · intro p found
    rw [show (w.emit (.closed conn)).sess = w.sess from rfl, absent] at found
    cases found
  · intro p found
    simp only [World.map, get?_insert_self, some.injEq] at found
    subst found
    exact ⟨rfl, stream⟩

end Sessions

/-! ### The two pumps -/

section Pumps
variable {H : Type} (digests : Digests) (host : Host H)

/-- Nobody has the handshake of this connection to act on: while it waits the engine buffers it, and the
session that gets the connection is only sent what follows. -/
structure Unready (conn : ConnId) (h : Handshake) (messages : List Message) (rest : Bytes) (e : Engine H) : Prop where
  attached : ∀ hash s, e.sessions.get? hash = some s →
    AwaitsHandshake conn messages rest s ∧ (e.connOwner.get? conn ≠ some hash → s.peers.get? conn = none)
  waiting : ∀ q, e.inbound.get? conn = some q →
    e.connOwner.get? conn = none ∧ q.buf ++ rest = h.encode ++ encodeAll messages

variable {conn : ConnId} {h : Handshake} {messages : List Message} {rest : Bytes} {e : Engine H}

theorem Unready.absent (unready : Unready conn h messages rest e) (unowned : e.connOwner.get? conn = none)
    {hash : InfoHash} {s : TorrentSession} (found : e.sessions.get? hash = some s) : s.peers.get? conn = none := by
  refine (unready.attached hash s found).2 ?_
  rw [unowned]
  exact nofun

theorem Unready.of_unowned {more : Bytes} {u : Engine H} (unready : Unready conn h messages more e)
    (unowned : e.connOwner.get? conn = none) (sessions : u.sessions = e.sessions) (owner : u.connOwner = e.connOwner)
    (waiting : ∀ q, u.inbound.get? conn = some q → q.buf ++ rest = h.encode ++ encodeAll messages) :
    Unready conn h messages rest u := by
  have still : u.connOwner.get? conn = none := owner ▸ unowned
  refine ⟨?_, fun q found => ⟨still, waiting q found⟩⟩
  intro hash s found
  rw [sessions] at found
  have missing := unready.absent unowned found
  refine ⟨?_, fun _ => missing⟩
  intro p present
  rw [missing] at present
  cases present

theorem unready_onData {hash : InfoHash} {data : Bytes} (env : Env) (owned : e.connOwner.get? conn = some hash)
    (unready : Unready conn h messages (data ++ rest) e) :
    Unready conn h messages rest (e.onSession hash (onData digests host env conn data)) := by
  refine ⟨?_, ?_⟩
  · intro k s found
    rw [get?_onSession] at found
    rw [connOwner_onSession, owned]
    split_ifs at found with same
    · subst same
      obtain ⟨before, present, rfl⟩ := map_eq_some_iff.mp found
      refine ⟨?_, fun other => absurd rfl other⟩
      exact awaits_onData digests host env (w := e.world before) (unready.attached hash before present).1
    · have other : e.connOwner.get? conn ≠ some k := by
        rw [owned]
        exact fun equal => same (some.inj equal)
      have missing := (unready.attached k s found).2 other
      refine ⟨?_, fun _ => missing⟩
      intro p present
      rw [missing] at present
      cases present
  · intro q found
    rw [inbound_onSession] at found
    have unowned := (unready.waiting q found).1
    rw [owned] at unowned
    cases unowned

theorem unready_pumpConnection {hash : InfoHash} (now : Nat) {chunks : List Bytes} (filled : ∀ c ∈ chunks, c ≠ [])
    (owned : e.connOwner.get? conn = some hash) (unready : Unready conn h messages (chunks.flatten ++ rest) e) :
    Unready conn h messages rest (e.pumpConnection digests host conn hash now (chunks.map .ok)) := by
  induction chunks generalizing e with
  | nil => exact unready
  | cons data tail ih =>
    obtain ⟨head, others⟩ := List.forall_mem_cons.mp filled
    cases data with
    | nil => exact absurd rfl head
    | cons b bytes =>
      refine ih others ?_ ?_
      · rw [connOwner_onSession, owned]
      · refine unready_onData digests host _ owned ?_
        rwa [List.flatten_cons, List.append_assoc] at unready

theorem unready_recvInbound {chunks : List Bytes} (filled : ∀ c ∈ chunks, c ≠ [])
    (unowned : e.connOwner.get? conn = none) (unready : Unready conn h messages (chunks.flatten ++ rest) e) :
    Unready conn h messages rest (recvInbound conn (chunks.map .ok) e).2 ∧
      (recvInbound conn (chunks.map .ok) e).2.connOwner = e.connOwner := by
  induction chunks generalizing e with
  | nil => exact ⟨unready, rfl⟩
  | cons data tail ih =>
    obtain ⟨head, others⟩ := List.forall_mem_cons.mp filled
    rw [List.map_cons, recvInbound]
    · split
      · refine ⟨unready.of_unowned unowned rfl rfl ?_, rfl⟩
        intro q found
        rw [get?_erase_self] at found
        cases found
      · refine ih others unowned (unready.of_unowned unowned rfl rfl ?_)
        intro q found
        rw [get?_modify, if_pos rfl] at found
        obtain ⟨before, present, rfl⟩ := map_eq_some_iff.mp found
        have stream := (unready.waiting before present).2
        rw [List.flatten_cons, List.append_assoc] at stream
        exact (List.append_assoc _ _ _).trans stream
    · exact head

theorem unready_routeInbound (now : Nat) (unowned : e.connOwner.get? conn = none)
    (unready : Unready conn h messages rest e) :
    Unready conn h messages rest (e.routeInbound digests host conn now) := by
  have gone : Unready conn h messages rest { e with inbound := e.inbound.erase conn } := by
    refine unready.of_unowned unowned rfl rfl ?_
    intro q found
    rw [get?_erase_self] at found
    cases found
  unfold routeInbound
  split
  · exact unready
  · rename_i q found
    split
    · exact unready
    · rename_i long
      dsimp only
      split
      · exact gone
      · split
        · exact gone
        · rename_i hash named
          -- the leftover is what the stream holds after the handshake
          have stream : q.buf.drop HANDSHAKE_LEN ++ rest = encodeAll messages := by
            have cut := congrArg (List.drop HANDSHAKE_LEN) (unready.waiting q found).2
            rwa [List.drop_append_of_le_length (by omega), ← Handshake.length_encode h, List.drop_left,
              Handshake.length_encode h] at cut
          have handed : Unready conn h messages (q.buf.drop HANDSHAKE_LEN ++ rest)
              (({ e with inbound := e.inbound.erase conn, connOwner := e.connOwner.insert conn hash } : Engine H).onSession
                hash (attachPeer (e.env now) conn q.addr false .manual)) := by
            refine ⟨?_, ?_⟩
            · intro k s present
              rw [get?_onSession] at present
              rw [connOwner_onSession, get?_insert_self]
              split_ifs at present with same
              · subst same
                obtain ⟨before, there, rfl⟩ := map_eq_some_iff.mp present
                refine ⟨?_, fun other => absurd rfl other⟩
                exact awaits_attachPeer (e.env now) q.addr false .manual (unready.absent unowned there) stream
              · have missing := unready.absent unowned present
                refine ⟨?_, fun _ => missing⟩
                intro p attached
                rw [missing] at attached
                cases attached
            · intro r waiting
              rw [inbound_onSession, get?_erase_self] at waiting
              cases waiting
          split
          · rename_i empty
            rw [empty] at handed
            exact handed
          · refine unready_onData digests host _ ?_ handed
            rw [connOwner_onSession, get?_insert_self]

end Pumps

/-! ### A connection from its first byte to its last -/

section Streams
variable {H : Type} (digests : Digests) (host : Host H)

/-- One round of the engine on a connection: its session, or else the engine, receives the chunks. -/
def hear (conn : ConnId) (e : Engine H) (round : Nat × List Bytes) : Engine H :=
  match e.connOwner.get? conn with
  | some _ => perform digests host round.1 (.pump conn (round.2.map .ok)) e
  | none => perform digests host round.1 (.inbound conn (round.2.map .ok)) e

def hearDialled (conn : ConnId) (hash : InfoHash) (addr : NetAddr) (source : DiscoverySource) (now : Nat)
    (rounds : List (Nat × List Bytes)) (e : Engine H) : Engine H :=
  rounds.foldl (hear digests host conn)
    (({ e with inbound := e.inbound.erase conn } : Engine H).attachOutbound hash conn addr source now)

/-- An inbound connection that was just accepted. -/
structure Arriving (conn : ConnId) (addr : NetAddr) (e : Engine H) : Prop where
  waiting : e.inbound.get? conn = some ⟨addr, []⟩
  unowned : e.connOwner.get? conn = none
  unknown : ∀ hash s, e.sessions.get? hash = some s → s.peers.get? conn = none

def peerAt (hash : InfoHash) (conn : ConnId) (e : Engine H) : Option Peer :=
  (e.sessions.get? hash).bind (fun s => s.peers.get? conn)

def streamState (p : Peer) : Peer :=
  { p with source := .manual, connectedAt := 0, downTotal := 0, lastActive := 0, lastDataIn := 0, lastRealAt := 0, out := [] }

/-- The connection is ready in one engine, and stands with its session as in the other. -/
def ReadyAlike (conn : ConnId) (hash : InfoHash) (e u : Engine H) : Prop :=
  ∃ s t p q, e.sessions.get? hash = some s ∧ u.sessions.get? hash = some t ∧
    s.peers.get? conn = some p ∧ t.peers.get? conn = some q ∧ p.phase = .ready ∧
    streamState p = streamState q ∧ s.pieces = t.pieces

variable {conn : ConnId} {h : Handshake} {messages : List Message} {rest : Bytes} {e : Engine H}

theorem unready_hear {round : Nat × List Bytes} (filled : ∀ c ∈ round.2, c ≠ [])
    (unready : Unready conn h messages (round.2.flatten ++ rest) e) :
    Unready conn h messages rest (hear digests host conn e round) := by
  unfold hear perform
  split
  · rename_i hash owned
    dsimp only
    rw [owned]
    exact unready_pumpConnection digests host round.1 filled owned unready
  · rename_i unowned
    have received := unready_recvInbound filled unowned unready
    dsimp only
    unfold pumpInbound
    split
    · rename_i u lost
      rw [lost] at received
      exact received.1
    · rename_i u kept
      rw [kept] at received
      refine unready_routeInbound digests host round.1 ?_ received.1
      exact (congrArg (get? · conn) received.2).trans unowned

theorem unready_rounds {rounds : List (Nat × List Bytes)} (filled : ∀ r ∈ rounds, ∀ c ∈ r.2, c ≠ [])
    (unready : Unready conn h messages ((rounds.flatMap Prod.snd).flatten) e) :
    Unready conn h messages [] (rounds.foldl (hear digests host conn) e) := by
  induction rounds generalizing e with
  | nil => exact unready
  | cons r tail ih =>
    obtain ⟨first, others⟩ := List.forall_mem_cons.mp filled
    rw [List.flatMap_cons, List.flatten_append] at unready
    exact ih others (unready_hear digests host first unready)

theorem Arriving.unready {addr : NetAddr} {stream : Bytes} (arriving : Arriving conn addr e)
    (whole : stream = h.encode ++ encodeAll messages) : Unready conn h messages stream e := by
  refine ⟨?_, ?_⟩
  · intro hash s found
    have missing := arriving.unknown hash s found
    refine ⟨?_, fun _ => missing⟩
    intro p present
    rw [missing] at present
    cases present
  · intro q found
    rw [arriving.waiting] at found
    cases found
    exact ⟨arriving.unowned, whole⟩

/-- In any chunking of a handshake and messages, an accepted connection never gets to where the same stream
gets a dialled one: it is not ready when the stream ends. -/
theorem inbound_never_ready {addr : NetAddr} {rounds : List (Nat × List Bytes)} (arriving : Arriving conn addr e)
    (filled : ∀ r ∈ rounds, ∀ c ∈ r.2, c ≠ [])
    (stream : (rounds.flatMap Prod.snd).flatten = h.encode ++ encodeAll messages)
    (hash : InfoHash) (source : DiscoverySource) (now : Nat) :
    ¬ ReadyAlike conn hash (rounds.foldl (hear digests host conn) e)
      (hearDialled digests host conn hash addr source now rounds e) := by
  rintro ⟨s, t, p, q, found, _, attached, _, ready, _, _⟩
  have unready := unready_rounds digests host filled (arriving.unready stream)
  have phase := ((unready.attached hash s found).1 p attached).1
  rw [ready] at phase
  cases phase

end Streams

/-! ### One stream, accepted and dialled -/

namespace Sample

def arrival : List (Nat × Task Unit) :=
  [(5, .addTorrent Session.Sample.torrent (ascii ".")), (5, starting),
    (5, .incoming 1 NetAddr.unspecified)]

def arrived : Engine Unit := runTasks Session.Sample.digests Session.Sample.host arrival engine

/-- The peer sends its handshake, and then that it has the piece and lets us ask for it. -/
def greeting : List (Nat × List Bytes) :=
  [(6, [Session.Sample.handshake.encode]), (7, [(Message.bitfield [0x80]).encode ++ Message.unchoke.encode])]

theorem arriving : Arriving 1 NetAddr.unspecified arrived := by
  refine ⟨by decide, by decide, ?_⟩
  intro hash s found
  have only : arrived.sessions.entries.all (fun e => (e.2.peers.get? 1).isNone) = true := by decide
  have member := List.all_eq_true.mp only _ ((mem_entries_iff _ hash s).mpr found)
  exact isNone_iff_eq_none.mp member

end Sample

/-- The greeting of that peer, with its handshake and the two messages apart. -/
theorem inbound_never_ready_greeted :
    ¬ ReadyAlike 1 Session.Sample.torrent.infoHash
      (Sample.greeting.foldl (hear Session.Sample.digests Session.Sample.host 1) Sample.arrived)
      (hearDialled Session.Sample.digests Session.Sample.host 1 Session.Sample.torrent.infoHash NetAddr.unspecified
        .tracker 5 Sample.greeting Sample.arrived) := by
  have stream : (Sample.greeting.flatMap Prod.snd).flatten =
      Session.Sample.handshake.encode ++ encodeAll [.bitfield [0x80], .unchoke] := by decide
  exact inbound_never_ready _ _ Sample.arriving (by decide) stream _ _ _

/-- The engine knows the torrent, and a dialled peer is ready after that greeting; the accepted one still
waits for a handshake. -/
theorem accepted_peer_awaits_handshake :
    let dialled := hearDialled Session.Sample.digests Session.Sample.host 1 Session.Sample.torrent.infoHash
      NetAddr.unspecified .tracker 5 Sample.greeting Sample.arrived
    let accepted := Sample.greeting.foldl (hear Session.Sample.digests Session.Sample.host 1) Sample.arrived
    Sample.arrived.sessionFor Session.Sample.handshake.infoHash = some Session.Sample.torrent.infoHash ∧
      (peerAt Session.Sample.torrent.infoHash 1 dialled).map Peer.phase = some .ready ∧
      (peerAt Session.Sample.torrent.infoHash 1 accepted).map Peer.phase = some .handshake ∧
      ¬ ReadyAlike 1 Session.Sample.torrent.infoHash accepted dialled := by
  have awaits : (peerAt Session.Sample.torrent.infoHash 1
      (Sample.greeting.foldl (hear Session.Sample.digests Session.Sample.host 1) Sample.arrived)).map Peer.phase =
      some .handshake := by decide
  refine ⟨by decide, by decide, awaits, ?_⟩
  rintro ⟨s, t, p, q, found, _, attached, _, ready, _, _⟩
  simp only [peerAt, found, bind_some, attached, map_some, ready] at awaits
  cases awaits

end TypeBit.Engine
