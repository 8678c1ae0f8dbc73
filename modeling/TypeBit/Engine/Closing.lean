import TypeBit.DiskCache.Losses
import TypeBit.Engine.Slots

/-! What becomes of dirty data when a session is stopped or a torrent is removed. Both close the session's files
at the host and leave the shared cache alone, so the data is safe exactly when none of it was dirty. -/

namespace TypeBit.Engine
open Metainfo Session DiskCache Wire

structure Watched (H : Type) where
  inner : H
  written : List Cache.Run
  closed : List Nat

section Watching
variable {H : Type}

/-- The host, noting every write that returns Ok and every handle it closes. -/
def watching (host : Host H) : Host (Watched H) where
  diskRead n d o len := ((host.diskRead n.inner d o len).1, { n with inner := (host.diskRead n.inner d o len).2 })
  diskWrite n d o b :=
    match host.diskWrite n.inner d o b with
    | (.ok u, h) => (.ok u, { n with inner := h, written := n.written ++ [⟨d, o, b⟩] })
    | (.error e, h) => (.error e, { n with inner := h })
  diskOpen n path := ((host.diskOpen n.inner path).1, { n with inner := (host.diskOpen n.inner path).2 })
  diskPrealloc n f mode len := { n with inner := host.diskPrealloc n.inner f mode len }
  diskFlush n f := { n with inner := host.diskFlush n.inner f }
  diskClose n f := { n with inner := host.diskClose n.inner f, closed := n.closed ++ [f] }
  httpGetRangeAsync n url start stop timeout :=
    ((host.httpGetRangeAsync n.inner url start stop timeout).1,
      { n with inner := (host.httpGetRangeAsync n.inner url start stop timeout).2 })
  httpGetRange n proxied url start stop timeout :=
    ((host.httpGetRange n.inner proxied url start stop timeout).1,
      { n with inner := (host.httpGetRange n.inner proxied url start stop timeout).2 })

def watchedIo (io : DiskCache.State H) : DiskCache.State (Watched H) := ⟨io.cache, ⟨io.host, [], []⟩⟩

def watched (e : Engine H) : Engine (Watched H) where
  cfg := e.cfg
  peerId := e.peerId
  sessions := e.sessions
  connOwner := e.connOwner
  connecting := e.connecting
  inbound := e.inbound
  io := watchedIo e.io
  trace := e.trace

/-- What closing a session should leave: no dirty entry for a handle that was closed, and every byte that was dirty
for the session's files passed to a write that returned Ok. -/
structure Settled (files : List (Option Nat)) (c : Cache) (after : DiskCache.State (Watched H)) : Prop where
  clean : ∀ f ∈ after.host.closed, ∀ k b, after.cache.dirty.get? k = some b → k.disk ≠ f
  written : ∀ f, some f ∈ files → ∀ p x, InMap c.dirty f p x → InRuns after.host.written f p x

/-- No dirty entry of the cache is for an open file of the session. A stopped session closes nothing, so that there
only the bytes count. -/
def NothingDirty (s : TorrentSession) (c : Cache) : Prop :=
  ∀ k b, c.dirty.get? k = some b → some k.disk ∈ s.files → s.status = .stopped ∧ b = []

variable (host : Host H)

theorem closing_notes (handles : List Nat) (n : Watched H) :
    let after := handles.foldl (fun h f => (watching host).diskClose ((watching host).diskFlush h f) f) n
    after.written = n.written ∧ after.closed = n.closed ++ handles := by
  induction handles generalizing n with
  | nil => exact ⟨rfl, (List.append_nil _).symm⟩
  | cons f tail ih =>
    obtain ⟨written, closed⟩ := ih ((watching host).diskClose ((watching host).diskFlush n f) f)
    refine ⟨written, ?_⟩
    rw [List.foldl_cons, closed]
    exact List.append_assoc n.closed [f] tail

theorem io_emits (effects : List ConnId) (w : World (Watched H)) :
    (effects.foldl (fun w c => w.emit (.closed c)) w).io = w.io ∧
      (effects.foldl (fun w c => w.emit (.closed c)) w).sess = w.sess := by
  induction effects generalizing w with
  | nil => exact ⟨rfl, rfl⟩
  | cons c tail ih => exact ih (w.emit (.closed c))

theorem stop_notes (w : World (Watched H)) :
    (stop (watching host) w).io.cache = w.io.cache ∧
      (stop (watching host) w).io.host.written = w.io.host.written ∧
      (stop (watching host) w).io.host.closed =
        w.io.host.closed ++ if w.sess.status = .stopped then [] else w.sess.files.filterMap id := by
  unfold stop
  split_ifs with stopped
  · exact ⟨rfl, rfl, (List.append_nil _).symm⟩
  · obtain ⟨io, sess⟩ := io_emits (w.emit (.announced .stopped)).sess.peers.keys (w.emit (.announced .stopped))
    dsimp only [World.map, World.setHost]
    rw [io, sess]
    obtain ⟨written, closed⟩ := closing_notes host (w.sess.files.filterMap id) w.io.host
    exact ⟨rfl, written, closed⟩

theorem stop_settled_iff (s : TorrentSession) (io : DiskCache.State H) (trace : List Effect) :
    Settled s.files io.cache (stop (watching host) ⟨s, watchedIo io, trace⟩).io ↔ NothingDirty s io.cache := by
  obtain ⟨cache, written, closed⟩ := stop_notes host ⟨s, watchedIo io, trace⟩
  have unwritten : (stop (watching host) ⟨s, watchedIo io, trace⟩).io.host.written = [] := written
  constructor
  · intro settled k b found mine
    have empty : b = [] := by
      by_contra filled
      obtain ⟨x, tail, rfl⟩ := List.exists_cons_of_ne_nil filled
      have dirty : InMap io.cache.dirty k.disk (wadd k.off 0) x := ⟨k, x :: tail, found, rfl, 0, rfl, rfl⟩
      have lost := settled.written k.disk mine _ x dirty
      rw [unwritten] at lost
      exact inRuns_nil lost
    refine ⟨?_, empty⟩
    by_contra running
    have shut : k.disk ∈ (stop (watching host) ⟨s, watchedIo io, trace⟩).io.host.closed := by
      rw [closed, if_neg running]
      exact List.mem_append_right _ (List.mem_filterMap.mpr ⟨some k.disk, mine, rfl⟩)
    have still : (stop (watching host) ⟨s, watchedIo io, trace⟩).io.cache.dirty.get? k = some b := by
      rw [cache]
      exact found
    exact settled.clean k.disk shut k b still rfl
  · intro nothing
    constructor
    · intro f shut k b still same
      rw [cache] at still
      rw [closed] at shut
      split_ifs at shut with stopped
      · cases shut
      · rcases List.mem_append.mp shut with none | handle
        · cases none
        · obtain ⟨file, open_, found⟩ := List.mem_filterMap.mp handle
          have mine : some k.disk ∈ s.files := by
            rw [same, ← show file = some f from found]
            exact open_
          exact stopped (nothing k b still mine).1
    · intro f mine p x dirty
      obtain ⟨k, b, found, same, i, byte, -⟩ := dirty
      have handle : some k.disk ∈ s.files := by
        rw [show k.disk = f from same]
        exact mine
      have empty := (nothing k b found handle).2
      rw [entryRun, empty] at byte
      cases byte

/-- Exactly when stopping a session, or removing its torrent, settles the dirty data of its files: in every engine
state, when none of it is dirty. -/
theorem closed_files_settled_iff (e : Engine H) (hash : InfoHash) (s : TorrentSession)
    (found : e.sessions.get? hash = some s) :
    (Settled s.files e.io.cache (stop (watching host) (e.watched.world s)).io ↔ NothingDirty s e.io.cache) ∧
      (Settled s.files e.io.cache (e.watched.removeTorrent (watching host) hash).2.io ↔ NothingDirty s e.io.cache) := by
  refine ⟨stop_settled_iff host s e.io [], ?_⟩
  have present : e.watched.sessions.get? hash = some s := found
  unfold removeTorrent
  rw [present]
  exact stop_settled_iff host s e.io []

end Watching

/-! ### A torrent of two files -/

namespace Sample

def twoFiles : Torrent :=
  { Session.Sample.torrent with
    totalSize := 6
    files := [⟨[ascii "a"], 3, none⟩, ⟨[ascii "b"], 3, none⟩] }

def numbering : Host Nat where
  diskRead n _ _ _ := (.ok [], n)
  diskWrite n _ _ _ := (.ok (), n)
  diskOpen n _ := (.ok n, n + 1)
  diskPrealloc n _ _ _ := n
  diskFlush n _ := n
  diskClose n _ := n
  httpGetRangeAsync n _ _ _ _ := (0, n)
  httpGetRange n _ _ _ _ _ := ((.error .io, []), n)

def verifiedPiece : List (Nat × Task Nat) :=
  [(5, .addTorrent twoFiles (ascii ".")), (5, .budget (2 ^ 20)), (5, .call twoFiles.infoHash .start rfl),
    (5, .call twoFiles.infoHash (.discovered NetAddr.unspecified .tracker) rfl),
    (5, .connectQueue twoFiles.infoHash [.ok 1]),
    (5, .pump 1 [.ok (Session.Sample.handshake.encode ++ (Message.bitfield [0x80]).encode ++ Message.unchoke.encode)]),
    (5, .tick twoFiles.infoHash plan),
    (5, .pump 1 [.ok (Message.piece 0 0 [1, 2, 3, 4, 5, 6]).encode]),
    (5, .call twoFiles.infoHash .takePendingVerify rfl),
    (5, .call twoFiles.infoHash (.verified 0 true [1, 2, 3, 4, 5, 6]) rfl)]

def verified : Engine Nat :=
  runTasks Session.Sample.digests numbering verifiedPiece
    (Engine.new ⟨.default, 6881, false, 512, 8⟩ Session.Sample.env.peerId 0 0)

def another : Torrent := { Session.Sample.torrent with infoHash := .v1 (List.replicate 20 8) }

/-- A second torrent is started while the first one's bytes are dirty. -/
def both : Engine Nat :=
  runTasks Session.Sample.digests numbering
    (verifiedPiece ++ [(5, .addTorrent another (ascii ".")), (5, .call another.infoHash .start rfl)])
    (Engine.new ⟨.default, 6881, false, 512, 8⟩ Session.Sample.env.peerId 0 0)

end Sample

/-- The second torrent is removed before it downloads anything, and the dirty bytes are not its own. -/
theorem closed_files_settled_iff_started :
    ∃ s, Sample.both.sessions.get? Sample.another.infoHash = some s ∧ s.files = [some 2] ∧
      Sample.both.io.cache.dirty.entries = [(key 1 0, [4, 5, 6])] ∧
      Settled s.files Sample.both.io.cache
        (Sample.both.watched.removeTorrent (watching Sample.numbering) Sample.another.infoHash).2.io := by
  have facts : (Sample.both.sessions.get? Sample.another.infoHash).map TorrentSession.files = some [some 2] ∧
      Sample.both.io.cache.dirty.entries = [(key 1 0, [4, 5, 6])] := by decide +kernel
  obtain ⟨files, dirty⟩ := facts
  obtain ⟨s, found, handles⟩ := Option.map_eq_some_iff.mp files
  refine ⟨s, found, handles, dirty, (closed_files_settled_iff Sample.numbering Sample.both _ s found).2.mpr ?_⟩
  intro k b held mine
  have member := (OrdMap.mem_entries_iff _ k b).mpr held
  rw [dirty, List.mem_singleton] at member
  cases member
  rw [handles] at mine
  exact absurd mine (by decide)

/-- The second file's bytes are dirty when the torrent is removed, and stay so under its closed handle. -/
theorem removed_torrent_leaves_dirty : ¬ ∀ (host : Host Nat) (e : Engine Nat) (hash : InfoHash) (s : TorrentSession),
    (∃ digests cfg peerId budget h tasks, e = runTasks digests host tasks (Engine.new cfg peerId budget h)) →
    (∀ n d o b, (host.diskWrite n d o b).1 = .ok ()) → e.sessions.get? hash = some s →
    Settled s.files e.io.cache (e.watched.removeTorrent (watching host) hash).2.io := by
  intro always
  have reached : ∃ digests cfg peerId budget h tasks,
      Sample.verified = runTasks digests Sample.numbering tasks (Engine.new cfg peerId budget h) :=
    ⟨_, _, _, _, _, _, rfl⟩
  have after : ((Sample.verified.sessions.get? Sample.twoFiles.infoHash).isSome,
      (Sample.verified.watched.removeTorrent (watching Sample.numbering) Sample.twoFiles.infoHash).2.io.host.closed,
      (Sample.verified.watched.removeTorrent (watching Sample.numbering) Sample.twoFiles.infoHash).2.io.cache.dirty.get? (key 1 0)) =
      (true, [0, 1], some [4, 5, 6]) := by decide +kernel
  simp only [Prod.mk.injEq] at after
  obtain ⟨present, closed, dirty⟩ := after
  obtain ⟨s, found⟩ := Option.isSome_iff_exists.mp present
  have settled := always Sample.numbering Sample.verified _ s reached (fun _ _ _ _ => rfl) found
  have shut : 1 ∈ (Sample.verified.watched.removeTorrent (watching Sample.numbering)
      Sample.twoFiles.infoHash).2.io.host.closed := by
    rw [closed]
    decide
  exact settled.clean 1 shut (key 1 0) [4, 5, 6] dirty rfl

end TypeBit.Engine
