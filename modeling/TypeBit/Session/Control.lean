import TypeBit.Session.Metadata

/-! What the user and the engine ask of a session: priorities, starting and stopping, restoring a
saved state, and the choke decisions. -/

namespace TypeBit.Session
open Metainfo Leech Wire RateLimit

/-! ### Priorities -/

def setFilePriority (file : Nat) (prio : FilePriority) (s : TorrentSession) : Result Unit × TorrentSession :=
  match s.torrent with
  | none => (.error .notFound, s)
  | some t =>
      if file ≥ t.files.length then (.error .range, s)
      else
        let grown := s.cfg.filePriorities ++ List.replicate (file + 1 - s.cfg.filePriorities.length) .normal
        (.ok (), { recomputePriorities { s with cfg := { s.cfg with filePriorities := grown.set file prio } } with
          filesNeedReopen := true })

def setHoldData (hold : Bool) (s : TorrentSession) : TorrentSession :=
  { recomputePriorities { s with holdDataUntilPriorities := hold } with filesNeedReopen := true }

def setFilePriorities (priorities : List FilePriority) (s : TorrentSession) : Result Unit × TorrentSession :=
  match s.torrent with
  | none => (.error .notFound, s)
  | some t =>
      let s := { recomputePriorities { s with
        cfg := { s.cfg with filePriorities := priorities.take (min priorities.length t.files.length) }
        holdDataUntilPriorities := false } with filesNeedReopen := true }
      if s.status = .failed then (.ok (), s)
      else (.ok (), refreshCompletion { s with status := if s.selectedPieceCount = 0 then .seeding else .downloading })

def filePriorityFromU8 (b : UInt8) : FilePriority := if b = 0 then .skip else if b = 2 then .high else .normal

def applySavedState (haveBytes priorities : Bytes) (uploadLimitBps downloadLimitBps : Nat)
    (reputation : Option ReputationStore) (now : Nat) (s : TorrentSession) : Result Unit × TorrentSession :=
  match s.pieces.setHaveFromBytes haveBytes s.pieces.pieceCount with
  | .error e => (.error e, s)
  | .ok pieces =>
      let s := { s with pieces := pieces }
      let restored : Result TorrentSession :=
        if priorities = [] then .ok s
        else match s.torrent with
          | none => .error .notFound
          | some t =>
              .ok (recomputePriorities { s with cfg := { s.cfg with
                filePriorities := (priorities.take (min priorities.length t.files.length)).map filePriorityFromU8 } })
      match restored with
      | .error e => (.error e, s)
      | .ok s =>
          let s := match reputation with
            | some r => { s with reputation := r.sweep now }
            | none => s
          (.ok (), refreshCompletion { s with
            cfg := { s.cfg with uploadLimitBps := uploadLimitBps, downloadLimitBps := downloadLimitBps }
            uploadLimit := s.uploadLimit.setRate uploadLimitBps now
            downloadLimit := s.downloadLimit.setRate downloadLimitBps now })

section Control
variable {H : Type} (host : Host H) (env : Env)

def start (w : World H) : Result Unit × World H :=
  if w.sess.status = .downloading ∨ w.sess.status = .seeding then (.ok (), w)
  else
    let w := w.map (fun s => refreshCompletion { s with
      status := if s.torrent.isNone then .fetchingMetadata else if s.selectedPieceCount = 0 then .seeding else .downloading
      startedAt := env.now
      announceAt := env.now })
    match openFiles host w with
    | (.error e, w) => (.error e, w)
    | (.ok _, w) => (.ok (), w.map (fun s => { s with pendingStartedAnnounce := true }))

def started (env : Env) (s : TorrentSession) : TorrentSession :=
  refreshCompletion { s with
    status := if s.torrent.isNone then .fetchingMetadata else if s.selectedPieceCount = 0 then .seeding else .downloading
    startedAt := env.now
    announceAt := env.now }

theorem start_eq (w : World H) :
    start host env w = if w.sess.status = .downloading ∨ w.sess.status = .seeding then (.ok (), w)
      else match openFiles host (w.map (started env)) with
        | (.error e, w) => (.error e, w)
        | (.ok _, w) => (.ok (), w.map (fun s => { s with pendingStartedAnnounce := true })) := rfl

def pause (w : World H) : World H :=
  if w.sess.status = .paused then w
  else
    let w := (w.map (fun s => { s with status := .paused })).emit (.announced .stopped)
    w.sess.peers.keys.foldl (fun w c => dropPeer env c w) w

def resume (w : World H) : World H :=
  if w.sess.status ≠ .paused then w
  else w.map (fun s => { refreshCompletion { s with status := .downloading } with
    announceAt := env.now, pendingStartedAnnounce := true })

def stop (w : World H) : World H :=
  if w.sess.status = .stopped then w
  else
    let w := w.emit (.announced .stopped)
    let w := w.sess.peers.keys.foldl (fun w c => w.emit (.closed c)) w
    let h := (w.sess.files.filterMap id).foldl (fun h f => host.diskClose (host.diskFlush h f) f) w.io.host
    (w.setHost h).map (fun s => { s with peers := ∅, files := [], status := .stopped })

def reopenFiles (w : World H) : World H :=
  match openFiles host w with
  | (.ok _, w) => w
  | (.error _, w) => w.map (fun s => { s with status := .failed })

def announceDue (w : World H) : World H :=
  if w.sess.pendingStartedAnnounce then
    (w.map (fun s => { s with pendingStartedAnnounce := false })).emit (.announced .started)
  else if env.now ≥ w.sess.announceAt then w.emit (.announced .none)
  else w

def housekeeping (s : TorrentSession) : TorrentSession :=
  { s with
    bans := s.bans.sweep env.now
    reputation := s.reputation.sweep env.now
    endgame := s.endgame || (decide (s.selectedPieceCount > 0) &&
      decide (s.selectedPieceCount - s.pieces.haveCount ≤ s.cfg.endgamePieces)) }

def applyUnchoke (now : Nat) (unchoke : List ConnId) (s : TorrentSession) : TorrentSession :=
  { s with
    peers := s.peers.mapValues (fun c p =>
      let p := p.refreshSnub now s.cfg.leech.snubTimeoutMs
      let choking := !unchoke.contains c
      let p := if p.amChoking = choking then p
        else { p with amChoking := choking }.send (if choking then .choke else .unchoke)
      let want := p.shouldBeInterested s.pieces.haveBits s.piecePriorities
      let told := if want ≠ p.amInterested ∧ p.phase = .ready then
        p.send (if want then .interested else .notInterested) else p
      { told with amInterested := want }) }

def evict (conn : ConnId) (w : World H) : World H :=
  match w.sess.peers.get? conn with
  | none => w
  | some p =>
      let w := if p.rep.corruptBlocks > 0 ∨ p.snubbed = true then
        w.map (fun s => { s with reputation := s.reputation.noteViolation p.addr p.peerId env.now }) else w
      dropPeer env conn w

end Control
end TypeBit.Session
