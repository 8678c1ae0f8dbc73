import TypeBit.Session.Disk
import TypeBit.Picker

/-! The request pipeline: asking peers for blocks, cancelling and timing out what was asked, and
serving what they ask of us. -/

namespace TypeBit.Session
open Metainfo Leech Wire RateLimit

def wsub32 (a b : Nat) : Nat := if b ≤ a then a - b else 2 ^ 32 - (b - a)

def MAX_PEER_OUT_BUF : Nat := 512 * 1024

def PIPELINE_TIMEOUT_GRACE_MS : Nat := 250

def cancelLength (s : TorrentSession) (piece block : Nat) : Nat :=
  match s.torrent with
  | none => BLOCK_LEN
  | some t =>
      match t.pieceInfo piece with
      | .ok info => min BLOCK_LEN (wsub32 info.len (block * BLOCK_LEN))
      | .error _ => BLOCK_LEN

section Requests
variable {H : Type} (host : Host H) (env : Env)

def committed (s : TorrentSession) (p : Peer) : Option Nat :=
  p.currentPiece.filter (fun i => !s.pieces.isHave i && decide (0 < s.piecePriorities.getD i 1))

def pickOptions (s : TorrentSession) : Picker.PickOptions := ⟨s.endgame, decide (s.scheduler.goal = .streaming)⟩

def pieceFor (s : TorrentSession) (p : Peer) : Option Nat :=
  match committed s p with
  | some i => some i
  | none =>
      Picker.pickPiece s.pieces s.scheduler.utility s.availability p.haveBits p.haveAll s.piecePriorities (pickOptions s)

def issueRequest (conn : ConnId) (piece block totalBlocks len : Nat) (w : World H) : World H :=
  let k := blockKey piece block
  let w := w.map (fun s => { s with
    downloadLimit := (s.downloadLimit.consume len env.now).2
    pieces := s.pieces.markBlockRequested piece block totalBlocks
    requestedBy := s.requestedBy.insert k ((s.requestedBy.get? k).getD [] ++ [conn])
    requestedAt := s.requestedAt.insert k env.now })
  let w := w.mapCache (fun c => (c.tickDownConsume len).inflightInc)
  w.mapPeer conn (fun p =>
    { p with requestsInFlight := p.requestsInFlight + 1 }.send (.request piece (block * BLOCK_LEN) len))

def fillLoop (conn : ConnId) : Nat → World H → World H
  | 0, w => w
  | guard + 1, w =>
      match w.sess.peers.get? conn with
      | none => w
      | some p =>
          if !(p.amInterested && !p.peerChoking && decide (p.requestsInFlight < p.maxPipeline)) then w
          else match pieceFor w.sess p with
            | none => w
            | some piece =>
                let w := if (committed w.sess p).isSome then w
                  else w.mapPeer conn (fun p => { p with currentPiece := some piece })
                match w.sess.torrent.bind (fun t => (t.pieceInfo piece).toOption) with
                | none => fillLoop conn guard (w.mapPeer conn (fun p => { p with currentPiece := none }))
                | some info =>
                    match Picker.pickBlock w.sess.pieces piece (blockCountFor info.len) true with
                    | none => fillLoop conn guard (w.mapPeer conn (fun p => { p with currentPiece := none }))
                    | some block =>
                        let len := min BLOCK_LEN (wsub32 info.len (block * BLOCK_LEN))
                        let (avail, bucket) := w.sess.downloadLimit.available env.now
                        let w := w.map (fun s => { s with downloadLimit := bucket })
                        if avail < len then w
                        else if w.io.cache.tickDownBudget < len then w
                        else if !w.io.cache.inflightAvailable then w
                        else fillLoop conn guard (issueRequest env conn piece block (blockCountFor info.len) len w)

def fillPipeline (conn : ConnId) (w : World H) : World H := fillLoop env conn 512 w

def cancelRequester (piece block : Nat) (w : World H) (c : ConnId) : World H :=
  (w.mapPeer c (fun p =>
    { p.send (.cancel piece (block * BLOCK_LEN) (cancelLength w.sess piece block)) with
      requestsInFlight := p.requestsInFlight - 1 })).inflightDec

def cancelSkipped (w : World H) (k : BlockKey) : World H :=
  match w.sess.requestedBy.get? k with
  | none => w
  | some reqs =>
      let w := w.map (fun s => { s with requestedBy := s.requestedBy.erase k })
      let w := reqs.foldl (cancelRequester (ofLex k).1 (ofLex k).2) w
      w.map (fun s => s.releaseBlock k)

def cancelSkippedPieceRequests (w : World H) : World H :=
  let w := w.map (fun s => { s with requestsNeedPrioritySweep := false })
  let skipped := w.sess.requestedBy.keys.filter (fun k => decide (w.sess.piecePriorities.getD (ofLex k).1 1 ≤ 0))
  skipped.foldl cancelSkipped w

def timeoutRequester (piece block maxTimeouts : Nat) (acc : World H × List ConnId) (c : ConnId) : World H × List ConnId :=
  let w := acc.1.mapPeer c (fun p =>
    { p.send (.cancel piece (block * BLOCK_LEN) (cancelLength acc.1.sess piece block)) with
      requestsInFlight := p.requestsInFlight - 1
      requestsTimedOut := satAdd32 p.requestsTimedOut 1 })
  let excess := match w.sess.peers.get? c with
    | some p => decide (p.requestsTimedOut ≥ maxTimeouts)
    | none => false
  (w.inflightDec, if excess then acc.2 ++ [c] else acc.2)

def timeoutBlock (maxTimeouts : Nat) (acc : World H × List ConnId) (k : BlockKey) : World H × List ConnId :=
  match acc.1.sess.requestedBy.get? k with
  | none => acc
  | some reqs =>
      let (w, toBan) := reqs.foldl (timeoutRequester (ofLex k).1 (ofLex k).2 maxTimeouts) acc
      ((w.map (fun s => { s with requestedBy := s.requestedBy.erase k })).map (fun s => s.releaseBlock k), toBan)

def banTimedOut (w : World H) (c : ConnId) : World H :=
  match w.sess.peers.get? c with
  | none => w
  | some p =>
      banPeer env c p.addr .timeout
        (w.map (fun s => { s with reputation := s.reputation.noteViolation p.addr p.peerId env.now }))

def effectiveTimeout (cfg : SessionConfig) : Nat :=
  satAdd (max cfg.requestTimeoutMs 1000) (wmul cfg.requestPipeline PIPELINE_TIMEOUT_GRACE_MS)

def sweepRequestTimeouts (w : World H) : World H :=
  let stale := (w.sess.requestedAt.entries.filter (fun e =>
    decide (env.now - e.2 ≥ effectiveTimeout w.sess.cfg))).map Prod.fst
  let (w, toBan) := stale.foldl (timeoutBlock (max w.sess.cfg.maxRequestTimeouts 1)) (w, [])
  (toBan.insertionSort (· ≤ ·)).dedup.foldl (banTimedOut env) w

def structurallyBad (t : Torrent) (index start length : Nat) : Bool :=
  match t.pieceInfo index with
  | .error _ => true
  | .ok info =>
      decide (length = 0) || decide (length > BLOCK_LEN) || decide (start % BLOCK_LEN ≠ 0) ||
        decide (start + length > info.len)

def rejectRequest (conn : ConnId) (index start length : Nat) (w : World H) : World H :=
  w.mapPeer conn (fun p => if p.fast then p.send (.reject index start length) else p)

def onRequest (conn : ConnId) (index start length : Nat) (w : World H) : Result Unit × World H :=
  match w.sess.torrent with
  | none => (.ok (), w)
  | some t =>
      match w.sess.peers.get? conn with
      | none => (.ok (), w)
      | some peer =>
          if structurallyBad t index start length then
            let w := w.mapPeer conn (fun p => { p with invalidRequests := p.invalidRequests + 1 })
            if peer.invalidRequests + 1 ≥ w.sess.cfg.leech.invalidRequestThreshold then (.error .protocol, w)
            else (.ok (), rejectRequest conn index start length w)
          else
            let w := w.mapPeer conn (fun p => { p with lastRequestAt := env.now, lastRealAt := env.now })
            if !w.sess.pieces.isHave index || peer.amChoking then (.ok (), rejectRequest conn index start length w)
            else if peer.out.length ≥ MAX_PEER_OUT_BUF then (.ok (), rejectRequest conn index start length w)
            else match t.pieceAbsOffset index with
              | .error e => (.error e, w)
              | .ok abs =>
                  match readAbs host (wadd abs start) length w with
                  | (.error e, w) => (.error e, w)
                  | (.ok buf, w) =>
                      if buf.length ≠ length then (.ok (), w)
                      else
                        (.ok (), (w.map (fun s => { s with uploadedBytes := wadd s.uploadedBytes length })).mapPeer conn
                          (fun p => ({ p with servedRequests := satAdd32 p.servedRequests 1 }.onDataOut length env.now).send
                            (.piece index start buf)))

def cancelPeerRequest (conn : ConnId) (index start : Nat) (w : World H) : Result Unit × World H :=
  let block := start / BLOCK_LEN % 2 ^ 16
  let k := blockKey index block
  match (w.sess.requestedBy.get? k).filter (fun reqs => reqs.contains conn) with
  | none =>
      match w.sess.peers.get? conn with
      | none => (.ok (), w)
      | some p =>
          let w := w.mapPeer conn (fun p => { p with spuriousCancels := p.spuriousCancels + 1 })
          if p.spuriousCancels + 1 ≥ w.sess.cfg.leech.cancelSpamThreshold then (.error .protocol, w) else (.ok (), w)
  | some reqs =>
      let w := w.inflightDec
      let w :=
        if (reqs.erase conn).isEmpty then
          (w.map (fun s => { s with requestedBy := s.requestedBy.erase k })).map (fun s => s.releaseBlock k)
        else w.map (fun s => { s with requestedBy := s.requestedBy.insert k (reqs.erase conn) })
      (.ok (), w.mapPeer conn (fun p => { p with requestsInFlight := p.requestsInFlight - 1 }))

end Requests
end TypeBit.Session
