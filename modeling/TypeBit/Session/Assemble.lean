import TypeBit.Session.Disk
import TypeBit.Lib.Patch

/-! How a piece comes together: the Piece messages of `on_piece`, the hand-over to the verifier, and
what a verification outcome does. -/

namespace TypeBit.Session
open Metainfo Leech Wire

section OnPiece
variable {H : Type} (env : Env)

def overlapped (start len : Nat) : List Nat :=
  List.range' (start / BLOCK_LEN) ((start + len - 1) / BLOCK_LEN + 1 - start / BLOCK_LEN)

/-- A request for a block lands: the deliverer keeps its slot for now, every other peer is sent a cancel. -/
def resolveRequest (conn : ConnId) (index start len : Nat) (w : World H) (c : ConnId) : World H :=
  let w := if c ≠ conn then
    w.mapPeer c (fun p => { p.send (.cancel index start len) with requestsInFlight := p.requestsInFlight - 1 }) else w
  w.inflightDec

def resolveBlock (conn : ConnId) (index start len totalBlocks : Nat) (w : World H) (b : Nat) : World H :=
  let k := blockKey index (b % 2 ^ 16)
  let w := ((w.sess.requestedBy.get? k).getD []).foldl (resolveRequest conn index start len) w
  w.map (fun s => { s with
    requestedBy := s.requestedBy.erase k
    requestedAt := s.requestedAt.erase k
    pieces := s.pieces.clearBlockRequested index (b % 2 ^ 16) totalBlocks })

def fillBuffer (start : Nat) (data : Bytes) (gaps : List (Nat × Nat)) (buf : Bytes) : Bytes :=
  gaps.foldl (fun buf g => Patch.splice buf g.1 ((data.drop (g.1 - start)).take (g.2 - g.1))) buf

def markCovered (index pieceLen totalBlocks : Nat) (pb : PieceBytes) (t : PieceTracker) (b : Nat) : PieceTracker :=
  if pb.covers (b * BLOCK_LEN) (b * BLOCK_LEN + min BLOCK_LEN (pieceLen - b * BLOCK_LEN)) then
    t.markBlockReceived index (b % 2 ^ 16) totalBlocks
  else t

def handOver (index totalBlocks : Nat) (w : World H) : World H :=
  match w.sess.assembling.get? index with
  | none => w
  | some buf =>
      (w.map (fun s => { s with
        assembling := s.assembling.erase index
        pieces := s.pieces.setInFlight index true
        verifying := s.verifying.insert index totalBlocks
        pendingVerify := s.pendingVerify.insert index buf })).emit (.assembled index buf)

def storeBytes (conn : ConnId) (index start : Nat) (data : Bytes) (pieceLen : Nat) (w : World H) : World H :=
  let pb := (w.sess.pieceBytes.get? index).getD PieceBytes.new
  let (added, newly) := pb.add start (start + data.length)
  let w := w.map (fun s => { s with
    pieceBytes := s.pieceBytes.insert index added
    downloadedBytes := wadd s.downloadedBytes data.length })
  if newly = 0 then w.map (fun s => { s with discardedBytes := satAdd s.discardedBytes data.length })
  else
    let totalBlocks := blockCountFor pieceLen
    let w := w.map (fun s => { s with
      assembling := s.assembling.insert index
        (fillBuffer start data (pb.newRanges start (start + data.length))
          ((s.assembling.get? index).getD (List.replicate pieceLen 0)))
      pieceSuppliers := s.pieceSuppliers.insert index ((s.pieceSuppliers.get? index).getD [] ++ [conn])
      pieces := (overlapped start data.length).foldl (markCovered index pieceLen totalBlocks added) s.pieces })
    if added.total ≥ pieceLen then handOver index totalBlocks w else w

def acceptPiece (conn : ConnId) (index start : Nat) (data : Bytes) (pieceLen : Nat) (w : World H) : World H :=
  let w := (overlapped start data.length).foldl
    (resolveBlock conn index start data.length (blockCountFor pieceLen)) w
  let w := w.mapPeer conn (fun p =>
    { p with requestsInFlight := p.requestsInFlight - 1, lastRealAt := env.now, requestsTimedOut := 0 })
  storeBytes conn index start data pieceLen (w.emit (.supplied index start data))

/-- A block arrived; any window inside the piece of at most one block is accepted. -/
def onPiece (conn : ConnId) (index start : Nat) (data : Bytes) (w : World H) : Result Unit × World H :=
  match w.sess.torrent with
  | none => (.error .protocol, w)
  | some t =>
      match t.pieceInfo index with
      | .error e => (.error e, w)
      | .ok info =>
          if data.length = 0 ∨ data.length > BLOCK_LEN ∨ start + data.length > info.len then (.error .protocol, w)
          else if (start + data.length - 1) / BLOCK_LEN % 2 ^ 16 ≥ blockCountFor info.len then (.error .protocol, w)
          else (.ok (), acceptPiece env conn index start data info.len w)

end OnPiece

section Verified
variable {H : Type} (host : Host H) (env : Env)

def takePendingVerify (w : World H) : OrdMap Nat Bytes × World H :=
  (w.sess.pendingVerify, w.map (fun s => { s with pendingVerify := ∅ }))

def settlePiece (index : Nat) (s : TorrentSession) : TorrentSession :=
  { s with
    pieces := s.pieces.markPieceHave index
    pieceSuppliers := s.pieceSuppliers.erase index
    pieceBytes := s.pieceBytes.erase index
    assembling := s.assembling.erase index
    peers := s.peers.mapValues (fun _ p => if p.phase = .ready then p.send (.haves index) else p) }

def announceCompletion (w : World H) : World H :=
  if w.sess.pieces.haveCount ≥ w.sess.selectedPieceCount then
    ((w.map (fun s => { s with status := .seeding, announceAt := env.now })).emit (.announced .completed)).emit
      .torrentComplete
  else w

def completePieceVerified (index : Nat) (buf : Bytes) (t : Torrent) (w : World H) : Result Unit × World H :=
  match t.pieceAbsOffset index with
  | .error e => (.error e, w)
  | .ok abs =>
      match writeAbs host abs buf w with
      | (.error e, w) => (.error e, w)
      | (.ok _, w) =>
          (.ok (), announceCompletion env
            (((w.map (settlePiece index)).emit (.cleared index)).emit (.pieceVerified index)))

def penalize (s : TorrentSession × List (ConnId × NetAddr)) (e : ConnId × Nat) : TorrentSession × List (ConnId × NetAddr) :=
  match s.1.peers.get? e.1 with
  | none => s
  | some p =>
      let p := { p with rep := { p.rep with corruptBlocks := satAdd32 p.rep.corruptBlocks e.2 } }
      ({ s.1 with
        peers := s.1.peers.insert e.1 p
        reputation := s.1.reputation.noteCorrupt p.addr p.peerId e.2 env.now },
        if p.rep.corruptBlocks ≥ s.1.cfg.leech.corruptBanThreshold then s.2 ++ [(e.1, p.addr)] else s.2)

def punishCorruptSuppliers (piece totalBlocks : Nat) (w : World H) : World H :=
  match w.sess.pieceSuppliers.get? piece with
  | none => w
  | some sups =>
      let counts := sups.foldl (fun m c => m.insert c ((m.get? c).getD 0 + 1)) (∅ : OrdMap ConnId Nat)
      let w := w.map (fun s => { s with pieceSuppliers := s.pieceSuppliers.erase piece })
      let (s, toBan) := (attributeCorruption counts totalBlocks).foldl (penalize env) (w.sess, [])
      toBan.foldl (fun w e => banPeer env e.1 e.2 .corrupt w) { w with sess := s }

def forgetPiece (index : Nat) (s : TorrentSession) : TorrentSession :=
  { s with
    pieces := s.pieces.resetPiece index
    pieceBytes := s.pieceBytes.erase index
    assembling := s.assembling.erase index
    scheduler := s.scheduler.markSuspicious index }

def completePieceFailed (index totalBlocks : Nat) (w : World H) : World H :=
  (punishCorruptSuppliers env index totalBlocks ((w.map (forgetPiece index)).emit (.cleared index))).emit
    (.hashFailure index)

def onVerified (piece : Nat) (ok : Bool) (data : Bytes) (w : World H) : Result Unit × World H :=
  match w.sess.verifying.get? piece with
  | none => (.ok (), w)
  | some totalBlocks =>
      let w := w.map (fun s => { s with verifying := s.verifying.erase piece })
      match w.sess.torrent with
      | none => (.ok (), w)
      | some t =>
          if ok then completePieceVerified host env piece data t w
          else (.ok (), completePieceFailed env piece totalBlocks w)

end Verified
end TypeBit.Session
