import TypeBit.Session.Disk
import TypeBit.Lib.Patch

/-! Pieces from web seeds (`drive_webseed`): one piece at a time, its blocks fetched from several
mirrors through the host and handed to the verifier when the last one lands. -/

namespace TypeBit.Session
open Metainfo

def MAX_INFLIGHT : Nat := 4

def isUnreserved (c : UInt8) : Bool :=
  Leech.isAlpha c || Leech.isDigit c || c = ch '-' || c = ch '_' || c = ch '.' || c = ch '~'

def hexDigit (n : UInt8) : UInt8 := if n < 10 then n + ch '0' else n - 10 + ch 'A'

def percentEncode (b : Bytes) : Bytes :=
  b.flatMap (fun c => if isUnreserved c then [c] else [ch '%', hexDigit (c >>> 4), hexDigit (c &&& 0xf)])

def webSeedPath (f : FileEntry) : Bytes := (List.intersperse [ch '/'] (f.path.map percentEncode)).flatten

def webSeedUrl (t : Torrent) (base : Bytes) (file : Nat) : Bytes :=
  if t.files.length = 1 then base
  else (base.reverse.dropWhile (fun c => decide (c = ch '/'))).reverse ++
    ch '/' :: ((t.files[file]?).map webSeedPath).getD []

def pieceInSingleFile (abs len : Nat) : List FileEntry → Nat → Bool
  | [], _ => false
  | f :: tail, off =>
      if f.length = 0 then pieceInSingleFile abs len tail off
      else if abs ≥ off ∧ satAdd abs len ≤ satAdd off f.length then true
      else pieceInSingleFile abs len tail (wadd off f.length)

def pickWebseedPiece (s : TorrentSession) (t : Torrent) : Option (Nat × Nat) :=
  let n := t.pieceCount
  if n = 0 then none
  else
    ((List.range n).map (fun k => (s.webseed.seedIdx % n + k) % n)).findSome? (fun p =>
      if s.pieces.isHave p || s.pieces.isInFlight p || decide (s.piecePriorities.getD p 1 ≤ 0) then none
      else match t.pieceAbsOffset p, t.pieceInfo p with
        | .ok abs, .ok info => if pieceInSingleFile abs info.len t.files 0 then some (p, info.len) else none
        | _, _ => none)

def webseedBlock (s : TorrentSession) (t : Torrent) (piece block seed : Nat) : Option (Bytes × Nat × Nat × Nat) :=
  match t.pieceInfo piece with
  | .error _ => none
  | .ok info =>
      let start := block * BLOCK_LEN
      if start ≥ info.len then none
      else
        let len := min BLOCK_LEN (info.len - start)
        (s.webSeeds[seed % s.webSeeds.length]?).map (fun base =>
          (webSeedUrl t base info.file, wadd info.offset start, wadd info.offset start + len - 1, len))

def abortWebseedPiece (s : TorrentSession) : TorrentSession :=
  { s with webseed := { s.webseed with
    piece := none, nextBlock := 0, totalBlocks := 0, data := [], seedFails := [], inFlight := [] } }

def copyBlock (block blen : Nat) (got : Result Unit) (body : Bytes) (s : TorrentSession) : Bool × TorrentSession :=
  let off := block * BLOCK_LEN
  if got = .ok () ∧ body.length = blen ∧ off + body.length ≤ s.webseed.data.length then
    (true, { s with
      webseed := { s.webseed with data := Patch.splice s.webseed.data off body }
      downloadedBytes := wadd s.downloadedBytes body.length })
  else (false, s)

def finishWebseed (piece : Nat) (s : TorrentSession) : TorrentSession :=
  if s.webseed.inFlight.isEmpty ∧ s.webseed.nextBlock ≥ s.webseed.totalBlocks then
    { s with
      pieces := s.pieces.setInFlight piece true
      verifying := s.verifying.insert piece s.webseed.totalBlocks
      pendingVerify := s.pendingVerify.insert piece s.webseed.data
      webseed := { s.webseed with piece := none, nextBlock := 0, totalBlocks := 0, data := [], seedFails := [] } }
  else s

def webseedApplyBlock (seed block blen : Nat) (got : Result Unit) (body : Bytes) (now : Nat) (s : TorrentSession) :
    TorrentSession :=
  match s.webseed.piece with
  | none => s
  | some piece =>
      let (ok, s) := copyBlock block blen got body s
      let fails := s.webseed.seedFails.modify seed (fun f => if ok then 0 else Leech.satAdd32 f 1)
      let s := { s with webseed := { s.webseed with seedFails := fails } }
      if !ok && fails.all (fun f => decide (f ≥ s.cfg.webseed.maxFails)) then
        abortWebseedPiece { s with webseed := { s.webseed with retryAt := satAdd now s.cfg.webseed.backoffMs } }
      else finishWebseed piece s

def onRangeJobDone (id : Nat) (result : Result Bytes) (now : Nat) (s : TorrentSession) : TorrentSession :=
  match s.webseed.inFlight.find? (fun j => decide (j.jobId = id)) with
  | none => s
  | some job =>
      let body := result.toOption.getD []
      let got : Result Unit := if body.length = job.len then .ok () else .error .protocol
      let s := { s with webseed := { s.webseed with inFlight := s.webseed.inFlight.erase job } }
      webseedApplyBlock job.seed job.block job.len got body now s

def pickSeed (seeds : Nat) (seedFails : List Nat) (maxFails : Nat) : Nat → Nat → Option Nat × Nat
  | 0, cursor => (none, cursor)
  | tries + 1, cursor =>
      if seedFails.getD (cursor % seeds) 0 ≥ maxFails then pickSeed seeds seedFails maxFails tries (satAdd cursor 1)
      else (some (cursor % seeds), satAdd cursor 1)

section Drive
variable {H : Type} (host : Host H) (env : Env)

def beginWebseed (t : Torrent) (s : TorrentSession) : TorrentSession :=
  if s.webseed.piece.isSome ∨ env.now < s.webseed.retryAt then s
  else match pickWebseedPiece s t with
    | none => s
    | some (p, len) =>
        { s with webseed := { s.webseed with
          piece := some p
          nextBlock := 0
          totalBlocks := blockCountFor len
          data := List.replicate len 0
          seedFails := List.replicate s.webSeeds.length 0 } }

/-- Keep the window of parallel fetches full; without a background worker one block is fetched now. -/
def fetchLoop (t : Torrent) (piece : Nat) : Nat → World H → World H
  | 0, w => w
  | rounds + 1, w =>
      let ws := w.sess.webseed
      if ws.inFlight.length ≥ MAX_INFLIGHT ∨ ws.nextBlock ≥ ws.totalBlocks then w
      else
        let (picked, cursor) := pickSeed w.sess.webSeeds.length ws.seedFails w.sess.cfg.webseed.maxFails
          w.sess.webSeeds.length ws.seedIdx
        let w := w.map (fun s => { s with webseed := { s.webseed with seedIdx := cursor } })
        match picked with
        | none =>
            w.map (fun s => abortWebseedPiece
              { s with webseed := { s.webseed with retryAt := satAdd env.now s.cfg.webseed.backoffMs } })
        | some seed =>
            match webseedBlock w.sess t piece ws.nextBlock seed with
            | none => w.map abortWebseedPiece
            | some (url, first, last, len) =>
                let (job, h) := if w.sess.cfg.proxied then (0, w.io.host)
                  else host.httpGetRangeAsync w.io.host url first last w.sess.cfg.webseed.timeoutMs
                let w := w.setHost h
                if job ≠ 0 then
                  fetchLoop t piece rounds (w.map (fun s => { s with webseed := { s.webseed with
                    inFlight := s.webseed.inFlight ++ [⟨job, piece, ws.nextBlock, len, seed⟩]
                    nextBlock := s.webseed.nextBlock + 1 } }))
                else
                  let ((got, body), h) := host.httpGetRange w.io.host w.sess.cfg.proxied url first last
                    w.sess.cfg.webseed.timeoutMs
                  (w.setHost h).map (webseedApplyBlock seed ws.nextBlock len got body env.now)

def driveWebseed (w : World H) : World H :=
  match w.sess.torrent with
  | none => w
  | some t =>
      if !w.sess.cfg.webseed.enabled || w.sess.webSeeds.isEmpty || decide (w.sess.status ≠ .downloading) then w
      else
        let w := w.map (beginWebseed env t)
        match w.sess.webseed.piece with
        | none => w
        | some piece => fetchLoop host env t piece (MAX_INFLIGHT + 1) w

end Drive
end TypeBit.Session
