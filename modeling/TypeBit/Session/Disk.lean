import TypeBit.Session.Peers

/-! How a session reaches its files: opening them, and the reads and writes at absolute payload
offsets that walk the file list through the disk cache. -/

namespace TypeBit.Session
open Metainfo

section Disk
variable {H : Type} (host : Host H)

def locate (t : Torrent) (pos : Nat) : Result (Nat × Nat × Nat) := do
  let (file, off) ← t.locateOffset pos
  .ok (file, off, wsub (((t.files[file]?).map FileEntry.length).getD 0) off)

def handle (files : List (Option Nat)) (file : Nat) : Option Nat := (files[file]?).join

def writeAbsLoop (t : Torrent) (files : List (Option Nat)) : Nat → Nat → Bytes → Op Error (DiskCache.State H) Unit
  | 0, _, _ => fun io => (.ok (), io)
  | n + 1, pos, rest => fun io =>
      if rest = [] then (.ok (), io)
      else match locate t pos with
        | .error e => (.error e, io)
        | .ok (file, off, room) =>
            if min rest.length room = 0 then (.ok (), io)
            else match handle files file with
              | none => (.error .notFound, io)
              | some disk =>
                  match DiskCache.write host.toDiskHost disk off (rest.take (min rest.length room)) io with
                  | (.error e, io) => (.error e, io)
                  | (.ok _, io) =>
                      writeAbsLoop t files n (wadd pos (min rest.length room)) (rest.drop (min rest.length room)) io

/-- Write payload bytes at an absolute offset; then flush the first open file, whatever comes of it. -/
def writeAbs (abs : Nat) (data : Bytes) (w : World H) : Result Unit × World H :=
  match w.sess.torrent with
  | none => (.error .notFound, w)
  | some t =>
      match writeAbsLoop host t w.sess.files data.length abs data w.io with
      | (.error e, io) => (.error e, { w with io := io })
      | (.ok _, io) =>
          match w.sess.files.findSome? id with
          | none => (.ok (), { w with io := io })
          | some disk => (.ok (), { w with io := (DiskCache.flushDisk host.toDiskHost disk io).2 })

def readAbsLoop (t : Torrent) (files : List (Option Nat)) :
    Nat → Nat → Nat → Bytes → Op Error (DiskCache.State H) Bytes
  | 0, _, _, got => fun io => (.ok got, io)
  | n + 1, pos, want, got => fun io =>
      if want = 0 then (.ok got, io)
      else match locate t pos with
        | .error e => (.error e, io)
        | .ok (file, off, room) =>
            if min want room = 0 then (.ok got, io)
            else match handle files file with
              | none => (.ok got, io)
              | some disk =>
                  match DiskCache.read host.toDiskHost disk off (min want room) io with
                  | (.error e, io) => (.error e, io)
                  | (.ok part, io) =>
                      if part = [] then (.ok got, io)
                      else readAbsLoop t files n (wadd pos part.length) (want - part.length) (got ++ part) io

def readAbs (abs len : Nat) (w : World H) : Result Bytes × World H :=
  match w.sess.torrent with
  | none => (.error .notFound, w)
  | some t =>
      match readAbsLoop host t w.sess.files len abs len [] w.io with
      | (r, io) => (r, { w with io := io })

def fileHasSelectedPiece (s : TorrentSession) (abs len pl : Nat) : Bool :=
  let range := filePieces pl s.pieces.pieceCount abs len
  ((s.piecePriorities.take range.2).drop range.1).any (fun p => decide (0 < p))

def filePath (s : TorrentSession) (f : FileEntry) : Bytes :=
  s.saveDir ++ ch '/' :: (List.intersperse [ch '/'] f.path).flatten

def openLoop (pl : Nat) : List FileEntry → Nat → Nat → World H → Result Unit × World H
  | [], _, _, w => (.ok (), w.map (fun s => { s with filesNeedReopen := false }))
  | f :: tail, fi, abs, w =>
      if fileHasSelectedPiece w.sess abs f.length pl && (handle w.sess.files fi).isNone then
        match host.diskOpen w.io.host (filePath w.sess f) with
        | (.error e, h) => (.error e, w.setHost h)
        | (.ok id, h) =>
            let h := if w.sess.cfg.preallocation = .off then h
              else host.diskPrealloc h id w.sess.cfg.preallocation f.length
            openLoop pl tail (fi + 1) (satAdd abs f.length)
              ((w.setHost h).map (fun s => { s with files := s.files.set fi (some id) }))
      else openLoop pl tail (fi + 1) (satAdd abs f.length) w

def openFiles (w : World H) : Result Unit × World H :=
  match w.sess.torrent with
  | none => (.ok (), w)
  | some t =>
      openLoop host t.pieceLength t.files 0 0
        (if w.sess.files.length ≠ t.files.length then
          w.map (fun s => { s with files := List.replicate t.files.length none })
        else w)

end Disk
end TypeBit.Session
