import TypeBit.Basic

/-! The parsed torrent and its piece layout (`metainfo.rs`). Indices and sizes are naturals with
the source's 32- and 64-bit wrap-around written out; a `[u8; n]` is its byte list. -/

namespace TypeBit.Metainfo

def MAX_PIECES : Nat := 4000000
def MAX_TOTAL_SIZE : Nat := 2 ^ 40
def MAX_FILES : Nat := 100000

/-- The two digests of the source's `crypto` module. -/
structure Digests where
  sha1 : Bytes → Bytes
  sha256 : Bytes → Bytes

/-- A torrent identity: 20 bytes for v1, 32 bytes for v2 and hybrid. -/
structure InfoHash where
  bytes : Bytes
  len : Nat
  deriving DecidableEq, Repr

namespace InfoHash

def v1 (h : Bytes) : InfoHash := ⟨h ++ List.replicate 12 0, 20⟩
def v2 (h : Bytes) : InfoHash := ⟨h, 32⟩
def asBytes (h : InfoHash) : Bytes := h.bytes.take h.len

end InfoHash

inductive TorrentKind where
  | v1
  | v2
  | hybrid
  deriving DecidableEq, Repr

structure FileEntry where
  path : List Bytes
  length : Nat
  root : Option Bytes
  deriving DecidableEq, Repr

/-- A fully parsed torrent; `name` is the raw name, before its lossy UTF-8 display form. -/
structure Torrent where
  name : Bytes
  pieceLength : Nat
  totalSize : Nat
  files : List FileEntry
  kind : TorrentKind
  infoHash : InfoHash
  v1Hashes : Option (List Bytes)
  v2Hashes : Option (List Bytes)
  announce : Option Bytes
  announceList : List (List Bytes)
  webSeeds : List Bytes
  isPrivate : Bool
  pieceLayers : List (InfoHash × List Bytes)
  infoRaw : Bytes
  comment : Option Bytes
  createdBy : Option Bytes
  creationDate : Option Int
  deriving DecidableEq, Repr

structure PieceInfo where
  file : Nat
  offset : Nat
  len : Nat
  deriving DecidableEq, Repr

def locateFrom (start : Nat) : List FileEntry → Nat → Nat → Result (Nat × Nat)
  | [], _, _ => .error .range
  | f :: tail, fi, off =>
      if start < wadd off f.length then .ok (fi % 2 ^ 32, wsub start off)
      else locateFrom start tail (fi + 1) (wadd off f.length)

/-- The walk over per-file piece counts that `piece_info` and `piece_abs_offset` share for v2:
the file, and the piece's number inside it. -/
def v2Find (pl index : Nat) : List FileEntry → Nat → Nat → Result (Nat × FileEntry × Nat)
  | [], _, _ => .error .range
  | f :: tail, fi, idx =>
      if f.length = 0 then v2Find pl index tail (fi + 1) idx
      else if index < wadd idx (divCeil f.length pl) then .ok (fi, f, wsub index idx)
      else v2Find pl index tail (fi + 1) (wadd idx (divCeil f.length pl))

def absFileOffset (files : List FileEntry) (fileRel file : Nat) : Nat :=
  wadd ((files.take file).foldl (fun off f => wadd off f.length) 0) fileRel

namespace Torrent

def pieceCount (t : Torrent) : Nat :=
  match t.kind with
  | .v1 => divCeil t.totalSize t.pieceLength % 2 ^ 32
  | _ => match t.v2Hashes with
    | some h => h.length % 2 ^ 32
    | none => 0

def pieceHash (t : Torrent) (index : Nat) : Option Bytes :=
  match t.kind with
  | .v1 => t.v1Hashes.bind (fun h => h[index]?)
  | _ => t.v2Hashes.bind (fun h => h[index]?)

/-- Per-piece layout: uniform except the last for v1, never crossing files for v2. -/
def pieceInfo (t : Torrent) (index : Nat) : Result PieceInfo :=
  let pl := t.pieceLength
  match t.kind with
  | .v1 =>
      if index ≥ divCeil t.totalSize pl then .error .range
      else do
        let start := wmul index pl
        let len := min pl (wsub t.totalSize start) % 2 ^ 32
        let (file, offset) ← locateFrom start t.files 0 0
        .ok ⟨file, offset, len⟩
  | _ => do
      let (fi, f, rel) ← v2Find pl index t.files 0 0
      let off := wmul rel pl
      .ok ⟨fi % 2 ^ 32, off, min pl (wsub f.length off) % 2 ^ 32⟩

def pieceAbsOffset (t : Torrent) (index : Nat) : Result Nat :=
  let pl := t.pieceLength
  match t.kind with
  | .v1 => .ok (wmul index pl)
  | _ => do
      let (fi, _, rel) ← v2Find pl index t.files 0 0
      .ok (absFileOffset t.files (wmul rel pl) fi)

def locateOffset (t : Torrent) (abs : Nat) : Result (Nat × Nat) := locateFrom abs t.files 0 0

end Torrent
end TypeBit.Metainfo
