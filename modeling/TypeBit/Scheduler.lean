import TypeBit.Metainfo.Torrent

/-! The utility-driven piece scheduler (`scheduler.rs`). Utilities are signed 64-bit and wrap. -/

namespace TypeBit
open Metainfo

inductive ContentGoal where
  | streaming
  | extract
  | load
  | generic
  deriving DecidableEq, Repr

structure SchedulerConfig where
  alpha : Int
  beta : Int
  gamma : Int
  delta : Int
  edgeBytes : Nat
  deriving DecidableEq, Repr

def SchedulerConfig.default : SchedulerConfig := ⟨8, 2, 1, 64, 4 * 1024 * 1024⟩

def videoExts : List Bytes :=
  [".mp4", ".mkv", ".avi", ".webm", ".mov", ".m4v", ".ts", ".flv", ".wmv", ".mpg", ".mpeg"].map ascii
def archiveExts : List Bytes := [".zip", ".tar", ".gz", ".7z", ".rar", ".xz", ".zst", ".bz2", ".tgz"].map ascii
def modelExts : List Bytes :=
  [".safetensors", ".pt", ".pth", ".onnx", ".gguf", ".ckpt", ".bin", ".pb", ".tflite", ".npy", ".npz", ".parquet",
    ".sqlite", ".sqlite3", ".zarr"].map ascii

def toLower (c : UInt8) : UInt8 := if ch 'A' ≤ c ∧ c ≤ ch 'Z' then c + 32 else c

def anyFile (t : Torrent) (exts : List Bytes) : Bool :=
  t.files.any (fun f => exts.any (fun ext => ext.isSuffixOf (((List.intersperse [ch '/'] f.path).flatten).map toLower)))

def detectGoal (t : Torrent) : ContentGoal :=
  if anyFile t videoExts then .streaming
  else if anyFile t archiveExts then .extract
  else if anyFile t modelExts then .load
  else .generic

structure Scheduler where
  pieceCount : Nat
  cfg : SchedulerConfig
  goal : ContentGoal
  task : List Int
  availability : List Int
  cost : List Int
  risk : List Int
  utility : List Int
  frontier : Int
  deriving DecidableEq, Repr

def wrapI64 (x : Int) : Int := (x + 2 ^ 63) % 2 ^ 64 - 2 ^ 63

def taskOf (goal : ContentGoal) (n edge p : Nat) : Int :=
  match goal with
  | .streaming => if p < edge then 3000 else if p ≥ n - edge then 2000 else 1000 - p
  | .extract => if p ≥ n - edge then 2000 else if p < edge then 1500 else 0
  | .load => if p < edge then 1500 else 0
  | .generic => 0

def edgePieces (cfg : SchedulerConfig) (t : Torrent) : Nat :=
  max (max (min cfg.edgeBytes (max t.totalSize 1 / 10)) t.pieceLength / t.pieceLength) 1

namespace Scheduler

def computeTask (s : Scheduler) (t : Torrent) : Scheduler :=
  if s.task.length = 0 then s
  else { s with task := (List.range s.task.length).map (taskOf s.goal s.task.length (edgePieces s.cfg t)) }

def costOf (s : Scheduler) (p : Nat) : Int :=
  if s.goal = .streaming ∧ s.frontier ≥ 0 then min (s.frontier - p).natAbs 4096 else 0

def recompute (s : Scheduler) : Scheduler :=
  { s with
    cost := (List.range s.task.length).map s.costOf
    utility := (List.range s.task.length).map (fun p =>
      wrapI64 (s.cfg.alpha * s.task.getD p 0 + s.cfg.beta * s.availability.getD p 0 - s.cfg.gamma * s.costOf p -
        s.cfg.delta * s.risk.getD p 0)) }

def build (t : Torrent) (goal : ContentGoal) (cfg : SchedulerConfig) : Scheduler :=
  let zeros := List.replicate t.pieceCount (0 : Int)
  let s : Scheduler := ⟨t.pieceCount, cfg, goal, zeros, zeros, zeros, zeros, zeros, -1⟩
  (s.computeTask t).recompute

def new (t : Torrent) (cfg : SchedulerConfig) : Scheduler := build t (detectGoal t) cfg

def withGoal (t : Torrent) (goal : ContentGoal) (cfg : SchedulerConfig) : Scheduler :=
  ({ new t cfg with goal := goal }.computeTask t).recompute

def updateAvailability (s : Scheduler) (availability : List Nat) : Scheduler :=
  let most := availability.foldl max 0
  let fresh := (availability.take s.availability.length).map (fun a => (most : Int) - a)
  { s with availability := fresh ++ s.availability.drop fresh.length }.recompute

def setFrontier (s : Scheduler) (piece : Int) : Scheduler := { s with frontier := piece }.recompute

def markSuspicious (s : Scheduler) (piece : Nat) : Scheduler :=
  if piece < s.risk.length then { s with risk := s.risk.set piece 1 }.recompute else s

end Scheduler
end TypeBit
