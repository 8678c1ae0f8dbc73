import TypeBit.Basic
import TypeBit.Lib.OrdMap
import TypeBit.Lib.Returns

/-! The write-back disk cache (`disk_cache.rs`) over an arbitrary host. Offsets and byte counters
are 64-bit and wrap; the statistics counters, which nothing reads, are left out. -/

namespace TypeBit.DiskCache

abbrev Key := Nat ×ₗ Nat

def key (disk off : Nat) : Key := toLex (disk, off)
def Key.disk (k : Key) : Nat := (ofLex k).1
def Key.off (k : Key) : Nat := (ofLex k).2

def CLEAN_BUDGET : Nat := 2 ^ 20
def CLEAN_MAX_ENTRIES : Nat := 4096

structure Cache where
  budget : Nat
  used : Nat
  dirty : OrdMap Key Bytes
  /-- Clean read-through pages with their last access. -/
  clean : OrdMap Key (Bytes × Nat)
  cleanUsed : Nat
  lruClock : Nat
  inflightBlocks : Nat
  maxInflightBlocks : Nat
  tickDownBudget : Nat

/-- The host's disk calls: a read returns the bytes it put in a buffer of the given length. -/
structure DiskHost (H : Type) where
  diskRead : H → Nat → Nat → Nat → Result Bytes × H
  diskWrite : H → Nat → Nat → Bytes → Result Unit × H

/-- The cache and the host it is used with. -/
structure State (H : Type) where
  cache : Cache
  host : H

namespace Cache

def new (budget : Nat) : Cache where
  budget := max budget (2 ^ 20)
  used := 0
  dirty := ∅
  clean := ∅
  cleanUsed := 0
  lruClock := 0
  inflightBlocks := 0
  maxInflightBlocks := max 1 (max budget (2 ^ 20) / BLOCK_LEN)
  tickDownBudget := 0

def inflightAvailable (c : Cache) : Bool := decide (c.inflightBlocks < c.maxInflightBlocks)
def inflightInc (c : Cache) : Cache := { c with inflightBlocks := satAdd c.inflightBlocks 1 }
def inflightDec (c : Cache) : Cache := { c with inflightBlocks := c.inflightBlocks - 1 }
def setTickDownBudget (c : Cache) (v : Nat) : Cache := { c with tickDownBudget := v }
def tickDownConsume (c : Cache) (n : Nat) : Cache := { c with tickDownBudget := c.tickDownBudget - n }

def insertCoalesced (c : Cache) (disk offset : Nat) (data : Bytes) : Cache :=
  match c.dirty.get? (key disk offset) with
  | some existing =>
      { c with
        used := wadd (wsub c.used existing.length) data.length
        dirty := c.dirty.insert (key disk offset) data }
  | none =>
      match (c.dirty.below? (key disk offset)).filter
          (fun e => e.1.disk = disk ∧ wadd e.1.off e.2.length = offset) with
      | some (k, v) =>
          -- the successor is looked up where the predecessor ends, which is `offset` itself
          match c.dirty.get? (key disk (wadd k.off v.length)) with
          | some succ =>
              { c with
                used := wadd (wadd (wsub c.used succ.length) data.length) succ.length
                dirty := (c.dirty.erase (key disk (wadd k.off v.length))).insert k (v ++ data ++ succ) }
          | none =>
              { c with
                used := wadd c.used data.length
                dirty := c.dirty.insert k (v ++ data) }
      | none =>
          match c.dirty.get? (key disk (wadd offset data.length)) with
          | some succ =>
              { c with
                used := wadd (wsub c.used succ.length) data.length
                dirty := (c.dirty.erase (key disk (wadd offset data.length))).insert (key disk offset) (data ++ succ) }
          | none =>
              { c with
                used := wadd c.used data.length
                dirty := c.dirty.insert (key disk offset) data }

def hit (m : OrdMap Key Bytes) (disk pos : Nat) : Option (Nat × Bytes) :=
  ((m.floor? (key disk pos)).filter
    (fun e => e.1.disk = disk ∧ e.1.off ≤ pos ∧ pos < wadd e.1.off e.2.length)).map (fun e => (e.1.off, e.2))

def dirtyHit (c : Cache) (disk pos : Nat) : Option (Nat × Bytes) := hit c.dirty disk pos

def cleanHit (c : Cache) (disk pos : Nat) : Option (Nat × Bytes) :=
  hit (c.clean.mapValues (fun _ page => page.1)) disk pos

def touch (c : Cache) (disk pageOff : Nat) : Cache :=
  { c with
    lruClock := wadd c.lruClock 1
    clean := c.clean.modify (key disk pageOff) (fun page => (page.1, wadd c.lruClock 1)) }

def victim : List (Key × (Bytes × Nat)) → Option Key
  | [] => none
  | e :: tail => some (tail.foldl (fun best f => if f.2.2 < best.2.2 then f else best) e).1

def evictClean (c : Cache) (len : Nat) : Nat → Cache
  | 0 => c
  | n + 1 =>
      if wadd c.cleanUsed len > CLEAN_BUDGET ∧ c.clean.isEmpty = false then
        match victim c.clean.entries with
        | some k =>
            match c.clean.get? k with
            | some (v, _) =>
                evictClean { c with clean := c.clean.erase k, cleanUsed := wsub c.cleanUsed v.length } len n
            | none => evictClean c len n
        | none => c
      else c

def joinPred (c : Cache) (disk offset : Nat) (data : Bytes) : Cache × Nat × Bytes :=
  match (c.clean.below? (key disk offset)).filter
      (fun e => e.1.disk = disk ∧ wadd e.1.off e.2.1.length = offset) with
  | some (k, v, _) =>
      ({ c with clean := c.clean.erase k, cleanUsed := wsub c.cleanUsed v.length }, k.off, v ++ data)
  | none => (c, offset, data)

def joinSucc (c : Cache) (disk base : Nat) (merged : Bytes) : Cache × Bytes :=
  match c.clean.get? (key disk (wadd base merged.length)) with
  | some (v, _) =>
      ({ c with
        clean := c.clean.erase (key disk (wadd base merged.length))
        cleanUsed := wsub c.cleanUsed v.length }, merged ++ v)
  | none => (c, merged)

def joinAdjacent (c : Cache) (disk offset : Nat) (data : Bytes) : Cache × Nat × Bytes :=
  if c.clean.size ≥ CLEAN_MAX_ENTRIES then (c, offset, data)
  else
    let pred := c.joinPred disk offset data
    let succ := pred.1.joinSucc disk pred.2.1 pred.2.2
    (succ.1, pred.2.1, succ.2)

def keepClean (c : Cache) (disk base : Nat) (merged : Bytes) : Cache :=
  let c := c.evictClean merged.length c.clean.size
  if c.clean.size < CLEAN_MAX_ENTRIES then
    { c with
      cleanUsed := wadd c.cleanUsed merged.length
      clean := c.clean.insert (key disk base) (merged, c.lruClock) }
  else c

def promoteClean (c : Cache) (disk offset : Nat) (data : Bytes) : Cache :=
  if data = [] then c
  else
    let joined := { c with lruClock := wadd c.lruClock 1 }.joinAdjacent disk offset data
    joined.1.keepClean disk joined.2.1 joined.2.2

def removeDirty (c : Cache) (k : Key) (data : Bytes) : Cache :=
  { c with dirty := c.dirty.erase k, used := wsub c.used data.length }

theorem removeDirty_dirty (c : Cache) (k : Key) (data : Bytes) :
    (c.removeDirty k data).dirty = c.dirty.erase k := rfl
theorem removeDirty_clean (c : Cache) (k : Key) (data : Bytes) : (c.removeDirty k data).clean = c.clean := rfl

/-- A run of bytes on its way to the disk. -/
structure Run where
  disk : Nat
  off : Nat
  data : Bytes

def pushRun (batch : List Run) (k : Key) (data : Bytes) : List Run :=
  match batch.getLast? with
  | some last =>
      if last.disk = k.disk ∧ wadd last.off last.data.length = k.off then
        batch.dropLast ++ [{ last with data := last.data ++ data }]
      else batch ++ [⟨k.disk, k.off, data⟩]
  | none => [⟨k.disk, k.off, data⟩]

def takeOldest (minFreed : Nat) : List Key → Nat → List Run → Cache → Nat × List Run × Cache
  | [], freed, batch, c => (freed, batch, c)
  | k :: tail, freed, batch, c =>
      if freed ≥ minFreed then (freed, batch, c)
      else
        match c.dirty.get? k with
        | some data =>
            takeOldest minFreed tail (wadd freed data.length) (pushRun batch k data) (c.removeDirty k data)
        | none => takeOldest minFreed tail freed batch c

end Cache

section Operations
variable {H : Type} (host : DiskHost H)

abbrev Io (H : Type) (α : Type) := Op Error (State H) α

def writeBatch : List Cache.Run → Io H Unit
  | [] => fun s => (.ok (), s)
  | r :: tail => fun s =>
      match host.diskWrite s.host r.disk r.off r.data with
      | (.error e, h) => (.error e, { s with host := h })
      | (.ok _, h) => writeBatch tail ⟨s.cache.promoteClean r.disk r.off r.data, h⟩

def flushOldest (minFreed : Nat) : Io H Nat := fun s =>
  let (freed, batch, c) := Cache.takeOldest minFreed s.cache.dirty.keys 0 [] s.cache
  match writeBatch host batch ⟨c, s.host⟩ with
  | (.ok _, t) => (.ok freed, t)
  | (.error e, t) => (.error e, t)

def flush : Io H Unit := do
  let _ ← flushOldest host (2 ^ 64 - 1)
  pure ()

def flushBounded (maxBytes : Nat) : Io H Nat := flushOldest host maxBytes

def flushDiskLoop : List Key → Io H Unit
  | [] => fun s => (.ok (), s)
  | k :: tail => fun s =>
      match s.cache.dirty.get? k with
      | none => (.error .internal, s)
      | some data =>
          match host.diskWrite s.host k.disk k.off data with
          | (.error e, h) => (.error e, ⟨s.cache.removeDirty k data, h⟩)
          | (.ok _, h) => flushDiskLoop tail ⟨(s.cache.removeDirty k data).promoteClean k.disk k.off data, h⟩

def flushDisk (disk : Nat) : Io H Unit := fun s =>
  flushDiskLoop host (s.cache.dirty.keys.filter (fun k => k.disk = disk)) s

def makeRoom (len : Nat) : Nat → Io H Unit
  | 0 => fun s => (.ok (), s)
  | n + 1 => fun s =>
      if wadd s.cache.used len > s.cache.budget ∧ s.cache.dirty.isEmpty = false then
        match flushOldest host len s with
        | (.error e, t) => (.error e, t)
        | (.ok freed, t) => if freed = 0 then (.ok (), t) else makeRoom len n t
      else (.ok (), s)

def write (disk offset : Nat) (data : Bytes) : Io H Unit := fun s =>
  if data = [] then (.ok (), s)
  else if data.length > s.cache.budget then
    match flush host s with
    | (.error e, t) => (.error e, t)
    | (.ok _, t) =>
        match host.diskWrite t.host disk offset data with
        | (.error e, h) => (.error e, { t with host := h })
        | (.ok _, h) => (.ok (), { t with host := h })
  else
    match makeRoom host data.length s.cache.dirty.size s with
    | (.error e, t) => (.error e, t)
    | (.ok _, t) => (.ok (), { t with cache := t.cache.insertCoalesced disk offset data })

theorem write_small (disk offset : Nat) {data : Bytes} {s : State H} (filled : data ≠ []) (small : ¬ data.length > s.cache.budget) :
    write host disk offset data s = match makeRoom host data.length s.cache.dirty.size s with
      | (.error e, t) => (.error e, t)
      | (.ok _, t) => (.ok (), { t with cache := t.cache.insertCoalesced disk offset data }) := by
  rw [write]
  exact (if_neg filled).trans (if_neg small)

def readLoop (disk : Nat) : Nat → Nat → Nat → Bytes → Io H Bytes
  | 0, _, _, out => fun s => (.ok out, s)
  | n + 1, pos, len, out => fun s =>
      if len = 0 then (.ok out, s)
      else match s.cache.dirtyHit disk pos with
        | some (pageOff, page) =>
            let part := (page.drop (pos - pageOff)).take len
            readLoop disk n (wadd pos part.length) (len - part.length) (out ++ part) s
        | none =>
            match s.cache.cleanHit disk pos with
            | some (pageOff, page) =>
                let part := (page.drop (pos - pageOff)).take len
                let next := wadd pos part.length
                let cache := if next ≥ wadd pageOff page.length then s.cache.touch disk pageOff else s.cache
                readLoop disk n next (len - part.length) (out ++ part) { s with cache := cache }
            | none =>
                match host.diskRead s.host disk pos len with
                | (.error e, h) => (.error e, { s with host := h })
                | (.ok part, h) =>
                    if part = [] then (.ok out, { s with host := h })
                    else readLoop disk n (wadd pos part.length) (len - part.length) (out ++ part)
                      ⟨s.cache.promoteClean disk pos part, h⟩

/-- Read through: dirty pages, then clean pages, then the disk; the bytes put in the buffer. -/
def read (disk offset len : Nat) : Io H Bytes := readLoop host disk len offset len []

end Operations
end TypeBit.DiskCache
