import Mathlib.Logic.Relation
import TypeBit.Leech
import TypeBit.Lib.Radix
import TypeBit.Lib.Window

/-! The reputation store as bytes (`leech.rs`): fixed-size records behind a header. They are read back from a state file that may
hold anything. -/

namespace TypeBit.Leech
open Window OrdMap LittleEndian

/-! ### Reading at a position -/

def slice (bytes : Bytes) (pos len : Nat) : Option Bytes :=
  if pos + len ≤ bytes.length then some ((bytes.drop pos).take len) else none

def sliceArr (n : Nat) (bytes : Bytes) (pos : Nat) : Option (ByteArr n) :=
  (slice bytes pos n).bind fun b => if full : b.length = n then some ⟨b, full⟩ else none

inductive Fault where
  | outOfRange
  deriving DecidableEq, Repr

def index (bytes : Bytes) (pos : Nat) : Except Fault UInt8 :=
  match bytes[pos]? with
  | some b => .ok b
  | none => .error .outOfRange

def sliceTo (bytes : Bytes) (n : Nat) : Except Fault Bytes :=
  if n ≤ bytes.length then .ok (bytes.take n) else .error .outOfRange

def rdU32 (bytes : Bytes) (off : Nat) : Option (Nat × Nat) := (slice bytes off 4).map fun b => (read b, off + 4)

def rdU64 (bytes : Bytes) (off : Nat) : Option (Nat × Nat) := (slice bytes off 8).map fun b => (read b, off + 8)

/-- An endpoint record: a family byte, sixteen bytes of address of which IPv4 uses the last four, and the port. -/
def rdAddr (bytes : Bytes) (off : Nat) : Option (NetAddr × Nat) := do
  let fam ← bytes[off]?
  let off := off + 1
  if fam = 0 then
    let ip ← sliceArr 4 bytes (off + 12)
    let port ← slice bytes (off + 16) 2
    some (.v4 ip (read port), off + 18)
  else if fam = 1 then
    let ip ← sliceArr 16 bytes off
    let port ← slice bytes (off + 16) 2
    some (.v6 ip (read port), off + 18)
  else none

def rdPeer (bytes : Bytes) (off : Nat) : Option (Bytes × Nat) :=
  if bytes[off]? ≠ some 20 then none else (slice bytes (off + 1) 20).map fun pid => (pid, off + 1 + 20)

def rdEntry (bytes : Bytes) (off : Nat) : Option (RepEntry × Nat) := do
  let (corrupt, off) ← rdU32 bytes off
  let (violations, off) ← rdU32 bytes off
  let (incidents, off) ← rdU32 bytes off
  let (lastSeen, off) ← rdU64 bytes off
  some (⟨corrupt, violations, incidents % 2 ^ 16, lastSeen⟩, off)

/-! ### Writing -/

def pushAddr : NetAddr → Bytes
  | .v4 ip port => [0] ++ List.replicate 12 0 ++ ip.val ++ write 2 port
  | .v6 ip port => [1] ++ ip.val ++ write 2 port

def pushPeer (pid : Bytes) : Bytes := [20] ++ pid

def pushEntry (e : RepEntry) : Bytes :=
  write 4 e.corrupt ++ write 4 e.violations ++ write 4 e.incidents
    ++ write 8 e.lastSeen

namespace ReputationStore

def clear (s : ReputationStore) : ReputationStore := { s with byAddr := ∅, byPeer := ∅ }

def records {κ : Type} [LinearOrder κ] (push : κ → Bytes) (m : OrdMap κ RepEntry) : Bytes :=
  m.entries.flatMap fun e => push e.1 ++ pushEntry e.2

def MAGIC : Bytes := ascii "TBREP"

def encode (s : ReputationStore) : Bytes :=
  MAGIC ++ [1] ++ write 4 s.cap ++ write 8 s.ttlMs ++ write 4 s.byAddr.size
    ++ write 4 s.byPeer.size ++ records pushAddr s.byAddr ++ records pushPeer s.byPeer

def readInto {κ : Type} [LinearOrder κ] (bytes : Bytes) (rd : Nat → Option (κ × Nat)) (cap : Nat) :
    Nat → Nat → OrdMap κ RepEntry → Option (OrdMap κ RepEntry × Nat)
  | 0, off, m => some (m, off)
  | n + 1, off, m => do
      let (k, off) ← rd off
      let (e, off) ← rdEntry bytes off
      readInto bytes rd cap n off (if m.size < cap then m.insert k e else m)

def decodeBody (bytes : Bytes) : Option ReputationStore := do
  let (cap, off) ← rdU32 bytes 6
  let (ttl, off) ← rdU64 bytes off
  let (na, off) ← rdU32 bytes off
  let (np, off) ← rdU32 bytes off
  if satAdd na np > min (cap * 2) (2 ^ 64 - 1) + 1024 then none
  else
    let store := new (max cap 1) ttl
    let (byAddr, off) ← readInto bytes (rdAddr bytes) store.cap na off store.byAddr
    let (byPeer, _) ← readInto bytes (rdPeer bytes) store.cap np off store.byPeer
    some { store with byAddr, byPeer }

def decode (bytes : Bytes) : Except Fault (Option ReputationStore) :=
  if bytes.length < 5 + 1 + 4 + 8 + 4 + 4 then .ok none
  else do
    let magic ← sliceTo bytes 5
    if magic ≠ MAGIC then .ok none
    else do
      let version ← index bytes 5
      if version ≠ 1 then .ok none else .ok (decodeBody bytes)

/-- The operations of a store, on values that fit their types. -/
inductive Step (s : ReputationStore) : ReputationStore → Prop
  | noteHandshake {addr : NetAddr} {pid : Bytes} {now : Nat} (port : addr.PortFits) (full : pid.length = 20)
      (clock : now < 2 ^ 64) : Step s (s.noteHandshake addr pid now)
  | noteCorrupt {addr : NetAddr} {pid : Option Bytes} {now : Nat} (delta : Nat) (port : addr.PortFits)
      (full : ∀ p ∈ pid, p.length = 20) (clock : now < 2 ^ 64) : Step s (s.noteCorrupt addr pid delta now)
  | noteViolation {addr : NetAddr} {pid : Option Bytes} {now : Nat} (port : addr.PortFits)
      (full : ∀ p ∈ pid, p.length = 20) (clock : now < 2 ^ 64) : Step s (s.noteViolation addr pid now)
  | sweep (now : Nat) : Step s (s.sweep now)
  | clear : Step s s.clear

/-! ### The cap -/

/-- Both maps are within the cap, which is positive. -/
structure Capped (s : ReputationStore) : Prop where
  positive : 1 ≤ s.cap
  addrs : s.byAddr.size ≤ s.cap
  peers : s.byPeer.size ≤ s.cap

section Update
variable {κ : Type} [LinearOrder κ] {m : OrdMap κ RepEntry} {cap : Nat} {k : κ} {f : RepEntry → RepEntry}

omit [LinearOrder κ] in
theorem oldest_mem {l : List (κ × RepEntry)} (found : oldest l = some k) : ∃ e, (k, e) ∈ l := by
  cases l with
  | nil => cases found
  | cons first tail =>
    cases found
    have picked : ∀ (rest : List (κ × RepEntry)) (best : κ × RepEntry),
        rest.foldl (fun best f => if f.2.lastSeen < best.2.lastSeen then f else best) best ∈ best :: rest := by
      intro rest
      induction rest with
      | nil => exact fun best => List.mem_cons_self
      | cons e rest ih =>
        intro best
        rcases List.mem_cons.mp (ih (if e.2.lastSeen < best.2.lastSeen then e else best)) with here | later
        · rw [List.foldl_cons, here]
          split_ifs
          · exact List.mem_cons_of_mem _ List.mem_cons_self
          · exact List.mem_cons_self
        · exact List.mem_cons_of_mem _ (List.mem_cons_of_mem _ later)
    exact ⟨_, picked tail first⟩

/-- What an update leaves besides the entry it writes: a full map loses one entry, another one none. -/
def roomFor (m : OrdMap κ RepEntry) (cap : Nat) (k : κ) : OrdMap κ RepEntry :=
  if !m.contains k && decide (m.size ≥ cap) then ((oldest m.entries).map m.erase).getD m else m

theorem size_roomFor (positive : 1 ≤ cap) (bound : m.size ≤ cap) (absent : m.contains k = false) :
    (roomFor m cap k).size < cap := by
  unfold roomFor
  rw [absent]
  by_cases full : m.size ≥ cap
  · cases found : oldest m.entries with
    | none =>
      cases listed : m.entries with
      | nil =>
        have none : m.size = 0 := congrArg List.length listed
        omega
      | cons e tail =>
        rw [listed] at found
        cases found
    | some j =>
      obtain ⟨e, member⟩ := oldest_mem found
      have held := (mem_entries_iff m j e).mp member
      have fewer : m.size = 1 + (m.erase j).size := by
        rw [size_eq_total, total_erase held, size_eq_total]
      simp only [Bool.not_false, Bool.true_and, decide_eq_true full, if_true, Option.map_some, Option.getD_some]
      omega
  · simp only [Bool.not_false, Bool.true_and, decide_eq_false full, Bool.false_eq_true, if_false]
    omega

theorem get?_roomFor {j : κ} {e : RepEntry} (found : (roomFor m cap k).get? j = some e) : m.get? j = some e := by
  unfold roomFor at found
  split at found
  · cases picked : oldest m.entries with
    | none =>
      rw [picked] at found
      exact found
    | some i =>
      rw [picked] at found
      exact get?_of_erase found
  · exact found

theorem size_update (positive : 1 ≤ cap) (bound : m.size ≤ cap) : (update m cap k f).size ≤ cap := by
  change ((roomFor m cap k).insert k (f (((roomFor m cap k).get? k).getD ⟨0, 0, 0, 0⟩))).size ≤ cap
  cases present : m.contains k with
  | false =>
    have room := size_roomFor positive bound present
    have grown := OrdMap.Raw.length_insert_le k (f (((roomFor m cap k).get? k).getD ⟨0, 0, 0, 0⟩)) (roomFor m cap k).entries
    exact grown.trans room
  | true =>
    have same : roomFor m cap k = m := by
      unfold roomFor
      rw [present]
      rfl
    obtain ⟨e, found⟩ := (contains_iff m k).mp present
    rw [same, size_insert_of_present found]
    exact bound

theorem update_all {P : κ → RepEntry → Prop} (held : ∀ j e, m.get? j = some e → P j e) (fresh : P k (f ⟨0, 0, 0, 0⟩))
    (grown : ∀ e, P k e → P k (f e)) {j : κ} {e : RepEntry} (found : (update m cap k f).get? j = some e) : P j e := by
  change ((roomFor m cap k).insert k (f (((roomFor m cap k).get? k).getD ⟨0, 0, 0, 0⟩))).get? j = some e at found
  rw [get?_insert] at found
  split at found
  next same =>
    subst same
    cases found
    cases before : (roomFor m cap k).get? k with
    | none => exact fresh
    | some old => exact grown old (held k old (get?_roomFor before))
  next => exact held j e (get?_roomFor found)

end Update

/-! ### What a store holds -/

structure EntryFits (e : RepEntry) : Prop where
  corrupt : e.corrupt < 2 ^ 32
  violations : e.violations < 2 ^ 32
  incidents : e.incidents < 2 ^ 16
  lastSeen : e.lastSeen < 2 ^ 64

/-- Every key and every entry fits its type. -/
structure Fits (s : ReputationStore) : Prop where
  addrs : ∀ a e, s.byAddr.get? a = some e → a.PortFits ∧ EntryFits e
  peers : ∀ p e, s.byPeer.get? p = some e → p.length = 20 ∧ EntryFits e

theorem entryFits_zero : EntryFits ⟨0, 0, 0, 0⟩ := ⟨by decide, by decide, by decide, by decide⟩

variable {s t : ReputationStore}

theorem Capped.noteBoth (capped : s.Capped) (addr : NetAddr) (pid : Option Bytes)
    (f : RepEntry → RepEntry) : (s.noteBoth addr pid f).Capped := by
  refine ⟨capped.positive, size_update capped.positive capped.addrs, ?_⟩
  cases pid with
  | none => exact capped.peers
  | some p => exact size_update capped.positive capped.peers

theorem Fits.noteBoth (fits : s.Fits) {addr : NetAddr} {pid : Option Bytes} (port : addr.PortFits)
    (full : ∀ p ∈ pid, p.length = 20) {f : RepEntry → RepEntry} (keeps : ∀ e, EntryFits e → EntryFits (f e)) :
    (s.noteBoth addr pid f).Fits := by
  constructor
  · intro a e found
    exact update_all fits.addrs ⟨port, keeps _ entryFits_zero⟩ (fun e both => ⟨port, keeps e both.2⟩) found
  · intro p e found
    cases pid with
    | none => exact fits.peers p e found
    | some q =>
      have whole := full q rfl
      exact update_all fits.peers ⟨whole, keeps _ entryFits_zero⟩ (fun e both => ⟨whole, keeps e both.2⟩) found

theorem noteHandshake_eq (s : ReputationStore) (addr : NetAddr) (pid : Bytes) (now : Nat) :
    s.noteHandshake addr pid now = s.noteBoth addr (some pid) fun e => { e with lastSeen := now } := rfl

theorem satAdd32_lt (a b : Nat) : satAdd32 a b < 2 ^ 32 := by
  unfold satAdd32
  omega

theorem Step.capped (step : s.Step t) (capped : s.Capped) : t.Capped := by
  cases step with
  | @noteHandshake addr pid now =>
    rw [noteHandshake_eq]
    exact capped.noteBoth _ _ _
  | @noteCorrupt addr pid now delta =>
    unfold ReputationStore.noteCorrupt
    split
    · exact capped
    · exact capped.noteBoth _ _ _
  | noteViolation => exact capped.noteBoth _ _ _
  | sweep now =>
    exact ⟨capped.positive, (List.length_filter_le _ _).trans capped.addrs, (List.length_filter_le _ _).trans capped.peers⟩
  | clear => exact ⟨capped.positive, Nat.zero_le _, Nat.zero_le _⟩

theorem Step.fits (step : s.Step t) (fits : s.Fits) : t.Fits := by
  cases step with
  | @noteHandshake addr pid now port full clock =>
    rw [noteHandshake_eq]
    refine fits.noteBoth port (fun p same => ?_) fun e old => ⟨old.corrupt, old.violations, old.incidents, clock⟩
    cases same
    exact full
  | @noteCorrupt addr pid now delta port full clock =>
    unfold ReputationStore.noteCorrupt
    split
    · exact fits
    · apply fits.noteBoth port full
      intro e old
      exact ⟨satAdd32_lt _ _, old.violations, by dsimp only; omega, clock⟩
  | @noteViolation addr pid now port full clock =>
    apply fits.noteBoth port full
    intro e old
    exact ⟨old.corrupt, satAdd32_lt _ _, by dsimp only; omega, clock⟩
  | sweep now =>
    constructor
    · intro a e found
      have kept := (get?_filter ..).symm.trans found
      exact fits.addrs a e (Option.filter_eq_some_iff.mp kept).1
    · intro p e found
      have kept := (get?_filter ..).symm.trans found
      exact fits.peers p e (Option.filter_eq_some_iff.mp kept).1
  | clear => exact ⟨fun a e found => (by cases found), fun p e found => (by cases found)⟩

theorem Step.limits (step : s.Step t) : t.cap = s.cap ∧ t.ttlMs = s.ttlMs := by
  cases step with
  | @noteCorrupt addr pid now delta =>
    unfold ReputationStore.noteCorrupt
    split <;> exact ⟨rfl, rfl⟩
  | noteHandshake => exact ⟨rfl, rfl⟩
  | noteViolation => exact ⟨rfl, rfl⟩
  | sweep now => exact ⟨rfl, rfl⟩
  | clear => exact ⟨rfl, rfl⟩

/-- Any number of operations. -/
def Runs : ReputationStore → ReputationStore → Prop := Relation.ReflTransGen Step

theorem Runs.capped (run : s.Runs t) (capped : s.Capped) : t.Capped := by
  induction run with
  | refl => exact capped
  | tail _ step ih => exact step.capped ih

theorem Runs.fits (run : s.Runs t) (fits : s.Fits) : t.Fits := by
  induction run with
  | refl => exact fits
  | tail _ step ih => exact step.fits ih

theorem Runs.limits (run : s.Runs t) : t.cap = s.cap ∧ t.ttlMs = s.ttlMs := by
  induction run with
  | refl => exact ⟨rfl, rfl⟩
  | tail _ step ih => exact ⟨step.limits.1.trans ih.1, step.limits.2.trans ih.2⟩

theorem capped_new (cap ttlMs : Nat) : (new cap ttlMs).Capped := ⟨le_max_right _ _, Nat.zero_le _, Nat.zero_le _⟩

theorem fits_new (cap ttlMs : Nat) : (new cap ttlMs).Fits := ⟨fun a e found => (by cases found), fun p e found => (by cases found)⟩

end ReputationStore

/-! ### Reading what was written -/

section Reading
variable {bytes : Bytes} {off : Nat}

theorem slice_at {b : Bytes} (here : At bytes off b) (nonempty : b ≠ []) : slice bytes off b.length = some b := by
  unfold slice
  rw [if_pos (here.end_le nonempty), here.take_drop]

theorem slice_write {k n : Nat} (here : At bytes off (write (k + 1) n)) :
    slice bytes off (k + 1) = some (write (k + 1) n) := by
  have found := slice_at here (by rw [write]; exact List.cons_ne_nil _ _)
  rwa [length_write] at found

theorem sliceArr_at {n : Nat} {b : ByteArr n} (here : At bytes off b.val) (positive : 0 < n) :
    sliceArr n bytes off = some b := by
  have nonempty : b.val ≠ [] := by
    intro empty
    have none := b.2
    rw [empty] at none
    exact absurd none (by simp; omega)
  have found := slice_at here nonempty
  rw [b.2] at found
  unfold sliceArr
  rw [found]
  exact dif_pos b.2

theorem rdU32_at {n : Nat} (here : At bytes off (write 4 n)) (small : n < 2 ^ 32) :
    rdU32 bytes off = some (n, off + 4) := by
  unfold rdU32
  rw [slice_write here, Option.map_some, read_write_of_lt (by omega)]

theorem rdU64_at {n : Nat} (here : At bytes off (write 8 n)) (small : n < 2 ^ 64) :
    rdU64 bytes off = some (n, off + 8) := by
  unfold rdU64
  rw [slice_write here, Option.map_some, read_write_of_lt (by omega)]

@[simp] theorem length_pushEntry (e : RepEntry) : (pushEntry e).length = 20 := by simp [pushEntry]

theorem rdEntry_at {e : RepEntry} (here : At bytes off (pushEntry e)) (fits : ReputationStore.EntryFits e) :
    rdEntry bytes off = some (e, off + 20) := by
  unfold pushEntry at here
  simp only [at_append, length_write, List.length_append] at here
  obtain ⟨⟨⟨corrupt, violations⟩, incidents⟩, lastSeen⟩ := here
  unfold rdEntry
  simp only [rdU32_at corrupt fits.corrupt, rdU32_at violations fits.violations,
    rdU32_at incidents (fits.incidents.trans (by decide)), bind, Option.bind]
  rw [rdU64_at lastSeen fits.lastSeen]
  dsimp only
  rw [Nat.mod_eq_of_lt fits.incidents]

theorem length_pushAddr (a : NetAddr) : (pushAddr a).length = 19 := by
  cases a with
  | v4 ip port => simp [pushAddr, ip.2]
  | v6 ip port => simp [pushAddr, ip.2]

theorem rdAddr_at {a : NetAddr} (here : At bytes off (pushAddr a)) (fits : a.PortFits) :
    rdAddr bytes off = some (a, off + 19) := by
  cases a with
  | v4 ip port =>
    unfold pushAddr at here
    simp only [at_append, at_cons, List.length_append, List.length_replicate, List.length_singleton, ip.2] at here
    obtain ⟨⟨⟨⟨fam, -⟩, -⟩, address⟩, portHere⟩ := here
    have ipRead : sliceArr 4 bytes (off + 1 + 12) = some ip := sliceArr_at address (by decide)
    have portRead : slice bytes (off + 1 + 16) 2 = some (write 2 port) := slice_write portHere
    have back : read (write 2 port) = port := read_write_of_lt fits
    simp [rdAddr, fam, ipRead, portRead, back]
  | v6 ip port =>
    unfold pushAddr at here
    simp only [at_append, at_cons, List.length_append, List.length_singleton, ip.2] at here
    obtain ⟨⟨⟨fam, -⟩, address⟩, portHere⟩ := here
    have ipRead : sliceArr 16 bytes (off + 1) = some ip := sliceArr_at address (by decide)
    have portRead : slice bytes (off + 1 + 16) 2 = some (write 2 port) := slice_write portHere
    have back : read (write 2 port) = port := read_write_of_lt fits
    simp [rdAddr, fam, ipRead, portRead, back]

theorem length_pushPeer {pid : Bytes} (full : pid.length = 20) : (pushPeer pid).length = 21 := by simp [pushPeer, full]

theorem rdPeer_at {pid : Bytes} (here : At bytes off (pushPeer pid)) (full : pid.length = 20) :
    rdPeer bytes off = some (pid, off + 21) := by
  unfold pushPeer at here
  simp only [at_append, at_cons, List.length_singleton] at here
  obtain ⟨⟨size, -⟩, id⟩ := here
  have idRead := slice_at id (by rintro rfl; cases full)
  rw [full] at idRead
  simp [rdPeer, size, idRead]

end Reading

namespace ReputationStore

section Records
variable {κ : Type} [LinearOrder κ] {bytes : Bytes} {push : κ → Bytes} {rd : Nat → Option (κ × Nat)} {width cap : Nat}

structure ReadsBack (bytes : Bytes) (push : κ → Bytes) (rd : Nat → Option (κ × Nat)) (width : Nat) (k : κ) (e : RepEntry) : Prop where
  sized : (push k).length = width
  key : ∀ off, At bytes off (push k) → rd off = some (k, off + width)
  entry : EntryFits e

theorem readInto_at {entries : List (κ × RepEntry)} {off : Nat} {m : OrdMap κ RepEntry}
    (reads : ∀ e ∈ entries, ReadsBack bytes push rd width e.1 e.2)
    (here : At bytes off (entries.flatMap fun e => push e.1 ++ pushEntry e.2))
    (sorted : OrdMap.Raw.Sorted (m.entries ++ entries)) (room : m.size + entries.length ≤ cap) :
    ∃ r, readInto bytes rd cap entries.length off m =
        some (r, off + (entries.flatMap fun e => push e.1 ++ pushEntry e.2).length) ∧ r.entries = m.entries ++ entries := by
  induction entries generalizing off m with
  | nil => exact ⟨m, rfl, (List.append_nil _).symm⟩
  | cons e tail ih =>
    obtain ⟨wide, key, fits⟩ := reads e List.mem_cons_self
    rw [List.flatMap_cons, at_append, at_append] at here
    obtain ⟨⟨keyHere, entryHere⟩, rest⟩ := here
    rw [wide] at entryHere
    have above : ∀ f ∈ m.entries, f.1 < e.1 := fun f member =>
      (List.pairwise_append.mp sorted).2.2 f member e List.mem_cons_self
    have last : (m.insert e.1 e.2).entries = m.entries ++ [e] := OrdMap.Raw.insert_last above
    have grown : (m.insert e.1 e.2).size = m.size + 1 := by
      rw [size, last, List.length_append, List.length_singleton, size]
    rw [List.length_cons] at room
    have ordered : OrdMap.Raw.Sorted ((m.insert e.1 e.2).entries ++ tail) := by
      rw [last, List.append_assoc]
      exact sorted
    have length : (push e.1 ++ pushEntry e.2).length = width + 20 := by rw [List.length_append, wide, length_pushEntry]
    obtain ⟨r, read, listed⟩ := ih (fun f member => reads f (List.mem_cons_of_mem e member)) rest ordered (by omega)
    rw [length, ← Nat.add_assoc] at read
    refine ⟨r, ?_, ?_⟩
    · rw [List.length_cons, readInto, key off keyHere]
      simp only [bind, Option.bind, rdEntry_at entryHere fits]
      rw [if_pos (by omega : m.size < cap), read, List.flatMap_cons, List.length_append, length]
      simp only [Nat.add_assoc]
    · rw [listed, last, List.append_assoc, List.singleton_append]

theorem readInto_records {m : OrdMap κ RepEntry} (reads : ∀ k e, m.get? k = some e → ReadsBack bytes push rd width k e)
    {off : Nat} (here : At bytes off (records push m)) (room : m.size ≤ cap) :
    readInto bytes rd cap m.size off ∅ = some (m, off + (records push m).length) := by
  have each : ∀ e ∈ m.entries, ReadsBack bytes push rd width e.1 e.2 :=
    fun e member => reads e.1 e.2 ((mem_entries_iff m e.1 e.2).mp member)
  have start : (∅ : OrdMap κ RepEntry).size + m.entries.length ≤ cap := (Nat.zero_add _).le.trans room
  have sorted : OrdMap.Raw.Sorted ((∅ : OrdMap κ RepEntry).entries ++ m.entries) := m.sorted
  obtain ⟨r, read, listed⟩ := readInto_at each here sorted start
  have same : r = m := by
    cases r
    cases m
    cases listed
    rfl
  subst same
  exact read

end Records

theorem decodeBody_encode {s : ReputationStore} (capped : s.Capped) (fits : s.Fits) (small : s.cap < 2 ^ 32)
    (ttl : s.ttlMs < 2 ^ 64) : decodeBody s.encode = some s := by
  have whole : At s.encode 0 (MAGIC ++ [1] ++ write 4 s.cap ++ write 8 s.ttlMs
    ++ write 4 s.byAddr.size ++ write 4 s.byPeer.size ++ records pushAddr s.byAddr
    ++ records pushPeer s.byPeer) := at_whole s.encode
  generalize s.encode = bytes at whole ⊢
  have magic : MAGIC.length = 5 := rfl
  simp only [at_append, List.length_append, length_write, List.length_singleton, magic, Nat.zero_add,
    Nat.reduceAdd] at whole
  obtain ⟨⟨⟨⟨⟨⟨-, capHere⟩, ttlHere⟩, addrCount⟩, peerCount⟩, addrsHere⟩, peersHere⟩ := whole
  obtain ⟨positive, addrs, peers⟩ := capped
  have addrRecords : ∀ a e, s.byAddr.get? a = some e → ReadsBack bytes pushAddr (rdAddr bytes) 19 a e := by
    intro a e found
    obtain ⟨port, entry⟩ := fits.addrs a e found
    exact ⟨length_pushAddr a, fun off here => rdAddr_at here port, entry⟩
  have peerRecords : ∀ p e, s.byPeer.get? p = some e → ReadsBack bytes pushPeer (rdPeer bytes) 21 p e := by
    intro p e found
    obtain ⟨full, entry⟩ := fits.peers p e found
    exact ⟨length_pushPeer full, fun off here => rdPeer_at here full, entry⟩
  have readAddrs := readInto_records addrRecords addrsHere addrs
  have readPeers := readInto_records peerRecords peersHere peers
  have least : max s.cap 1 = s.cap := max_eq_left positive
  have sane : ¬ satAdd s.byAddr.size s.byPeer.size > min (s.cap * 2) (2 ^ 64 - 1) + 1024 := by
    unfold satAdd
    omega
  unfold decodeBody
  simp only [rdU32_at capHere small, rdU64_at ttlHere ttl, rdU32_at addrCount (by omega), rdU32_at peerCount (by omega), bind,
    Option.bind, new, least]
  rw [if_neg sane]
  simp only [readAddrs, readPeers]

theorem decode_encode {s : ReputationStore} (capped : s.Capped) (fits : s.Fits) (small : s.cap < 2 ^ 32)
    (ttl : s.ttlMs < 2 ^ 64) : decode s.encode = .ok (some s) := by
  have long : ¬ s.encode.length < 5 + 1 + 4 + 8 + 4 + 4 := by
    have magic : MAGIC.length = 5 := rfl
    simp only [encode, List.length_append, length_write, List.length_singleton, magic]
    omega
  obtain ⟨rest, written⟩ : ∃ rest, s.encode = MAGIC ++ 1 :: rest := by
    simp only [encode, List.append_assoc]
    exact ⟨_, rfl⟩
  have magic : sliceTo s.encode 5 = .ok MAGIC := by
    rw [sliceTo, if_pos (by omega), written]
    exact congrArg Except.ok (List.take_left' rfl)
  have version : index s.encode 5 = .ok 1 := by
    rw [written]
    rfl
  have body := decodeBody_encode capped fits small ttl
  unfold decode
  rw [if_neg long]
  simp only [bind, Except.bind, magic, version, body, ne_eq, not_true_eq_false, if_false]

theorem decode_returns (bytes : Bytes) : ∃ r, decode bytes = .ok r := by
  unfold decode
  split
  · exact ⟨none, rfl⟩
  next long =>
    have magic : sliceTo bytes 5 = .ok (bytes.take 5) := if_pos (by omega)
    have inside : 5 < bytes.length := by omega
    have version : index bytes 5 = .ok bytes[5] := by
      unfold index
      rw [List.getElem?_eq_getElem inside]
    simp only [bind, Except.bind, magic, version]
    split
    · exact ⟨none, rfl⟩
    · split <;> exact ⟨_, rfl⟩

theorem size_readInto {κ : Type} [LinearOrder κ] {bytes : Bytes} {rd : Nat → Option (κ × Nat)} {cap n off next : Nat}
    {m r : OrdMap κ RepEntry} (read : readInto bytes rd cap n off m = some (r, next)) (bound : m.size ≤ cap) : r.size ≤ cap := by
  induction n generalizing off m with
  | zero =>
    cases read
    exact bound
  | succ n ih =>
    simp only [readInto, bind, Option.bind_eq_some_iff] at read
    obtain ⟨⟨k, after⟩, -, ⟨e, behind⟩, -, rest⟩ := read
    apply ih rest
    split
    next room => exact (OrdMap.Raw.length_insert_le _ _ _).trans room
    next => exact bound

theorem capped_of_decoded {bytes : Bytes} {s : ReputationStore} (decoded : decode bytes = .ok (some s)) : s.Capped := by
  have body : decodeBody bytes = some s := by
    unfold decode at decoded
    split at decoded
    · cases decoded
    cases magic : sliceTo bytes 5 with
    | error e =>
      rw [magic] at decoded
      cases decoded
    | ok front =>
      cases version : index bytes 5 with
      | error e =>
        simp only [bind, Except.bind, magic, version] at decoded
        split at decoded <;> cases decoded
      | ok v =>
        simp only [bind, Except.bind, magic, version] at decoded
        split at decoded
        · cases decoded
        · split at decoded
          · cases decoded
          · exact Except.ok.inj decoded
  simp only [decodeBody, bind, Option.bind_eq_some_iff] at body
  obtain ⟨⟨cap, a⟩, -, ⟨ttl, b⟩, -, ⟨na, c⟩, -, ⟨np, d⟩, -, body⟩ := body
  split at body
  · cases body
  obtain ⟨⟨byAddr, e⟩, addrs, body⟩ := Option.bind_eq_some_iff.mp body
  obtain ⟨⟨byPeer, f⟩, peers, same⟩ := Option.bind_eq_some_iff.mp body
  cases same
  have least := capped_new (max cap 1) ttl
  exact ⟨least.positive, size_readInto addrs least.addrs, size_readInto peers least.peers⟩

/-- The codec gives back every store that operations reach from an empty one, reads any bytes without leaving them, and neither
reading nor an operation exceeds the cap. -/
theorem reputation_codec :
    (∀ cap ttlMs s, cap < 2 ^ 32 → ttlMs < 2 ^ 64 → (new cap ttlMs).Runs s → decode s.encode = .ok (some s)) ∧
      (∀ bytes, ∃ r, decode bytes = .ok r) ∧
      (∀ cap ttlMs s, (new cap ttlMs).Runs s → s.Capped) ∧
      ∀ bytes s t, decode bytes = .ok (some s) → s.Runs t → t.Capped := by
  refine ⟨?_, decode_returns, ?_, ?_⟩
  · intro cap ttlMs s small ttl run
    have limits := run.limits
    apply decode_encode (run.capped (capped_new cap ttlMs)) (run.fits (fits_new cap ttlMs))
    · rw [limits.1]
      exact max_lt small (by decide)
    · rw [limits.2]
      exact ttl
  · exact fun cap ttlMs s run => run.capped (capped_new cap ttlMs)
  · exact fun bytes s t decoded run => run.capped (capped_of_decoded decoded)

def culprit : NetAddr := .ofOctets 10 0 0 7 6881

def suspecting : ReputationStore :=
  ((new 16 1000).noteCorrupt culprit (some (List.replicate 20 9)) 3 100).noteViolation culprit (some (List.replicate 20 9)) 100

theorem reputation_codec_suspecting : decode suspecting.encode = .ok (some suspecting) := by
  have full : ∀ p ∈ some (List.replicate 20 (9 : UInt8)), p.length = 20 := by
    intro p same
    cases same
    rfl
  have port : culprit.PortFits := (by decide : 6881 < 2 ^ 16)
  have first : (new 16 1000).Runs ((new 16 1000).noteCorrupt culprit (some (List.replicate 20 9)) 3 100) :=
    .single (.noteCorrupt 3 port full (by decide))
  exact reputation_codec.1 16 1000 suspecting (by decide) (by decide) (first.tail (.noteViolation port full (by decide)))

end ReputationStore
end TypeBit.Leech
