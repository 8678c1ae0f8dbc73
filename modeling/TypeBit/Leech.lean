import TypeBit.Platform
import TypeBit.Lib.OrdMap

/-! The anti-leech ledgers of `leech.rs` that the session consults: client fingerprints, the ban
list, the reputation store and corrupt-block attribution. Counters saturate at 32 or 16 bits. -/

namespace TypeBit.Leech

inductive ClientClass where
  | standard
  | leech
  | unknown
  deriving DecidableEq, Repr

structure ClientId where
  code : Bytes
  codeLen : Nat
  cls : ClientClass
  deriving DecidableEq, Repr

def ClientId.new (code : Bytes) (cls : ClientClass) : ClientId :=
  ⟨code.take 4 ++ List.replicate (4 - min code.length 4) (ch '?'), min code.length 4, cls⟩

def leechCodes : List Bytes := ["XL", "SD", "QD", "FG", "7X"].map ascii

def standardCodes : List Bytes :=
  ["qB", "TR", "LT", "AR", "RT", "DE", "UT", "BC", "TS", "FD", "BE", "AB", "AZ", "KT", "lt", "MP", "XT", "WW",
    "M4", "M5", "M7", "S3", "T3", "A2", "O3"].map ascii

def classify (code : Bytes) : ClientClass :=
  if code.length < 2 then .unknown
  else if code.take 2 ∈ leechCodes then .leech
  else if code.take 2 ∈ standardCodes then .standard
  else .unknown

def isAlpha (c : UInt8) : Bool := (ch 'a' ≤ c && c ≤ ch 'z') || (ch 'A' ≤ c && c ≤ ch 'Z')
def isDigit (c : UInt8) : Bool := ch '0' ≤ c && c ≤ ch '9'

def fingerprint (peerId : Bytes) : ClientId :=
  let a := peerId.getD 0 0
  let b := peerId.getD 1 0
  if a = ch '-' then ClientId.new ((peerId.drop 1).take 4) (classify ((peerId.drop 1).take 4))
  else if isAlpha a && (isAlpha b || isDigit b) then ClientId.new (peerId.take 2) (classify (peerId.take 2))
  else if a = ch '7' && isDigit b then ClientId.new (ascii "7XL") .leech
  else ClientId.new (ascii "????") .unknown

structure PeerReputation where
  client : Option ClientId
  corruptBlocks : Nat
  protocolViolations : Nat
  deriving DecidableEq, Repr

def PeerReputation.default : PeerReputation := ⟨none, 0, 0⟩

def satAdd32 (a b : Nat) : Nat := min (a + b) (2 ^ 32 - 1)

structure LeechConfig where
  snubTimeoutMs : Nat
  corruptBanThreshold : Nat
  banTtlMs : Nat
  maxBans : Nat
  protocolBanThreshold : Nat
  maxPeersPerSubnet : Nat
  repStoreCap : Nat
  repTtlMs : Nat
  cancelSpamThreshold : Nat
  invalidRequestThreshold : Nat
  deriving DecidableEq, Repr

def LeechConfig.default : LeechConfig where
  snubTimeoutMs := 60000
  corruptBanThreshold := 3
  banTtlMs := 30 * 60 * 1000
  maxBans := 4096
  protocolBanThreshold := 5
  maxPeersPerSubnet := 8
  repStoreCap := 8192
  repTtlMs := 7 * 24 * 3600 * 1000
  cancelSpamThreshold := 8
  invalidRequestThreshold := 4

/-! ### Bans -/

inductive BanReason where
  | corrupt
  | protocol
  | freeRide
  | timeout
  deriving DecidableEq, Repr

structure BanEntry where
  till : Nat
  reason : BanReason
  deriving DecidableEq, Repr

structure BanManager where
  byAddr : OrdMap NetAddr BanEntry
  byPeer : OrdMap Bytes BanEntry
  max : Nat
  deriving DecidableEq

namespace BanManager

def new (limit : Nat) : BanManager := ⟨∅, ∅, Max.max limit 1⟩

def admitted {κ : Type} [LinearOrder κ] (m : OrdMap κ BanEntry) (limit : Nat) (k : κ) (e : BanEntry) : OrdMap κ BanEntry :=
  if m.size < limit ∨ m.contains k then m.insert k e else m

def ban (b : BanManager) (addr : NetAddr) (peerId : Option Bytes) (ttlMs : Nat) (reason : BanReason) (now : Nat) :
    BanManager :=
  if ttlMs = 0 then b
  else
    let entry : BanEntry := ⟨satAdd now ttlMs, reason⟩
    { b with
      byAddr := admitted b.byAddr b.max addr entry
      byPeer := match peerId with
        | some pid => admitted b.byPeer b.max pid entry
        | none => b.byPeer }

def isBanned (b : BanManager) (addr : NetAddr) (now : Nat) : Bool :=
  ((b.byAddr.get? addr).map (fun e => decide (e.till > now))).getD false

def peerIdBanned (b : BanManager) (peerId : Bytes) (now : Nat) : Bool :=
  ((b.byPeer.get? peerId).map (fun e => decide (e.till > now))).getD false

def sweep (b : BanManager) (now : Nat) : BanManager :=
  { b with
    byAddr := b.byAddr.filter (fun _ e => decide (e.till > now))
    byPeer := b.byPeer.filter (fun _ e => decide (e.till > now)) }

end BanManager

/-! ### Reputation -/

structure RepEntry where
  corrupt : Nat
  violations : Nat
  incidents : Nat
  lastSeen : Nat
  deriving DecidableEq, Repr

structure ReputationStore where
  byAddr : OrdMap NetAddr RepEntry
  byPeer : OrdMap Bytes RepEntry
  cap : Nat
  ttlMs : Nat
  deriving DecidableEq

namespace ReputationStore

def new (cap ttlMs : Nat) : ReputationStore := ⟨∅, ∅, max cap 1, ttlMs⟩

def oldest {κ : Type} : List (κ × RepEntry) → Option κ
  | [] => none
  | e :: tail => some (tail.foldl (fun best f => if f.2.lastSeen < best.2.lastSeen then f else best) e).1

def update {κ : Type} [LinearOrder κ] (m : OrdMap κ RepEntry) (cap : Nat) (k : κ) (f : RepEntry → RepEntry) :
    OrdMap κ RepEntry :=
  let m := if !m.contains k && decide (m.size ≥ cap) then ((oldest m.entries).map m.erase).getD m else m
  m.insert k (f ((m.get? k).getD ⟨0, 0, 0, 0⟩))

def noteHandshake (s : ReputationStore) (addr : NetAddr) (peerId : Bytes) (now : Nat) : ReputationStore :=
  { s with
    byAddr := update s.byAddr s.cap addr (fun e => { e with lastSeen := now })
    byPeer := update s.byPeer s.cap peerId (fun e => { e with lastSeen := now }) }

def noteBoth (s : ReputationStore) (addr : NetAddr) (peerId : Option Bytes) (f : RepEntry → RepEntry) : ReputationStore :=
  { s with
    byAddr := update s.byAddr s.cap addr f
    byPeer := match peerId with
      | some pid => update s.byPeer s.cap pid f
      | none => s.byPeer }

def noteCorrupt (s : ReputationStore) (addr : NetAddr) (peerId : Option Bytes) (delta now : Nat) : ReputationStore :=
  if delta = 0 then s
  else s.noteBoth addr peerId (fun e =>
    { e with corrupt := satAdd32 e.corrupt delta, incidents := min (e.incidents + 1) (2 ^ 16 - 1), lastSeen := now })

def noteViolation (s : ReputationStore) (addr : NetAddr) (peerId : Option Bytes) (now : Nat) : ReputationStore :=
  s.noteBoth addr peerId (fun e =>
    { e with violations := satAdd32 e.violations 1, incidents := min (e.incidents + 1) (2 ^ 16 - 1), lastSeen := now })

def storedFor (s : ReputationStore) (peerId : Bytes) : Option (Nat × Nat) :=
  (s.byPeer.get? peerId).map (fun e => (e.corrupt, e.violations))

def sweep (s : ReputationStore) (now : Nat) : ReputationStore :=
  { s with
    byAddr := s.byAddr.filter (fun _ e => decide (now - e.lastSeen < s.ttlMs))
    byPeer := s.byPeer.filter (fun _ e => decide (now - e.lastSeen < s.ttlMs)) }

end ReputationStore

def attributeCorruption (suppliers : OrdMap ConnId Nat) (totalBlocks : Nat) : List (ConnId × Nat) :=
  suppliers.entries.filterMap (fun e =>
    let frac := min (e.2 * 100) (2 ^ 32 - 1) / max totalBlocks 1
    if frac ≥ 50 then some (e.1, 2) else if frac ≥ 20 then some (e.1, 1) else none)

end TypeBit.Leech
