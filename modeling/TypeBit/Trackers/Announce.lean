import TypeBit.Engine.State
import TypeBit.Utp.Socket

/-! The trackers of a session (`session.rs`, `tracker.rs`): the round of announces over HTTP and UDP, and the
replies of UDP trackers. The numbers of UDP requests come from the clock. -/

namespace TypeBit.Trackers
open Metainfo Wire Session Utp

def HTTP_ANNOUNCE_PENDING_MS : Nat := 5000
def HTTP_ANNOUNCE_TIMEOUT_MS : Nat := 15000
def HTTP_ANNOUNCE_BATCH : Nat := 4
def MAX_ATTEMPTS : Nat := 3

inductive TrackerKind where
  | http
  | udp
  deriving DecidableEq, Repr

inductive UdpPhase where
  | idle
  | connectSent
  | announceSent
  deriving DecidableEq, Repr

structure UdpTrackerState where
  phase : UdpPhase := .idle
  connId : Nat := 0
  tid : Nat := 0
  attempts : Nat := 0
  addrs : List NetAddr := []
  addrIdx : Nat := 0
  sentAt : Nat := 0
  deriving DecidableEq

namespace UdpTrackerState

def currentAddr (u : UdpTrackerState) : Option NetAddr := u.addrs[u.addrIdx]?

def nextAddr (u : UdpTrackerState) : UdpTrackerState :=
  if u.addrs.length ≤ 1 then u else { u with addrIdx := (u.addrIdx + 1) % u.addrs.length }

@[simp] theorem phase_nextAddr (u : UdpTrackerState) : u.nextAddr.phase = u.phase := by
  unfold nextAddr
  split
  · rfl
  · rfl

def rest (u : UdpTrackerState) : UdpTrackerState := { u with phase := .idle, attempts := 0 }

@[simp] theorem phase_rest (u : UdpTrackerState) : u.rest.phase = .idle := rfl

end UdpTrackerState

structure TrackerState where
  url : Bytes
  kind : TrackerKind
  tier : Nat
  interval : Nat := 1800
  nextAnnounce : Nat := 0
  httpPendingUntil : Nat := 0
  httpJobId : Nat := 0
  failure : Option Bytes := none
  fails : Nat := 0
  udp : UdpTrackerState := {}
  deriving DecidableEq

def TrackerState.fail (t : TrackerState) (reason : String) : TrackerState :=
  { t with fails := Leech.satAdd32 t.fails 1, failure := some (ascii reason) }

@[simp] theorem TrackerState.udp_fail (t : TrackerState) (reason : String) : (t.fail reason).udp = t.udp := rfl

structure Announcer where
  sess : TorrentSession
  trackers : List TrackerState
  trackerCursor : Nat := 0

structure AnnounceParams where
  trackerHash : Bytes
  peerId : ByteArr 20
  port : Nat
  uploaded : Nat
  downloaded : Nat
  left : Nat
  event : TrackerEvent
  numwant : Nat := 200
  key : Nat := 0x54594254

structure TrackerResponse where
  interval : Nat
  complete : Option Nat := none
  incomplete : Option Nat := none
  peers : List NetAddr := []
  failure : Option Bytes := none

/-- What a synchronous HTTP announce comes to: a response, an unreadable body, or no answer. -/
inductive HttpOutcome where
  | response (resp : TrackerResponse)
  | bad
  | error

/-- The host calls of an announce. The HTTP calls get the tracker's URL and the parameters that the query string is
made of; the synchronous one goes through the proxy when the flag says so. -/
structure TrackerHost (H : Type) extends UdpHost H where
  resolveHostAll : H → Bytes → Nat → List NetAddr × H
  httpGetAsync : H → Bytes → AnnounceParams → Nat → Nat × H
  httpGet : H → Bool → Bytes → AnnounceParams → Nat → HttpOutcome × H

/-! ### Texts -/

/-- `String::from_utf8_lossy`, character by character: each ill-formed run becomes U+FFFD. The first argument bounds
the number of characters. -/
def lossyChars : Nat → Bytes → List Bytes
  | _, [] => []
  | 0, _ :: _ => []
  | n + 1, a :: tail =>
      let broken : Bytes := [0xEF, 0xBF, 0xBD]
      if a < 0x80 then [a] :: lossyChars n tail
      else if 0xC2 ≤ a ∧ a ≤ 0xDF then
        match tail with
        | b :: more => if isCont b then [a, b] :: lossyChars n more else broken :: lossyChars n tail
        | [] => [broken]
      else if 0xE0 ≤ a ∧ a ≤ 0xEF then
        match tail with
        | b :: more =>
            if !secondOk a b then broken :: lossyChars n tail
            else match more with
              | c :: rest => if isCont c then [a, b, c] :: lossyChars n rest else broken :: lossyChars n more
              | [] => [broken]
        | [] => [broken]
      else if 0xF0 ≤ a ∧ a ≤ 0xF4 then
        match tail with
        | b :: more =>
            if !secondOk a b then broken :: lossyChars n tail
            else match more with
              | c :: rest =>
                  if !isCont c then broken :: lossyChars n more
                  else match rest with
                    | d :: last => if isCont d then [a, b, c, d] :: lossyChars n last else broken :: lossyChars n rest
                    | [] => [broken]
              | [] => [broken]
        | [] => [broken]
      else broken :: lossyChars n tail

def errorReason (b : Bytes) : Bytes :=
  let reason := ((lossyChars b.length b).take 128).flatten
  if reason = [] then ascii "udp tracker error" else reason

def parseUint (limit : Nat) (s : Bytes) : Option Nat :=
  let digits := if s.head? = some (ch '+') then s.drop 1 else s
  if digits = [] ∨ !digits.all (fun c => ch '0' ≤ c && c ≤ ch '9') then none
  else
    let value := digits.foldl (fun acc c => acc * 10 + (c - ch '0').toNat) 0
    if value ≤ limit then some value else none

def splitOn (sep : UInt8) : Bytes → List Bytes
  | [] => [[]]
  | c :: tail =>
      if c = sep then [] :: splitOn sep tail
      else match splitOn sep tail with
        | part :: others => (c :: part) :: others
        | [] => [[c]]

def rsplitOnce (sep : UInt8) (s : Bytes) : Option (Bytes × Bytes) :=
  if s.contains sep then
    let back := s.reverse.takeWhile (· != sep)
    some (s.take (s.length - back.length - 1), back.reverse)
  else none

def ipv4Literal (host : Bytes) : Option (ByteArr 4) :=
  match (splitOn (ch '.') host).map (parseUint 255) with
  | [some a, some b, some c, some d] => some ⟨[a.toUInt8, b.toUInt8, c.toUInt8, d.toUInt8], rfl⟩
  | _ => none

def parseUdpTrackerAddr {H : Type} (resolve : H → Bytes → Nat → List NetAddr × H) (h : H) (url : Bytes) : List NetAddr × H :=
  if !utf8Valid url.length url || !(ascii "udp://").isPrefixOf url then ([], h)
  else
    let hostport := (url.drop 6).takeWhile (· != ch '/')
    match rsplitOnce (ch ':') hostport with
    | none => ([], h)
    | some (name, port) =>
        match parseUint (2 ^ 16 - 1) port with
        | none => ([], h)
        | some port =>
            match ipv4Literal name with
            | some ip => ([.v4 ip port], h)
            | none =>
                let bare := ((name.dropWhile (· == ch '[')).reverse.dropWhile (· == ch ']')).reverse
                resolve h bare port

/-! ### The UDP protocol -/

def PROTOCOL_ID : Nat := 0x0000041727101980
def ACTION_CONNECT : Nat := 0
def ACTION_ANNOUNCE : Nat := 1
def ACTION_ERROR : Nat := 3

def toBe64 (n : Nat) : Bytes := toBe32 (n / 2 ^ 32) ++ toBe32 n

def be64 (b : Bytes) : Nat := be32 b * 2 ^ 32 + be32 (b.drop 4)

def randU32 (seed : Nat) : Nat :=
  let z := wadd seed 0x9E3779B97F4A7C15
  let z := (z ^^^ (z >>> 30)) * 0xBF58476D1CE4E5B9 % 2 ^ 64
  let z := (z ^^^ (z >>> 27)) * 0x94D049BB133111EB % 2 ^ 64
  (z ^^^ (z >>> 31)) % 2 ^ 32

def buildConnectRequest (tid : Nat) : Bytes := toBe64 PROTOCOL_ID ++ toBe32 ACTION_CONNECT ++ toBe32 tid

def udpCode : TrackerEvent → Nat
  | .none => 0
  | .completed => 1
  | .started => 2
  | .stopped => 3

def buildAnnounceRequest (connId tid : Nat) (p : AnnounceParams) : Bytes :=
  toBe64 connId ++ toBe32 ACTION_ANNOUNCE ++ toBe32 tid ++ p.trackerHash ++ p.peerId.val ++ toBe64 p.downloaded
    ++ toBe64 p.left ++ toBe64 p.uploaded ++ toBe32 (udpCode p.event) ++ toBe32 0 ++ toBe32 p.key ++ toBe32 p.numwant
    ++ toBe16 p.port

def parseConnectResponse (buf : Bytes) (tid : Nat) : Option Nat :=
  if buf.length < 16 ∨ be32 (buf.drop 4) ≠ tid ∨ be32 buf ≠ ACTION_CONNECT then none else some (be64 (buf.drop 8))

def parseAnnounceResponse (buf : Bytes) (tid : Nat) : Option TrackerResponse :=
  if buf.length < 20 ∨ be32 (buf.drop 4) ≠ tid then none
  else if be32 buf = ACTION_ERROR then
    some { interval := 0, failure := some (lossyChars buf.length (buf.drop 8)).flatten }
  else if be32 buf ≠ ACTION_ANNOUNCE then none
  else some {
    interval := be32 (buf.drop 8)
    incomplete := some (be32 (buf.drop 12))
    complete := some (be32 (buf.drop 16))
    peers := if (buf.length - 20) % 6 = 0 then (chunks 6 (buf.drop 20)).filterMap NetAddr.fromCompact6 else [] }

/-! ### The list of trackers -/

def detectTrackerKind (url : Bytes) : TrackerKind := if (ascii "udp://").isPrefixOf url then .udp else .http

def pushTracker (trackers : List TrackerState) (url : Bytes) (tier : Nat) : List TrackerState :=
  if trackers.any (fun t => decide (t.url = url)) then trackers
  else trackers ++ [{ url, kind := detectTrackerKind url, tier }]

namespace Announcer

def addTracker (a : Announcer) (url : Bytes) : Bool × Announcer :=
  (decide (a.trackers.length < (pushTracker a.trackers url 0).length), { a with trackers := pushTracker a.trackers url 0 })

def removeTracker (a : Announcer) (url : Bytes) : Bool × Announcer :=
  let kept := a.trackers.filter fun t => decide (t.url ≠ url)
  (decide (kept.length < a.trackers.length), { a with trackers := kept })

/-! ### Announcing -/

def putTracker (a : Announcer) (idx : Nat) (t : TrackerState) : Announcer := { a with trackers := a.trackers.set idx t }

def announceNext (a : Announcer) (time : Nat) : Announcer := { a with sess := { a.sess with announceAt := time } }

def advance (a : Announcer) : Announcer := { a with trackerCursor := (a.trackerCursor + 1) % a.trackers.length }

def left (a : Announcer) : Nat :=
  match a.sess.torrent with
  | some t => t.totalSize - a.sess.downloadedBytes
  | none => 0

def params (a : Announcer) (env : Env) (port : Nat) (event : TrackerEvent) : AnnounceParams where
  trackerHash := a.sess.trackerHash
  peerId := env.peerId
  port := port
  uploaded := a.sess.uploadedBytes
  downloaded := a.sess.downloadedBytes
  left := a.left
  event := event

def onTrackerPeers (a : Announcer) (resp : TrackerResponse) (now : Nat) : Announcer :=
  { a with sess := resp.peers.foldl (fun s p => enqueuePeer p .tracker now s) a.sess }

def applyTrackerResponse (a : Announcer) (idx : Nat) (resp : TrackerResponse) (now : Nat) : Announcer :=
  match a.trackers[idx]? with
  | none => a
  | some t =>
      let interval := max resp.interval 30
      let t := { t with interval, nextAnnounce := wadd now (interval * 1000), failure := none, fails := 0 }
      let a := (a.putTracker idx t).onTrackerPeers resp now
      { a with trackerCursor := (idx + 1) % a.trackers.length }.announceNext (wadd now (interval * 1000))

variable {H : Type} (host : TrackerHost H) (env : Env)

/-- What an HTTP tracker's turn in a round comes to: it waits for an earlier request, a request is under way in the
background, a response ended the round, or nothing came of it. -/
inductive HttpTurn where
  | waiting
  | fired
  | done
  | failed

def announceHttp (p : AnnounceParams) (idx : Nat) (t : TrackerState) (a : Announcer) (h : H) : HttpTurn × Announcer × H :=
  if env.now < t.httpPendingUntil then (.waiting, a, h)
  else
    let t := { t with httpPendingUntil := wadd env.now HTTP_ANNOUNCE_PENDING_MS }
    let (job, h) := if a.sess.cfg.proxied then (0, h) else host.httpGetAsync h t.url p HTTP_ANNOUNCE_TIMEOUT_MS
    if job ≠ 0 then (.fired, a.putTracker idx { t with httpJobId := job }, h)
    else
      match host.httpGet h a.sess.cfg.proxied t.url p HTTP_ANNOUNCE_TIMEOUT_MS with
      | (.response resp, h) =>
          match resp.failure with
          | some reason =>
              (.failed, a.putTracker idx { t with failure := some reason, fails := Leech.satAdd32 t.fails 1 }, h)
          | none => (.done, (a.putTracker idx t).applyTrackerResponse idx resp env.now, h)
      | (.bad, h) => (.failed, a.putTracker idx (t.fail "bad response"), h)
      | (.error, h) =>
          let reason := if a.sess.cfg.proxied then "udp disabled in proxy mode" else "http error"
          (.failed, a.putTracker idx (t.fail reason), h)

def sendRequest (request : Bytes) (t : TrackerState) (h : H) : TrackerState × H :=
  match t.udp.currentAddr with
  | none => (t, h)
  | some addr =>
      match host.udpSend h addr request with
      | (.ok _, h) => (t, h)
      | (.error _, h) => ({ t with udp := t.udp.rest.nextAddr }.fail "udp send failed", h)

def retryUdp (t : TrackerState) (h : H) : Bool × TrackerState × H :=
  let retry := if t.udp.phase = .connectSent then 3000 else 15000
  if t.udp.phase = .idle ∨ env.now - t.udp.sentAt < retry then (false, t, h)
  else if MAX_ATTEMPTS ≤ t.udp.attempts ∨ t.udp.phase ≠ .connectSent then
    (false, { t with udp := t.udp.rest.nextAddr }.fail "udp tracker timeout", h)
  else
    let t := { t with udp := { t.udp with attempts := t.udp.attempts + 1, sentAt := env.now, tid := randU32 env.now } }
    (true, sendRequest host (buildConnectRequest t.udp.tid) t h)

def connectUdp (t : TrackerState) (h : H) : TrackerState × H :=
  if t.udp.phase ≠ .idle then (t, h)
  else
    let (addrs, addrIdx, h) :=
      if t.udp.addrs = [] then
        let (addrs, h) := parseUdpTrackerAddr host.resolveHostAll h t.url
        (addrs, 0, h)
      else (t.udp.addrs, t.udp.addrIdx, h)
    let t := { t with udp := { t.udp with addrs, addrIdx } }
    match t.udp.currentAddr with
    | none => (t.fail "resolve failed", h)
    | some _ =>
        let t := { t with udp := { t.udp with phase := .connectSent, tid := randU32 env.now, sentAt := env.now, attempts := 0 } }
        sendRequest host (buildConnectRequest t.udp.tid) t h

def announceUdp (t : TrackerState) (h : H) : Bool × TrackerState × H :=
  match retryUdp host env t h with
  | (true, t, h) => (true, t, h)
  | (false, t, h) =>
      let (t, h) := connectUdp host env t h
      (decide (t.udp.phase = .connectSent), t, h)

def announceLoop (p : AnnounceParams) : Nat → Bool → Nat → Announcer → H → Announcer × H
  | 0, skipped, _, a, h => (a.announceNext (wadd env.now (if skipped then HTTP_ANNOUNCE_PENDING_MS else 30000)), h)
  | turns + 1, skipped, fired, a, h =>
      let idx := a.trackerCursor % a.trackers.length
      match a.trackers[idx]? with
      | none => (a, h)
      | some t =>
          if 3 ≤ t.fails then announceLoop p turns skipped fired a.advance h
          else
            match t.kind with
            | .http =>
                match announceHttp host env p idx t a h with
                | (.waiting, a, h) => announceLoop p turns true fired a.advance h
                | (.fired, a, h) =>
                    if HTTP_ANNOUNCE_BATCH ≤ fired + 1 then (a.advance.announceNext (wadd env.now HTTP_ANNOUNCE_PENDING_MS), h)
                    else announceLoop p turns skipped (fired + 1) a.advance h
                | (.done, a, h) => (a, h)
                | (.failed, a, h) => announceLoop p turns skipped fired a.advance h
            | .udp =>
                match announceUdp host env t h with
                | (true, t, h) => ((a.putTracker idx t).advance.announceNext (wadd env.now 3000), h)
                | (false, t, h) => announceLoop p turns skipped fired (a.putTracker idx t).advance h

def announceToTracker (event : TrackerEvent) (a : Announcer) (h : H) : Announcer × H :=
  if a.trackers = [] then (a.announceNext (wadd env.now (15 * 60 * 1000)), h)
  else announceLoop host env (a.params env (if a.sess.cfg.proxied then 0 else env.port) event) a.trackers.length false 0 a h

/-! ### Replies of UDP trackers -/

end Announcer

/-- Whether a datagram has the number of the request that a tracker is waiting on, and an action for its phase. -/
def TrackerState.takes (data : Bytes) (t : TrackerState) : Bool :=
  decide (t.kind = .udp ∧ t.udp.phase ≠ .idle ∧ 8 ≤ data.length ∧ be32 (data.drop 4) = t.udp.tid ∧
    (be32 data = ACTION_ERROR ∨ (t.udp.phase = .connectSent ∧ be32 data = ACTION_CONNECT) ∨
      (t.udp.phase = .announceSent ∧ be32 data = ACTION_ANNOUNCE)))

namespace Announcer
variable {H : Type} (host : UdpHost H) (env : Env)

def onConnected (idx connId : Nat) (t : TrackerState) (a : Announcer) (h : H) : Announcer × H :=
  let t := { t with udp := { t.udp with connId, phase := .announceSent, tid := randU32 env.now, sentAt := env.now, attempts := 0 } }
  let request := buildAnnounceRequest connId t.udp.tid (a.params env env.port .none)
  match t.udp.currentAddr with
  | none => ((a.putTracker idx t).announceNext (wadd env.now 15000), h)
  | some addr =>
      match host.udpSend h addr request with
      | (.ok _, h) => ((a.putTracker idx t).announceNext (wadd env.now 15000), h)
      | (.error _, h) =>
          ((a.putTracker idx ({ t with udp := t.udp.rest.nextAddr }.fail "udp send failed")).announceNext (wadd env.now 15000), h)

def onAnnounced (idx : Nat) (resp : TrackerResponse) (t : TrackerState) (a : Announcer) : Announcer :=
  let interval := max resp.interval 30
  let time := wadd env.now (interval * 1000)
  let t := { t with interval, nextAnnounce := time, udp := t.udp.rest, fails := 0, failure := none }
  ((a.putTracker idx t).announceNext time).onTrackerPeers resp env.now

def onReply (data : Bytes) (idx : Nat) (t : TrackerState) (a : Announcer) (h : H) : Announcer × H :=
  if be32 data = ACTION_ERROR then
    let t := { t with udp := t.udp.rest.nextAddr, fails := Leech.satAdd32 t.fails 1, failure := some (errorReason (data.drop 8)) }
    ((a.putTracker idx t).announceNext (wadd env.now 30000), h)
  else
    match t.udp.phase with
    | .idle => (a, h)
    | .connectSent =>
        match parseConnectResponse data t.udp.tid with
        | some connId => onConnected host env idx connId t a h
        | none =>
            let t := { t with udp := t.udp.rest.nextAddr, fails := Leech.satAdd32 t.fails 1 }
            ((a.putTracker idx t).announceNext (wadd env.now 15000), h)
    | .announceSent =>
        match parseAnnounceResponse data t.udp.tid with
        | some resp => (onAnnounced env idx resp t a, h)
        | none => (a.putTracker idx { t with udp := t.udp.rest }, h)

def onUdpTrackerDatagram (_addr : NetAddr) (data : Bytes) (a : Announcer) (h : H) : Announcer × H :=
  match a.trackers.findIdx? (TrackerState.takes data) with
  | none => (a, h)
  | some idx =>
      match a.trackers[idx]? with
      | none => (a, h)
      | some t => onReply host env data idx t a h

end Announcer

/-! ### The engine's sessions -/

/-- Whether `drive_udp` hands a datagram to the trackers: no LSD announce, no uTP packet, no DHT message. -/
def isTrackerDatagram (payload : Bytes) : Bool :=
  !(ascii "BT-SEARCH").isPrefixOf payload &&
    !(decide (HDR_LEN ≤ payload.length) && decide ((payload.getD 0 0).toNat &&& 0x0F = UTP_VERSION)) &&
    !decide (payload.head? = some (ch 'd')) && decide (8 ≤ payload.length)

structure Sessions (H : Type) where
  all : OrdMap InfoHash Announcer
  host : H

namespace Sessions
variable {H : Type}

def onSession (call : Announcer → H → Announcer × H) (st : Sessions H) (hash : InfoHash) : Sessions H :=
  match st.all.get? hash with
  | none => st
  | some a => ⟨st.all.insert hash (call a st.host).1, (call a st.host).2⟩

def onDatagram (host : UdpHost H) (env : Env) (addr : NetAddr) (payload : Bytes) (st : Sessions H) : Sessions H :=
  if isTrackerDatagram payload then
    st.all.keys.foldl (onSession (Announcer.onUdpTrackerDatagram host env addr payload)) st
  else st

def announce (host : TrackerHost H) (env : Env) (hash : InfoHash) (event : TrackerEvent) (st : Sessions H) : Sessions H :=
  st.onSession (Announcer.announceToTracker host env event) hash

end Sessions
end TypeBit.Trackers
