import TypeBit.Trackers.Announce
import TypeBit.Session.Standing
import TypeBit.Dht.Model

/-! The network side of an engine (`engine.rs`, `socks.rs`): what it asks its host to resolve, open, send, fetch and
connect to, and the guards in front of each call. What a session does besides comes with the call; what the port
mapper, uTP, LSD and arriving datagrams do behind their guards is left open. -/

namespace TypeBit.Network
open Metainfo Wire Session Trackers

def BOOTSTRAP_RETRY_MS : Nat := 5000
def DHT_REBOOTSTRAP_THRESHOLD : Nat := 8
def LSD_PORT : Nat := 6771
def LSD_GROUP_V4 : NetAddr := .v4 ⟨[239, 192, 152, 143], rfl⟩ 6771
def LSD_GROUP_V6 : NetAddr := .v6 ⟨[0xff, 0x15, 0, 0, 0, 0, 0, 0, 0, 0, 0, 0, 0xef, 0xc0, 0x98, 0x8f], rfl⟩ 6771

def DHT_BOOTSTRAP : List (Bytes × Nat) :=
  [(ascii "router.bittorrent.com", 6881), (ascii "dht.transmissionbt.com", 6881), (ascii "router.utorrent.com", 6881),
    (ascii "router.transmissionbt.com", 6881), (ascii "dht.libtorrent.org", 25401), (ascii "dht.aelitis.com", 6881),
    (ascii "dht.bitcomet.com", 6881), (ascii "router.bitcomet.com", 6881), (ascii "dht.dhtool.com", 6881)]

/-! ### The host -/

inductive NetCall where
  | resolve (name : Bytes) (port : Nat)
  | udpOpen (port : Nat)
  | udpJoin (group : NetAddr)
  | udpSend (addr : NetAddr) (payload : Bytes)
  | http (url : Bytes)
  | connect (addr : NetAddr)
  deriving DecidableEq

/-- The network calls of the host, and an HTTP request through an open proxy connection. -/
structure NetHost (H : Type) where
  takeResolvedHosts : H → List (Bytes × Nat × NetAddr) × H
  resolveHostAsync : H → Bytes → Nat → Bool × H
  resolveHost : H → Bytes → Nat → Option NetAddr × H
  resolveHostAll : H → Bytes → Nat → List NetAddr × H
  udpOpen : H → Nat → Result Unit × H
  udpJoinMulticast : H → NetAddr → H
  udpOpenLsd : H → Nat → H
  udpJoinMulticastLsd : H → NetAddr → H
  udpSend : H → NetAddr → Bytes → Result Unit × H
  httpGetAsync : H → Bytes → Nat → Nat × H
  httpGet : H → Bytes → Nat → HttpOutcome × H
  httpGetRangeAsync : H → Bytes → Nat → Nat → Nat → Nat × H
  httpGetRange : H → Bytes → Nat → Nat → Nat → H
  tcpConnect : H → NetAddr → Result ConnId × H
  proxyGet : H → ConnId → Bytes → HttpOutcome × H

/-- A host with every call that left the machine. -/
structure Recorded (H : Type) where
  inner : H
  calls : List NetCall := []

def Recorded.note {H : Type} (w : Recorded H) (call : NetCall) (inner : H) : Recorded H := { inner, calls := w.calls ++ [call] }

def recording {H : Type} (net : NetHost H) : NetHost (Recorded H) where
  takeResolvedHosts w := ((net.takeResolvedHosts w.inner).1, { w with inner := (net.takeResolvedHosts w.inner).2 })
  resolveHostAsync w name port :=
    ((net.resolveHostAsync w.inner name port).1, w.note (.resolve name port) (net.resolveHostAsync w.inner name port).2)
  resolveHost w name port :=
    ((net.resolveHost w.inner name port).1, w.note (.resolve name port) (net.resolveHost w.inner name port).2)
  resolveHostAll w name port :=
    ((net.resolveHostAll w.inner name port).1, w.note (.resolve name port) (net.resolveHostAll w.inner name port).2)
  udpOpen w port := ((net.udpOpen w.inner port).1, w.note (.udpOpen port) (net.udpOpen w.inner port).2)
  udpJoinMulticast w group := w.note (.udpJoin group) (net.udpJoinMulticast w.inner group)
  udpOpenLsd w port := w.note (.udpOpen port) (net.udpOpenLsd w.inner port)
  udpJoinMulticastLsd w group := w.note (.udpJoin group) (net.udpJoinMulticastLsd w.inner group)
  udpSend w addr payload := ((net.udpSend w.inner addr payload).1, w.note (.udpSend addr payload) (net.udpSend w.inner addr payload).2)
  httpGetAsync w url ms := ((net.httpGetAsync w.inner url ms).1, w.note (.http url) (net.httpGetAsync w.inner url ms).2)
  httpGet w url ms := ((net.httpGet w.inner url ms).1, w.note (.http url) (net.httpGet w.inner url ms).2)
  httpGetRangeAsync w url first last ms :=
    ((net.httpGetRangeAsync w.inner url first last ms).1, w.note (.http url) (net.httpGetRangeAsync w.inner url first last ms).2)
  httpGetRange w url first last ms := w.note (.http url) (net.httpGetRange w.inner url first last ms)
  tcpConnect w addr := ((net.tcpConnect w.inner addr).1, w.note (.connect addr) (net.tcpConnect w.inner addr).2)
  proxyGet w conn url := ((net.proxyGet w.inner conn url).1, { w with inner := (net.proxyGet w.inner conn url).2 })

/-! ### Requests over HTTP -/

def hex8 (n : Nat) : Bytes :=
  let digits := (Nat.toDigits 16 n).map ch
  List.replicate (8 - digits.length) (ch '0') ++ digits

def decimal (n : Nat) : Bytes := (Nat.toDigits 10 n).map ch

def httpName : TrackerEvent → Option Bytes
  | .none => none
  | .started => some (ascii "started")
  | .completed => some (ascii "completed")
  | .stopped => some (ascii "stopped")

def buildHttpAnnounceUrl (base : Bytes) (p : AnnounceParams) : Bytes :=
  base ++ [if base.contains (ch '?') then ch '&' else ch '?'] ++ ascii "info_hash=" ++ percentEncode p.trackerHash
    ++ ascii "&peer_id=" ++ percentEncode p.peerId.val ++ ascii "&port=" ++ decimal p.port
    ++ ascii "&uploaded=" ++ decimal p.uploaded ++ ascii "&downloaded=" ++ decimal p.downloaded
    ++ ascii "&left=" ++ decimal p.left ++ ascii "&compact=1&no_peer_id=1"
    ++ (match httpName p.event with
      | some name => ascii "&event=" ++ name
      | none => [])
    ++ (if p.numwant = 0 then [] else ascii "&numwant=" ++ decimal p.numwant)
    ++ ascii "&key=" ++ hex8 p.key

def isHttpUrl (url : Bytes) : Bool :=
  if !(ascii "http://").isPrefixOf url then false
  else
    let rest := url.drop 7
    let authority := rest.takeWhile (· != ch '/')
    let path := rest.drop authority.length
    let (host, portOk) := match rsplitOnce (ch ':') authority with
      | some (h, p) => (h, (parseUint (2 ^ 16 - 1) p).isSome)
      | none => (authority, true)
    portOk && !(decide (host = [] ∨ 255 < host.length) || host.contains (ch '@') || host.any (fun c => decide (0x80 ≤ c)) ||
      path.any fun c => decide (c = 13 ∨ c = 10))

section Http
variable {H : Type} (net : NetHost H)

def socksHttpGet (socks5 : NetAddr) (url : Bytes) (h : H) : HttpOutcome × H :=
  if isHttpUrl url then
    match net.tcpConnect h socks5 with
    | (.error _, h) => (.error, h)
    | (.ok conn, h) => net.proxyGet h conn url
  else (.error, h)

def trackerHost (proxy : Option NetAddr) : TrackerHost H where
  udpSend := net.udpSend
  resolveHostAll := net.resolveHostAll
  httpGetAsync h url p ms := net.httpGetAsync h (buildHttpAnnounceUrl (lossyChars url.length url).flatten p) ms
  httpGet h proxied url p ms :=
    let built := buildHttpAnnounceUrl (lossyChars url.length url).flatten p
    match proxied, proxy with
    | true, some socks5 => socksHttpGet net socks5 built h
    | _, _ => net.httpGet h built ms

def fetchRange (proxied : Bool) (proxy : Option NetAddr) (url : Bytes) (first last ms : Nat) (h : H) : H :=
  match proxied, proxy with
  | true, some socks5 => (socksHttpGet net socks5 url h).2
  | _, _ =>
      match net.httpGetRangeAsync h url first last ms with
      | (job, h) => if job ≠ 0 then h else net.httpGetRange h url first last ms

end Http

/-! ### The engine -/

/-- The configuration that decides about the network, with the built-in lists of trackers. -/
structure NetConfig where
  session : SessionConfig
  trackers : List Bytes
  useDefaultTrackers : Bool
  fallbackTrackers : List Bytes
  defaultTrackers : List Bytes
  listenPort : Nat
  dhtEnabled : Bool
  portMapping : Bool
  lsdEnabled : Bool
  /-- The SOCKS5 proxy. -/
  proxy : Option NetAddr

def NetConfig.hardened (cfg : NetConfig) : NetConfig :=
  if cfg.proxy.isSome then { cfg with dhtEnabled := false, portMapping := false } else cfg

structure Node (H : Type) where
  cfg : NetConfig
  peerId : ByteArr 20
  sessions : OrdMap InfoHash Announcer := ∅
  dht : Option Dht
  /-- Whether there is a port mapper. -/
  portmap : Bool
  udpOpen : Bool := false
  udpFailed : Bool := false
  lastBootstrapAt : Nat := 0
  dhtSeeds : List NetAddr := []
  dhtSeedPending : List (Bytes × Nat) := []
  dhtResolveKickedAt : Nat := 0
  lastDhtFindNode : Nat
  host : Recorded H

/-- What is left open: the port mapper, uTP, LSD and the handling of datagrams, each behind its guard, and the targets
of spontaneous lookups. -/
structure Rest (H : Type) where
  portMapper : Nat → Node H → Node H
  datagrams : Nat → Node H → Node H
  utp : Nat → Node H → Node H
  lsd : Nat → Node H → Node H
  refreshTargets : Nat → Node H → List Dht.NodeId

/-- What a session does of its own: announce, fetch a block from a mirror, or anything that makes no network call. It
keeps its proxy setting, and of its trackers the URLs. -/
inductive Errand where
  | announce (event : TrackerEvent)
  | fetch (url : Bytes) (first last : Nat)
  | other (sess : TorrentSession) (states : List TrackerState) (cursor : Nat)

def restated (trackers states : List TrackerState) : List TrackerState :=
  trackers.mapIdx fun i t => match states[i]? with
    | some s => { s with url := t.url, kind := t.kind, tier := t.tier }
    | none => t

/-- What comes with a tick: the uTP peers to be tried over TCP, whether connection limits let a peer be dialled, and
what the sessions do before, in and after their own ticks. -/
structure TickInput where
  now : Nat
  fallbacks : List NetAddr := []
  reaped : List NetAddr := []
  early : List (InfoHash × Errand) := []
  admits : InfoHash → NetAddr → Bool := fun _ _ => true
  errands : InfoHash → List Errand := fun _ => []
  late : List (InfoHash × Errand) := []

/-! ### Trackers of a new session -/

def pushTrackerIfAllowed (trackers : List TrackerState) (url : Bytes) (tier : Nat) (anonymous : Bool) : List TrackerState :=
  if anonymous && decide (detectTrackerKind url = .udp) then trackers else pushTracker trackers url tier

/-- The tracker list of a session: the declared URLs, the configured extras, and the built-in ones. -/
def seedTrackers (declared : List (Nat × Bytes)) (cfg : NetConfig) : List TrackerState :=
  let anonymous := cfg.proxy.isSome
  let push := fun tier trackers url => pushTrackerIfAllowed trackers url tier anonymous
  let nextTier := declared.foldl (fun tier d => max tier (Leech.satAdd32 d.1 1)) 0
  let out := declared.foldl (fun trackers d => push d.1 trackers d.2) []
  let out := cfg.trackers.foldl (push nextTier) out
  let out := if cfg.useDefaultTrackers then cfg.fallbackTrackers.foldl (push nextTier) out else out
  let out := if out = [] ∧ cfg.useDefaultTrackers then cfg.defaultTrackers.foldl (push nextTier) out else out
  out.mergeSort fun a b => decide (a.tier ≤ b.tier)

def declaredTrackers (t : Torrent) : List (Nat × Bytes) :=
  (t.announceList.mapIdx fun i tier => tier.map fun url => (i, url)).flatten ++ t.announce.toList.map fun url => (0, url)

namespace Node
variable {H : Type}

def sessionConfig (e : Node H) (saveDir : Bytes) : SessionConfig :=
  { e.cfg.session with saveDir := saveDir, proxied := e.cfg.proxy.isSome, listenPort := e.cfg.listenPort }

def new (cfg : NetConfig) (peerId : ByteArr 20) (id : Dht.NodeId) (secret : ByteArr 16) (now : Nat) (h : H) : Node H where
  cfg := cfg.hardened
  peerId := peerId
  dht := if cfg.hardened.dhtEnabled then some (Dht.new id cfg.listenPort secret) else none
  portmap := cfg.hardened.portMapping
  lastDhtFindNode := now
  host := ⟨h, []⟩

def env (e : Node H) (now : Nat) : Env := ⟨now, e.peerId, e.cfg.listenPort⟩

def putSession (e : Node H) (hash : InfoHash) (a : Announcer) : Node H := { e with sessions := e.sessions.insert hash a }

/-! ### UDP -/

section Calls
variable (net : NetHost H)

def wantsUdp (e : Node H) : Bool :=
  !e.cfg.proxy.isSome && (e.cfg.dhtEnabled || e.cfg.portMapping ||
    e.sessions.entries.any (fun s => isActive s.2.sess) ||
    e.sessions.entries.any fun s => s.2.trackers.any fun t => decide (t.kind = .udp ∧ t.fails < 3))

def ensureUdp (e : Node H) : Result Unit × Node H :=
  if e.cfg.proxy.isSome || e.udpOpen then (.ok (), e)
  else match (recording net).udpOpen e.host e.cfg.listenPort with
    | (.error err, host) => (.error err, { e with host })
    | (.ok _, host) =>
        let host := (recording net).udpJoinMulticast ((recording net).udpJoinMulticast host LSD_GROUP_V4) LSD_GROUP_V6
        let host := if e.cfg.lsdEnabled then
          (recording net).udpJoinMulticastLsd ((recording net).udpJoinMulticastLsd
            ((recording net).udpOpenLsd host LSD_PORT) LSD_GROUP_V4) LSD_GROUP_V6 else host
        (.ok (), { e with host, udpOpen := true })

def disableUdp (a : Announcer) : Announcer :=
  { a with trackers := a.trackers.map fun t =>
    if t.kind = .udp then
      { t with fails := max (Leech.satAdd32 t.fails 1) 3, failure := t.failure.or (some (ascii "udp unavailable")) }
    else t }

def startUdpIfNeeded (e : Node H) : Node H :=
  if e.cfg.proxy.isSome || e.udpOpen || e.udpFailed || !e.wantsUdp then e
  else match e.ensureUdp net with
    | (.ok _, e) => e
    | (.error _, e) =>
        { e with
          udpFailed := true, dht := none, cfg := { e.cfg with dhtEnabled := false }
          sessions := e.sessions.mapValues fun _ a => disableUdp a }

/-! ### The DHT -/

def drainResolved (e : Node H) : Node H :=
  match (recording net).takeResolvedHosts e.host with
  | (resolved, host) =>
      resolved.foldl (fun e (r : Bytes × Nat × NetAddr) => { e with
        dhtSeeds := if e.dhtSeeds.contains r.2.2 then e.dhtSeeds else e.dhtSeeds ++ [r.2.2]
        dhtSeedPending := e.dhtSeedPending.filter fun q => decide (q ≠ (r.1, r.2.1)) }) { e with host }

/-- Ask for a bootstrap host in the background, unless it was asked for: whether any request was taken. -/
def askAsync (acc : Bool × Node H) (router : Bytes × Nat) : Bool × Node H :=
  if acc.2.dhtSeedPending.contains router then acc
  else match (recording net).resolveHostAsync acc.2.host router.1 router.2 with
    | (true, host) => (true, { acc.2 with host, dhtSeedPending := acc.2.dhtSeedPending ++ [router] })
    | (false, host) => (acc.1, { acc.2 with host })

def askNow (e : Node H) (router : Bytes × Nat) : Node H :=
  match (recording net).resolveHost e.host router.1 router.2 with
  | (none, host) => { e with host }
  | (some addr, host) => { e with host, dhtSeeds := if e.dhtSeeds.contains addr then e.dhtSeeds else e.dhtSeeds ++ [addr] }

def kickResolve (now : Nat) (e : Node H) : Node H :=
  match DHT_BOOTSTRAP.foldl (askAsync net) (false, { e with dhtResolveKickedAt := now }) with
  | (true, e) => e
  | (false, e) => DHT_BOOTSTRAP.foldl (askNow net) e

def collectDhtSeeds (now : Nat) (e : Node H) : Node H :=
  let e := e.drainResolved net
  if e.dhtSeeds ≠ [] ∨ now - e.dhtResolveKickedAt < BOOTSTRAP_RETRY_MS then e else kickResolve net now e

def bootstrapDht (now : Nat) (e : Node H) : Node H :=
  let e := collectDhtSeeds net now { e with lastBootstrapAt := now }
  { e with dht := e.dht.map fun d => if e.dhtSeeds = [] then d else d.bootstrap e.dhtSeeds now }

def realSize (d : Dht) : Nat := (d.table.buckets.map fun b => b.countP fun n => decide (n.id ≠ Dht.NodeId.ZERO)).sum

def tickDht (rest : Rest H) (now : Nat) (e : Node H) : Node H :=
  match e.dht with
  | none => e
  | some d =>
      let interval := if realSize d < 32 then 5000 else if realSize d < 128 then 15000 else 60000
      let ready := decide (0 < realSize d ∧ interval ≤ now - e.lastDhtFindNode)
      let d := d.tick now
      let host := d.outgoing.foldl (fun host packet => ((recording net).udpSend host packet.1 packet.2).2) e.host
      if ready then
        { e with host, lastDhtFindNode := now, dht := some ((rest.refreshTargets now e).foldl (fun d t => d.findNode t now) d) }
      else { e with host, dht := some d }

/-! ### Connections and sessions -/

def tcpFallback (e : Node H) (addr : NetAddr) : Node H :=
  if e.cfg.proxy.isSome then e else { e with host := ((recording net).tcpConnect e.host addr).2 }

def dial (e : Node H) (addr : NetAddr) : Node H :=
  if !e.cfg.proxy.isSome && e.udpOpen then e
  else { e with host := ((recording net).tcpConnect e.host (e.cfg.proxy.getD addr)).2 }

def driveConnectQueue (admits : NetAddr → Bool) (hash : InfoHash) (e : Node H) : Node H :=
  match e.sessions.get? hash with
  | none => e
  | some a =>
      ((a.sess.connectQueue.map Prod.fst).filter admits).foldl (dial net)
        (e.putSession hash { a with sess := { a.sess with connectQueue := [] } })

def errand (now : Nat) (hash : InfoHash) (e : Node H) (errand : Errand) : Node H :=
  match e.sessions.get? hash with
  | none => e
  | some a =>
      match errand with
      | .announce event =>
          match a.announceToTracker (trackerHost (recording net) e.cfg.proxy) (e.env now) event e.host with
          | (a, host) => { e.putSession hash a with host }
      | .fetch url first last =>
          { e with host := fetchRange (recording net) a.sess.cfg.proxied e.cfg.proxy url first last a.sess.cfg.webseed.timeoutMs e.host }
      | .other sess states cursor =>
          e.putSession hash {
            sess := { sess with cfg := { sess.cfg with proxied := a.sess.cfg.proxied } }
            trackers := restated a.trackers states, trackerCursor := cursor }

def errands (now : Nat) (e : Node H) (all : List (InfoHash × Errand)) : Node H :=
  all.foldl (fun e errand => e.errand net now errand.1 errand.2) e

def tickSession (i : TickInput) (e : Node H) (hash : InfoHash) : Node H :=
  (i.errands hash).foldl (fun e errand => e.errand net i.now hash errand) (driveConnectQueue net (i.admits hash) hash e)

/-! ### The tick -/

def tickEarly (rest : Rest H) (i : TickInput) (e : Node H) : Node H :=
  let e := e.startUdpIfNeeded net
  let e := if e.portmap then rest.portMapper i.now e else e
  let e := (i.fallbacks.foldl (tcpFallback net) e).errands net i.now i.early
  let e := if e.udpOpen then rest.datagrams i.now e else e
  let e := if e.udpOpen then i.reaped.foldl (tcpFallback net) (rest.utp i.now e) else e
  e.tickDht net rest i.now

def needsBootstrap (now : Nat) (e : Node H) : Bool :=
  match e.dht with
  | none => false
  | some d => decide (realSize d < DHT_REBOOTSTRAP_THRESHOLD ∧ BOOTSTRAP_RETRY_MS ≤ now - e.lastBootstrapAt)

def tickLate (rest : Rest H) (i : TickInput) (e : Node H) : Node H :=
  let e := if e.needsBootstrap i.now then e.bootstrapDht net i.now else e
  let e := e.sessions.keys.foldl (tickSession net i) e
  let e := e.errands net i.now i.late
  if e.cfg.lsdEnabled && !e.cfg.proxy.isSome && e.udpOpen then rest.lsd i.now e else e

def tick (rest : Rest H) (i : TickInput) (e : Node H) : Node H :=
  ((e.tickEarly net rest i).collectDhtSeeds net i.now).tickLate net rest i

end Calls
end Node

/-! ### Runs -/

/-- A public operation. -/
inductive Op where
  | addTorrent (t : Torrent) (saveDir : Bytes) (now : Nat)
  | addMagnet (hash : InfoHash) (webSeeds trackers : List Bytes) (saveDir : Bytes) (now : Nat)
  | addTracker (hash : InfoHash) (url : Bytes)
  | removeTracker (hash : InfoHash) (url : Bytes)
  | start (hash : InfoHash) (errands : List Errand) (now : Nat)
  | call (hash : InfoHash) (errands : List Errand) (now : Nat)
  | removeTorrent (hash : InfoHash) (errands : List Errand) (now : Nat)
  | tick (i : TickInput)

section Run
variable {H : Type} (net : NetHost H) (rest : Rest H)

def addSession (hash : InfoHash) (sess : TorrentSession) (declared : List (Nat × Bytes)) (e : Node H) : Node H :=
  if e.sessions.contains hash then e else e.putSession hash { sess, trackers := seedTrackers declared e.cfg }

def onTrackers (hash : InfoHash) (f : Announcer → Bool × Announcer) (e : Node H) : Node H :=
  match e.sessions.get? hash with
  | none => e
  | some a => e.putSession hash (f a).2

def startTorrent (hash : InfoHash) (errands : List Errand) (now : Nat) (e : Node H) : Node H :=
  let e := e.startUdpIfNeeded net
  if !e.sessions.contains hash then e
  else
    let e := errands.foldl (fun e errand => e.errand net now hash errand) e
    match e.dht with
    | none => e
    | some d => if Node.realSize d = 0 then e.bootstrapDht net now else e

def step (op : Op) (e : Node H) : Node H :=
  match op with
  | .addTorrent t saveDir now => addSession t.infoHash (fromTorrent t (e.sessionConfig saveDir) now) (declaredTrackers t) e
  | .addMagnet hash webSeeds trackers saveDir now =>
      addSession hash (fromMagnet hash webSeeds (e.sessionConfig saveDir) now) (trackers.map fun url => (0, url)) e
  | .addTracker hash url => onTrackers hash (fun a => a.addTracker url) e
  | .removeTracker hash url => onTrackers hash (fun a => a.removeTracker url) e
  | .start hash errands now => startTorrent net hash errands now e
  | .call hash errands now => errands.foldl (fun e errand => e.errand net now hash errand) e
  | .removeTorrent hash errands now =>
      if !e.sessions.contains hash then e
      else
        let e := errands.foldl (fun e errand => e.errand net now hash errand) e
        { e with sessions := e.sessions.erase hash }
  | .tick i => e.tick net rest i

def run : List Op → Node H → Node H
  | [], e => e
  | op :: tail, e => run tail (step net rest op e)

end Run

end TypeBit.Network
