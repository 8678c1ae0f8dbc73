import TypeBit.Bencode.RoundTrip
import TypeBit.Dht.Datagram
import TypeBit.Wire.Stream

/-! Which query a reply settles. Queries are filed under a 32-bit number of which 16 bits travel, and a reply is
matched by those bits alone: neither the rest of the number nor the source of the reply is looked at. -/

namespace TypeBit.Dht
open Bencode Metainfo Wire OrdMap

/-- The engines that the public operations produce. -/
inductive Reachable (digests : Digests) : Dht → Prop
  | new (id : NodeId) (port : Nat) (secret : ByteArr 16) : Reachable digests (.new id port secret)
  | importNodes {d} (before : Reachable digests d) (entries : List Bytes) (now : Nat) :
      Reachable digests (d.importNodes entries now).2
  | ping {d} (before : Reachable digests d) (node : NodeEntry) (now : Nat) : Reachable digests (d.ping node now).2
  | bootstrap {d} (before : Reachable digests d) (seeds : List NetAddr) (now : Nat) :
      Reachable digests (d.bootstrap seeds now)
  | getPeers {d} (before : Reachable digests d) (infoHash : ByteArr 20) (announcePort now : Nat) :
      Reachable digests (d.getPeers infoHash announcePort now)
  | findNode {d} (before : Reachable digests d) (target : NodeId) (now : Nat) : Reachable digests (d.findNode target now)
  | tick {d} (before : Reachable digests d) (now : Nat) : Reachable digests (d.tick now)
  | datagram {d} (before : Reachable digests d) (source : NetAddr) (payload : Bytes) (now : Nat) :
      Reachable digests (d.handleDatagram digests source payload now).2

/-! ### Every query carries the low half of its number -/

/-- The query filed under a number carries the two bytes of that number. -/
def Carries (tx : Nat) (query : Bytes) : Prop := ∃ method args, query = encode { t := wireTx tx, body := .query method args }

def Numbered (d : Dht) : Prop := ∀ tx p, d.pending.get? tx = some p → Carries tx p.query

variable {d e : Dht}

theorem Numbered.of_eq (numbered : Numbered d) (same : e.pending = d.pending) : Numbered e := by
  intro tx p found
  rw [same] at found
  exact numbered tx p found

variable {tx : Nat}

theorem Numbered.erase (numbered : Numbered d) (same : e.pending = d.pending.erase tx) : Numbered e := by
  intro other p found
  rw [same] at found
  exact numbered other p (get?_of_erase found)

variable {p : Pending}

theorem Numbered.insert (numbered : Numbered d) (carries : Carries tx p.query)
    (same : e.pending = d.pending.insert tx p) : Numbered e := by
  intro other q found
  rw [same, get?_insert] at found
  split at found
  next here =>
    cases found
    exact here ▸ carries
  next => exact numbered other q found

theorem numbered_issue (numbered : Numbered d) (node : NodeEntry) (method : Method) (args : Args)
    (kind : PendingKind) (lookupTarget : Option (ByteArr 20)) (now : Nat) :
    Numbered (d.issue node method args kind lookupTarget now).2 := by
  unfold issue nextTx pushPending
  dsimp only
  split
  · exact numbered.of_eq rfl
  · exact numbered.insert ⟨method, args, rfl⟩ rfl

theorem numbered_expireOne (now : Nat) (d : Dht) (tx : Nat) (numbered : Numbered d) : Numbered (expireOne now d tx) := by
  unfold expireOne
  split
  · exact numbered
  next p found =>
    split
    · have again : Carries tx { p with retries := p.retries + 1, sentAt := now }.query := numbered tx p found
      exact numbered.insert again rfl
    · exact numbered.erase rfl

theorem numbered_queryNodes (idx now : Nat) (nodes : List NodeEntry) (l : Lookup) (numbered : Numbered d) :
    Numbered (queryNodes idx now nodes l d) := by
  induction nodes generalizing l d with
  | nil => exact numbered
  | cons node rest ih =>
    unfold queryNodes
    dsimp only
    have placed : Numbered (d.putLookup idx { l with queried := l.queried ++ [node.id] }) := numbered.of_eq rfl
    have issued := numbered_issue placed node
      (lookupQuery (d.putLookup idx { l with queried := l.queried ++ [node.id] }) { l with queried := l.queried ++ [node.id] }).1
      (lookupQuery (d.putLookup idx { l with queried := l.queried ++ [node.id] }) { l with queried := l.queried ++ [node.id] }).2
      .lookup (some l.target) now
    split
    next e filed =>
      rw [filed] at issued
      exact ih _ issued
    next e refused =>
      rw [refused] at issued
      exact issued

theorem numbered_driveLookup (numbered : Numbered d) (idx now : Nat) : Numbered (d.driveLookup idx now).2 := by
  unfold driveLookup
  split
  · exact numbered
  dsimp only
  split
  · exact numbered.of_eq rfl
  split
  · exact numbered.of_eq rfl
  · exact numbered_queryNodes idx now _ _ (numbered.of_eq rfl)

theorem numbered_driveLookups (now fuel idx : Nat) (numbered : Numbered d) : Numbered (driveLookups now fuel idx d) := by
  induction fuel generalizing idx d with
  | zero => exact numbered
  | succ fuel ih =>
    have driven := numbered_driveLookup numbered idx now
    unfold driveLookups
    split
    next e ended =>
      rw [ended] at driven
      exact ih idx (driven.of_eq rfl)
    next e running =>
      rw [running] at driven
      exact ih (idx + 1) driven

theorem numbered_tick (numbered : Numbered d) (now : Nat) : Numbered (d.tick now) := by
  have expired : Numbered (d.expirePending now) :=
    List.foldlRecOn _ _ numbered fun e kept tx _ => numbered_expireOne now e tx kept
  have driven := numbered_driveLookups now (d.expirePending now).lookups.length 0 expired
  have pruned : ∀ (e : Dht) (h : Bytes), Numbered e → Numbered (pruneStore now e h) := by
    intro e h kept
    unfold pruneStore
    split
    · exact kept
    · exact kept.of_eq rfl
  unfold tick
  dsimp only
  generalize driveLookups now (d.expirePending now).lookups.length 0 (d.expirePending now) = e at driven
  have stored := List.foldlRecOn (motive := Numbered)
    ((e.peerStore.entries.filter fun s => s.2.all fun p => decide (p.2 ≤ now)).map Prod.fst) (pruneStore now) driven
    fun e kept h _ => pruned e h kept
  split
  · exact stored.of_eq rfl
  · exact stored

theorem numbered_announceOne (infoHash : ByteArr 20) (port now : Nat) (d : Dht) (holder : NetAddr × Bytes)
    (numbered : Numbered d) : Numbered (announceOne infoHash port now d holder) := by
  unfold announceOne
  split
  · exact numbered
  · have noted : Numbered { d with announced := d.announced ++ [holder.1] } := numbered.of_eq rfl
    exact numbered_issue noted _ _ _ _ _ now

theorem numbered_sendAnnouncesIfReady (numbered : Numbered d) (infoHash : ByteArr 20) (now : Nat) :
    Numbered (d.sendAnnouncesIfReady infoHash now) := by
  unfold sendAnnouncesIfReady
  split
  · exact numbered
  next l _ =>
    exact List.foldlRecOn _ _ numbered fun e kept holder _ => numbered_announceOne infoHash l.announcePort now e holder kept

/-! ### What a reply leaves alone -/

/-- Nothing but the routing table and the observations of our own address differs. -/
structure OnlyTable (d e : Dht) : Prop where
  id : e.id = d.id
  txCounter : e.txCounter = d.txCounter
  pending : e.pending = d.pending
  lookups : e.lookups = d.lookups
  announced : e.announced = d.announced
  peerCache : e.peerCache = d.peerCache

theorem OnlyTable.refl (d : Dht) : OnlyTable d d := ⟨rfl, rfl, rfl, rfl, rfl, rfl⟩

theorem OnlyTable.trans {d e f : Dht} (first : OnlyTable d e) (second : OnlyTable e f) : OnlyTable d f where
  id := second.id.trans first.id
  txCounter := second.txCounter.trans first.txCounter
  pending := second.pending.trans first.pending
  lookups := second.lookups.trans first.lookups
  announced := second.announced.trans first.announced
  peerCache := second.peerCache.trans first.peerCache

theorem onlyTable_observeExternal (d : Dht) (compact : Bytes) (witness : NetAddr) (now : Nat) :
    OnlyTable d (d.observeExternal compact witness now) := by
  unfold observeExternal
  split
  · exact .refl d
  split
  · exact .refl d
  dsimp only
  split
  · exact ⟨rfl, rfl, rfl, rfl, rfl, rfl⟩
  · exact ⟨rfl, rfl, rfl, rfl, rfl, rfl⟩
  · exact ⟨rfl, rfl, rfl, rfl, rfl, rfl⟩

theorem onlyTable_learnNodes (nodes : List NodeEntry) (now : Nat) (d : Dht) : OnlyTable d (d.learnNodes nodes now) := by
  unfold learnNodes
  induction nodes generalizing d with
  | nil => exact .refl d
  | cons n rest ih =>
    rw [List.foldl_cons]
    split
    · have learnt : OnlyTable d { d with table := (d.table.insert n now).2 } := ⟨rfl, rfl, rfl, rfl, rfl, rfl⟩
      exact learnt.trans (ih _)
    · exact ih d

theorem onlyTable_noted (d : Dht) (source : NetAddr) (id : NodeId) (ip : Option Bytes) (now : Nat) :
    OnlyTable d (noted d source id ip now) := by
  have heard : OnlyTable d { d with table := d.table.onResponse id source now } := ⟨rfl, rfl, rfl, rfl, rfl, rfl⟩
  unfold noted
  split
  · exact heard.trans (onlyTable_observeExternal _ _ source now)
  · exact heard

variable {t payload : Bytes}

theorem onResponse_unmatched (none_there : d.pending.get? (txOf t) = none) (source : NetAddr)
    (id : NodeId) (resp : Resp) (ip : Option Bytes) (now : Nat) :
    d.onResponse source t id resp ip now = noted d source id ip now := by
  have same := (onlyTable_noted d source id ip now).pending
  rw [onResponse_eq, same, none_there]

def settled (d : Dht) (source : NetAddr) (t : Bytes) (id : NodeId) (ip : Option Bytes) (now : Nat) : Dht :=
  { noted d source id ip now with pending := d.pending.erase (txOf t) }

theorem onResponse_matched (found : d.pending.get? (txOf t) = some p) (source : NetAddr)
    (id : NodeId) (resp : Resp) (ip : Option Bytes) (now : Nat) : d.onResponse source t id resp ip now =
      if p.kind = .lookup then (settled d source t id ip now).consumeLookupResponse p.node resp p.lookupTarget now
      else settled d source t id ip now := by
  have same := (onlyTable_noted d source id ip now).pending
  rw [onResponse_eq, same, found]
  unfold settled
  dsimp only
  cases p.kind with
  | ping => rfl
  | lookup => rfl
  | announce => rfl

def contributed (d : Dht) (node : NodeEntry) (values : List NetAddr) (token : Bytes) (nodes : List NodeEntry)
    (tid : ByteArr 20) (now : Nat) : Dht :=
  cachePeers { d.learnNodes nodes now with
    lookups := d.lookups.map fun l => if awaits tid node l then contribute node values token nodes l else l } tid values

theorem consumeLookupResponse_eq (d : Dht) (node : NodeEntry) (resp : Resp) (target : Option (ByteArr 20)) (now : Nat) :
    d.consumeLookupResponse node resp target now =
      match resp.parts with
      | none => d
      | some (values, token, nodes) =>
          (contributed d node values token nodes (target.getD NodeId.ZERO) now).sendAnnouncesIfReady
            (target.getD NodeId.ZERO) now := by
  unfold consumeLookupResponse contributed
  cases resp.parts with
  | none => rfl
  | some parts =>
    obtain ⟨values, token, nodes⟩ := parts
    dsimp only
    rw [(onlyTable_learnNodes nodes now d).lookups]

theorem cachePeers_frame (d : Dht) (target : ByteArr 20) (values : List NetAddr) :
    (d.cachePeers target values).txCounter = d.txCounter ∧ (d.cachePeers target values).pending = d.pending ∧
      (d.cachePeers target values).lookups = d.lookups ∧ (d.cachePeers target values).announced = d.announced := by
  unfold cachePeers
  split
  · exact ⟨rfl, rfl, rfl, rfl⟩
  · exact ⟨rfl, rfl, rfl, rfl⟩

theorem numbered_onResponse (numbered : Numbered d) (source : NetAddr) (t : Bytes) (id : NodeId) (resp : Resp)
    (ip : Option Bytes) (now : Nat) : Numbered (d.onResponse source t id resp ip now) := by
  cases found : d.pending.get? (txOf t) with
  | none =>
    rw [onResponse_unmatched found]
    exact numbered.of_eq (onlyTable_noted d source id ip now).pending
  | some p =>
    have taken : Numbered (settled d source t id ip now) := numbered.erase rfl
    rw [onResponse_matched found]
    split
    · rw [consumeLookupResponse_eq]
      split
      · exact taken
      next values token nodes _ =>
        refine numbered_sendAnnouncesIfReady ?_ _ now
        refine taken.of_eq ((cachePeers_frame _ _ values).2.1.trans ?_)
        exact (onlyTable_learnNodes nodes now _).pending
    · exact taken

theorem onlyTable_importOne (now : Nat) (acc : Nat × Dht) (e : Bytes) : OnlyTable acc.2 (importOne now acc e).2 := by
  unfold importOne
  split
  · exact .refl acc.2
  split
  · exact .refl acc.2
  · exact ⟨rfl, rfl, rfl, rfl, rfl, rfl⟩

theorem onlyTable_importNodes (entries : List Bytes) (now : Nat) (acc : Nat × Dht) :
    OnlyTable acc.2 (entries.foldl (importOne now) acc).2 := by
  induction entries generalizing acc with
  | nil => exact .refl acc.2
  | cons e rest ih => exact (onlyTable_importOne now acc e).trans (ih _)

theorem onlyTable_storePeer (d : Dht) (infoHash : ByteArr 20) (endpoint : NetAddr) (now : Nat) :
    OnlyTable d (d.storePeer infoHash endpoint now) := by
  unfold storePeer
  exact ⟨rfl, rfl, rfl, rfl, rfl, rfl⟩

theorem onlyTable_answer (digests : Digests) (d : Dht) (source : NetAddr) (t : Bytes) (q : Method) (args : Args) (now : Nat) :
    OnlyTable d (answer digests d source t q args now).2 := by
  unfold answer
  cases q with
  | ping => exact .refl d
  | findNode => exact .refl d
  | getPeers => exact .refl d
  | announcePeer =>
    dsimp only
    split
    · split
      · exact onlyTable_storePeer d _ _ now
      · exact .refl d
    · exact .refl d

variable {digests : Digests}

theorem onlyTable_query {q : Method} {args : Args}
    (read : decode payload = .ok { t, body := .query q args }) (source : NetAddr) (now : Nat) :
    OnlyTable d (d.handleDatagram digests source payload now).2 := by
  have heard : OnlyTable d { d with table := d.table.onResponse args.id source now } := ⟨rfl, rfl, rfl, rfl, rfl, rfl⟩
  have answered := onlyTable_answer digests { d with table := d.table.onResponse args.id source now } source t q args now
  unfold handleDatagram
  rw [read]
  dsimp only
  exact heard.trans answered

theorem handleDatagram_response {id : NodeId} {resp : Resp}
    {ip : Option Bytes} (read : decode payload = .ok { t, body := .response id resp ip }) (source : NetAddr) (now : Nat) :
    (d.handleDatagram digests source payload now).2 = d.onResponse source t id resp ip now := by
  unfold handleDatagram
  rw [read]

theorem handleDatagram_error {code : Int} {text : Bytes}
    (read : decode payload = .ok { t, body := .error code text }) (source : NetAddr) (now : Nat) :
    (d.handleDatagram digests source payload now).2 = d.onError t now := by
  unfold handleDatagram
  rw [read]

theorem numbered_onError (numbered : Numbered d) (t : Bytes) (now : Nat) : Numbered (d.onError t now) := by
  unfold onError
  split
  · exact numbered
  · exact numbered.erase rfl

theorem numbered_handleDatagram (numbered : Numbered d) (digests : Digests) (source : NetAddr) (payload : Bytes)
    (now : Nat) : Numbered (d.handleDatagram digests source payload now).2 := by
  cases read : decode payload with
  | error e =>
    unfold handleDatagram
    rw [read]
    exact numbered
  | ok msg =>
    obtain ⟨t, body⟩ := msg
    cases body with
    | query q args => exact numbered.of_eq (onlyTable_query read source now).pending
    | response id resp ip =>
      rw [handleDatagram_response read]
      exact numbered_onResponse numbered source t id resp ip now
    | error code text =>
      rw [handleDatagram_error read]
      exact numbered_onError numbered t now

theorem numbered_reachable (reached : Reachable digests d) : Numbered d := by
  induction reached with
  | new id port secret => intro tx p found; cases found
  | importNodes before entries now ih =>
    exact ih.of_eq (onlyTable_importNodes entries now (0, _)).pending
  | ping before node now ih => exact numbered_issue ih node .ping _ .ping none now
  | bootstrap before seeds now ih =>
    apply List.foldlRecOn (motive := Numbered) seeds (seedOne now) ih
    intro d numbered s _
    have stored : Numbered { d with table := (d.table.insert
      { id := NodeId.ZERO, addr := s, lastSeen := now, failed := 0 } now).2 } := numbered.of_eq rfl
    exact numbered_issue stored _ .ping _ .ping none now
  | getPeers before infoHash announcePort now ih =>
    unfold getPeers
    split
    · exact ih
    · exact ih.of_eq rfl
  | findNode before target now ih => exact ih.of_eq rfl
  | tick before now ih => exact numbered_tick ih now
  | datagram before source payload now ih => exact numbered_handleDatagram ih digests source payload now

/-! ### An error for any transaction -/

def errorMsg (t : Bytes) : KrpcMsg := { t, body := .error 203 [] }

def errorValue (t : Bytes) : BVal :=
  .dict [(ascii "e", .list [.int 203, .bytes []]), (ascii "t", .bytes t), (ascii "y", .bytes (ascii "e"))]

theorem dict_error (t : Bytes) : dict ([("t", .bytes t)] ++ KrpcBody.entries (.error 203 [])) = errorValue t := by
  have first : ascii "e" < ascii "t" := by decide
  have second : ¬ ascii "y" < ascii "t" := by decide
  have other : ascii "y" ≠ ascii "t" := by decide
  simp only [dict, KrpcBody.entries, List.cons_append, List.nil_append, List.foldl_cons, List.foldl_nil,
    OrdMap.Raw.insert, if_neg second, if_neg other, if_pos first, errorValue]

theorem encode_errorMsg (t : Bytes) : encode (errorMsg t) = encodeValue (errorValue t) := congrArg encodeValue (dict_error t)

theorem decode_errorMsg (short : t.length ≤ MAX_STR_LEN) : decode (encode (errorMsg t)) = .ok (errorMsg t) := by
  have valid : (errorValue t).Valid := by
    simp only [errorValue, BVal.Valid, ValidEntries, ValidItems]
    refine ⟨?_, by decide⟩
    simp [OrdMap.Raw.Sorted]
    decide
  have bounded : (errorValue t).Bounded := by
    simp [errorValue, BVal.Bounded, BoundedEntries, BoundedItems, short]
    decide
  have parsed : BVal.parse (encode (errorMsg t)) = .ok (errorValue t) := by
    rw [parse_ok_iff, encode_errorMsg]
    exact encode_denotes (MAX_DEPTH + 1) _ (by simp [errorValue, BVal.depth, depthEntries, depthItems]; decide) valid bounded
  unfold decode
  rw [parsed]
  rfl

/-! ### What a reply takes out of flight -/

def KrpcBody.isReply : KrpcBody → Bool
  | .query _ _ => false
  | .response _ _ _ => true
  | .error _ _ => true

def fileOne (book : Nat × OrdMap Nat Pending) : Option Pending → Nat × OrdMap Nat Pending
  | some p => ((book.1 + 1) % 2 ^ 32, book.2.insert ((book.1 + 1) % 2 ^ 32) p)
  | none => ((book.1 + 1) % 2 ^ 32, book.2)

def fileAll (issued : List (Option Pending)) (book : Nat × OrdMap Nat Pending) : Nat × OrdMap Nat Pending :=
  issued.foldl fileOne book

theorem fileAll_append (first second : List (Option Pending)) (book : Nat × OrdMap Nat Pending) :
    fileAll (first ++ second) book = fileAll second (fileAll first book) := List.foldl_append

theorem fileAll_counter (issued : List (Option Pending)) (book : Nat × OrdMap Nat Pending) (some_issued : issued ≠ []) :
    (fileAll issued book).1 = (book.1 + issued.length) % 2 ^ 32 := by
  induction issued generalizing book with
  | nil => exact absurd rfl some_issued
  | cons q rest ih =>
    have moved : (fileOne book q).1 = (book.1 + 1) % 2 ^ 32 := by cases q <;> rfl
    rw [List.length_cons]
    show (fileAll rest (fileOne book q)).1 = _
    by_cases last : rest = []
    · subst last
      exact moved
    · rw [ih _ last, moved]
      omega

/-- At most this many queries were issued, and nothing else happened to the queries in flight. -/
def Files (most : Nat) (d e : Dht) : Prop :=
  ∃ issued, issued.length ≤ most ∧ (e.txCounter, e.pending) = fileAll issued (d.txCounter, d.pending)

/-- The reply took this query out of flight and no other; what else it did was to issue queries. -/
def Settles (d e : Dht) (tx : Nat) : Prop :=
  ∃ issued, issued.length ≤ 20 ∧ (e.txCounter, e.pending) = fileAll issued (d.txCounter, d.pending.erase tx)

theorem files_of_eq (counter : e.txCounter = d.txCounter) (pending : e.pending = d.pending) (most : Nat) :
    Files most d e := ⟨[], Nat.zero_le most, by rw [counter, pending]; rfl⟩

theorem files_issue (d : Dht) (node : NodeEntry) (method : Method) (args : Args) (kind : PendingKind)
    (lookupTarget : Option (ByteArr 20)) (now : Nat) : Files 1 d (d.issue node method args kind lookupTarget now).2 := by
  unfold issue nextTx pushPending
  dsimp only
  split
  · exact ⟨[none], Nat.le_refl 1, rfl⟩
  · exact ⟨[some _], Nat.le_refl 1, rfl⟩

theorem files_announceOne (infoHash : ByteArr 20) (port now : Nat) (d : Dht) (holder : NetAddr × Bytes) :
    Files 1 d (announceOne infoHash port now d holder) := by
  unfold announceOne
  split
  · exact files_of_eq rfl rfl 1
  · obtain ⟨issued, count, same⟩ := files_issue { d with announced := d.announced ++ [holder.1] }
      { id := NodeId.ZERO, addr := holder.1, lastSeen := now, failed := 0 } .announcePeer
      { id := d.id, infoHash := some infoHash, port := some port, token := some holder.2 } .announce (some infoHash) now
    exact ⟨issued, count, same⟩

theorem files_announces (infoHash : ByteArr 20) (port now : Nat) (holders : List (NetAddr × Bytes)) (d : Dht) :
    Files holders.length d (holders.foldl (announceOne infoHash port now) d) := by
  induction holders generalizing d with
  | nil => exact files_of_eq rfl rfl 0
  | cons holder rest ih =>
    obtain ⟨first, one, sameFirst⟩ := files_announceOne infoHash port now d holder
    obtain ⟨second, others, sameSecond⟩ := ih (announceOne infoHash port now d holder)
    refine ⟨first ++ second, ?_, ?_⟩
    · rw [List.length_append, List.length_cons]
      omega
    · rw [fileAll_append, ← sameFirst, ← sameSecond]
      rfl

theorem files_sendAnnouncesIfReady (d : Dht) (infoHash : ByteArr 20) (now : Nat) :
    Files 20 d (d.sendAnnouncesIfReady infoHash now) := by
  unfold sendAnnouncesIfReady
  split
  · exact files_of_eq rfl rfl 20
  next l _ =>
    obtain ⟨issued, count, same⟩ := files_announces infoHash l.announcePort now (l.tokenNodes.take 20) d
    have few : (l.tokenNodes.take 20).length ≤ 20 := by
      rw [List.length_take]
      omega
    exact ⟨issued, count.trans few, same⟩

theorem settles_matched {digests : Digests} {d : Dht} {payload : Bytes} {msg : KrpcMsg} (read : decode payload = .ok msg)
    (reply : msg.body.isReply = true) {p : Pending} (found : d.pending.get? (txOf msg.t) = some p) (source : NetAddr)
    (now : Nat) : Settles d (d.handleDatagram digests source payload now).2 (txOf msg.t) := by
  obtain ⟨t, body⟩ := msg
  cases body with
  | query q args => cases reply
  | error code text =>
    rw [handleDatagram_error read]
    unfold onError
    rw [found]
    exact ⟨[], by decide, rfl⟩
  | response id resp ip =>
    rw [handleDatagram_response read, onResponse_matched found]
    have taken : Settles d (settled d source t id ip now) (txOf t) :=
      ⟨[], by decide, by rw [settled, (onlyTable_noted d source id ip now).txCounter]; rfl⟩
    split
    · rw [consumeLookupResponse_eq]
      split
      · exact taken
      next values token nodes _ =>
        obtain ⟨issued, few, same⟩ := files_sendAnnouncesIfReady
          (contributed (settled d source t id ip now) p.node values token nodes (p.lookupTarget.getD NodeId.ZERO) now)
          (p.lookupTarget.getD NodeId.ZERO) now
        refine ⟨issued, few, same.trans ?_⟩
        have framed := cachePeers_frame { (settled d source t id ip now).learnNodes nodes now with
          lookups := (settled d source t id ip now).lookups.map fun l =>
            if awaits (p.lookupTarget.getD NodeId.ZERO) p.node l then contribute p.node values token nodes l else l }
          (p.lookupTarget.getD NodeId.ZERO) values
        have learnt := onlyTable_learnNodes nodes now (settled d source t id ip now)
        have counter := (framed.1.trans learnt.txCounter).trans (onlyTable_noted d source id ip now).txCounter
        have pending := framed.2.1.trans learnt.pending
        exact congrArg (fileAll issued) (Prod.ext counter pending)
    · exact taken

theorem untouched_unmatched {digests : Digests} {d : Dht} {payload : Bytes} {msg : KrpcMsg} (read : decode payload = .ok msg)
    (reply : msg.body.isReply = true) (missing : d.pending.get? (txOf msg.t) = none) (source : NetAddr) (now : Nat) :
    OnlyTable d (d.handleDatagram digests source payload now).2 := by
  obtain ⟨t, body⟩ := msg
  cases body with
  | query q args => cases reply
  | error code text =>
    rw [handleDatagram_error read]
    unfold onError
    rw [missing]
    exact .refl d
  | response id resp ip =>
    rw [handleDatagram_response read, onResponse_unmatched missing]
    exact onlyTable_noted d source id ip now

theorem txOf_wireTx (tx : Nat) : txOf (wireTx tx) = tx % 2 ^ 16 := by
  show (tx / 2 ^ 8).toUInt8.toNat * 2 ^ 8 + tx.toUInt8.toNat = _
  rw [toNat_toUInt8, toNat_toUInt8]
  omega

theorem pending_of_settles (settles : Settles d e tx) (counter : e.txCounter = d.txCounter) :
    e.pending = d.pending.erase tx := by
  obtain ⟨issued, few, same⟩ := settles
  by_cases none_issued : issued = []
  · subst none_issued
    exact congrArg Prod.snd same
  · have moved := fileAll_counter issued (d.txCounter, d.pending.erase tx) none_issued
    rw [← same] at moved
    have some_issued := List.length_pos_iff.mpr none_issued
    dsimp only at moved
    omega

theorem error_pending {digests : Digests} {d : Dht} {t : Bytes} (short : t.length ≤ MAX_STR_LEN) {p : Pending}
    (found : d.pending.get? (txOf t) = some p) (source : NetAddr) (now : Nat) :
    (d.handleDatagram digests source (encode (errorMsg t)) now).2.txCounter = d.txCounter ∧
      (d.handleDatagram digests source (encode (errorMsg t)) now).2.pending = d.pending.erase (txOf t) := by
  have read : decode (encode (errorMsg t)) = .ok { t, body := .error 203 [] } := decode_errorMsg short
  rw [handleDatagram_error read]
  unfold onError
  rw [found]
  exact ⟨rfl, rfl⟩

/-! ### The number of a query -/

/-- Every response or error that echoes the two bytes of this number settles the query filed under it, and no other. -/
def SettlesOwn (digests : Digests) (d : Dht) (tx : Nat) : Prop :=
  ∀ source payload msg now, decode payload = .ok msg → msg.t = wireTx tx → msg.body.isReply = true →
    Settles d (d.handleDatagram digests source payload now).2 tx

theorem small_of_settlesOwn (found : d.pending.get? tx = some p) (own : SettlesOwn digests d tx) : tx < 2 ^ 16 := by
  by_contra large
  have other : tx % 2 ^ 16 ≠ tx := by omega
  have short : (wireTx tx).length ≤ MAX_STR_LEN := (by decide : 2 ≤ MAX_STR_LEN)
  have read := decode_errorMsg short
  have settles := own p.node.addr (encode (errorMsg (wireTx tx))) _ 0 read rfl rfl
  -- The error takes out the query under the low half of the number, if there is one.
  have after : (d.handleDatagram digests p.node.addr (encode (errorMsg (wireTx tx))) 0).2.txCounter = d.txCounter ∧
      (d.handleDatagram digests p.node.addr (encode (errorMsg (wireTx tx))) 0).2.pending.get? tx = some p := by
    cases low : d.pending.get? (txOf (wireTx tx)) with
    | some q =>
      obtain ⟨counter, pending⟩ := @error_pending digests d _ short q low p.node.addr 0
      refine ⟨counter, ?_⟩
      rw [pending, txOf_wireTx, get?_erase_ne _ other, found]
    | none =>
      have frame := @untouched_unmatched digests d _ _ read rfl low p.node.addr 0
      exact ⟨frame.txCounter, by rw [frame.pending, found]⟩
  have gone := pending_of_settles settles after.1
  rw [gone, get?_erase_self] at after
  cases after.2

theorem settlesOwn_of_small (found : d.pending.get? tx = some p) (small : tx < 2 ^ 16) : SettlesOwn digests d tx := by
  intro source payload msg now read echoes reply
  have number : txOf msg.t = tx := by rw [echoes, txOf_wireTx, Nat.mod_eq_of_lt small]
  have held : d.pending.get? (txOf msg.t) = some p := by rw [number, found]
  have settles := @settles_matched digests d payload msg read reply p held source now
  rwa [number] at settles

/-- A query in flight carries the two low bytes of its number, and a reply that echoes them settles it exactly when
the number has no more than these two bytes. -/
theorem settles_own_query_iff {digests : Digests} {d : Dht} (reached : Reachable digests d) {tx : Nat} {p : Pending}
    (found : d.pending.get? tx = some p) : Carries tx p.query ∧ (SettlesOwn digests d tx ↔ tx < 2 ^ 16) :=
  ⟨numbered_reachable reached tx p found, small_of_settlesOwn found, settlesOwn_of_small found⟩

/-! ### The source of a reply -/

def SettlesNothing (d e : Dht) (body : KrpcBody) : Prop := OnlyTable d e ∧ ∀ code text, body = .error code text → e = d

/-- Every response or error from this address with these transaction bytes settles nothing, or a query that was sent
to this address. -/
def RepliesBound (digests : Digests) (d : Dht) (source : NetAddr) (t : Bytes) : Prop :=
  ∀ payload msg now, decode payload = .ok msg → msg.t = t → msg.body.isReply = true →
    SettlesNothing d (d.handleDatagram digests source payload now).2 msg.body ∨
      ∃ tx p, d.pending.get? tx = some p ∧ Settles d (d.handleDatagram digests source payload now).2 tx ∧ p.node.addr = source

theorem sent_of_repliesBound {source : NetAddr} (short : t.length ≤ MAX_STR_LEN)
    (bound : RepliesBound digests d source t) (found : d.pending.get? (txOf t) = some p) : p.node.addr = source := by
  have read := decode_errorMsg short
  obtain ⟨counter, pending⟩ := @error_pending digests d t short p found source 0
  rcases bound _ _ 0 read rfl rfl with ⟨frame, -⟩ | ⟨tx, q, held, settles, sent⟩
  · have gone := frame.pending.symm.trans pending
    rw [gone, get?_erase_self] at found
    cases found
  · have gone := (pending_of_settles settles counter).symm.trans pending
    by_cases same : tx = txOf t
    · rw [← same, held] at found
      exact Option.some.inj found ▸ sent
    · have kept : (d.pending.erase tx).get? (txOf t) = some p := by rw [get?_erase_ne _ same, found]
      rw [gone, get?_erase_self] at kept
      cases kept

/-- Replies are bound to the queried node exactly when the query that their number selects was sent to their source. -/
theorem replies_bound_iff {digests : Digests} (d : Dht) (source : NetAddr) {t : Bytes} (short : t.length ≤ MAX_STR_LEN) :
    RepliesBound digests d source t ↔ ∀ p, d.pending.get? (txOf t) = some p → p.node.addr = source := by
  refine ⟨fun bound p found => sent_of_repliesBound short bound found, ?_⟩
  intro sent payload msg now read echoes reply
  subst echoes
  cases found : d.pending.get? (txOf msg.t) with
  | some p => exact Or.inr ⟨txOf msg.t, p, found, settles_matched read reply found source now, sent p found⟩
  | none =>
    refine Or.inl ⟨untouched_unmatched read reply found source now, ?_⟩
    rintro code text isError
    obtain ⟨t, body⟩ := msg
    cases isError
    rw [handleDatagram_error read]
    unfold onError
    rw [found]

/-! ### Runs that break it -/

def noDigests : Digests := ⟨fun b => b, fun b => b⟩

def lone : NodeEntry := { id := .replicate 20 1, addr := .ofOctets 192 0 2 1 6881, lastSeen := 0, failed := 0 }

def outsider : NetAddr := .ofOctets 192 0 2 2 6881

def fresh : Dht := .new (.replicate 20 7) 6881 (.replicate 16 0)

def cycle (d : Dht) : Dht :=
  ((d.ping lone 0).2.handleDatagram noDigests lone.addr (encode (errorMsg (wireTx (d.txCounter + 1)))) 0).2

def pinging (d : Dht) (tx : Nat) : Pending where
  node := lone
  query := encode { t := wireTx tx, body := .query .ping { id := d.id } }
  sentAt := 0
  retries := 0
  kind := .ping
  lookupTarget := none

theorem ping_spec (idle : d.pending = ∅) {n : Nat} (counter : d.txCounter = n) (small : n + 1 < 2 ^ 32) :
    (d.ping lone 0).2.txCounter = n + 1 ∧
      (d.ping lone 0).2.pending = (∅ : OrdMap Nat Pending).insert (n + 1) (pinging d (n + 1)) := by
  have next : (d.txCounter + 1) % 2 ^ 32 = n + 1 := by rw [counter, Nat.mod_eq_of_lt small]
  have room : ¬ MAX_PENDING ≤ d.pending.size := by rw [idle]; decide
  unfold ping issue nextTx pushPending
  dsimp only
  rw [if_neg room]
  refine ⟨next, ?_⟩
  show d.pending.insert _ _ = _
  rw [next, idle]
  rfl

theorem ping_found {d : Dht} (idle : d.pending = ∅) {n : Nat} (counter : d.txCounter = n) (small : n + 1 < 2 ^ 32) :
    (d.ping lone 0).2.pending.get? (n + 1) = some (pinging d (n + 1)) := by
  rw [(ping_spec idle counter small).2, get?_insert_self]

theorem cycle_spec (idle : d.pending = ∅) {n : Nat} (counter : d.txCounter = n) (small : n + 1 < 2 ^ 16) :
    (cycle d).pending = ∅ ∧ (cycle d).txCounter = n + 1 := by
  obtain ⟨next, filed⟩ := ping_spec idle counter (by omega)
  have number : txOf (wireTx (d.txCounter + 1)) = n + 1 := by rw [txOf_wireTx, counter, Nat.mod_eq_of_lt small]
  have found : (d.ping lone 0).2.pending.get? (txOf (wireTx (d.txCounter + 1))) = some (pinging d (n + 1)) := by
    rw [number, ping_found idle counter (by omega)]
  have short : (wireTx (d.txCounter + 1)).length ≤ MAX_STR_LEN := (by decide : 2 ≤ MAX_STR_LEN)
  obtain ⟨same, pending⟩ := @error_pending noDigests _ _ short _ found lone.addr 0
  unfold cycle
  refine ⟨?_, same.trans next⟩
  rw [pending, number, filed]
  ext tx : 1
  rw [get?_erase, get?_insert]
  split <;> rfl

theorem cycles_spec (n : Nat) (small : n < 2 ^ 16) :
    Reachable noDigests (cycle^[n] fresh) ∧ (cycle^[n] fresh).pending = ∅ ∧ (cycle^[n] fresh).txCounter = n := by
  induction n with
  | zero => exact ⟨.new _ _ _, rfl, rfl⟩
  | succ n ih =>
    obtain ⟨reached, idle, counter⟩ := ih (by omega)
    rw [Function.iterate_succ_apply']
    exact ⟨(reached.ping lone 0).datagram _ _ 0, cycle_spec idle counter small⟩

def pinged : Dht := (fresh.ping lone 0).2

theorem settles_own_query_first : pinged.pending.get? 1 = some (pinging fresh 1) ∧
    Carries 1 (pinging fresh 1).query ∧ SettlesOwn noDigests pinged 1 := by
  have reached : Reachable noDigests pinged := (Reachable.new _ _ _).ping lone 0
  have found : pinged.pending.get? 1 = some (pinging fresh 1) := @ping_found fresh rfl 0 rfl (by decide)
  obtain ⟨carries, own⟩ := settles_own_query_iff reached found
  exact ⟨found, carries, own.mpr (by decide)⟩

def worn (pings : Nat) : Dht := ((cycle^[pings] fresh).ping lone 0).2

theorem worn_spec (n : Nat) (small : n < 2 ^ 16) :
    Reachable noDigests (worn n) ∧ (worn n).pending.get? (n + 1) = some (pinging (cycle^[n] fresh) (n + 1)) := by
  obtain ⟨reached, idle, counter⟩ := cycles_spec n small
  exact ⟨reached.ping lone 0, ping_found idle counter (by omega)⟩

/-- The ping after 65535 others is number 65536, and a reply that echoes its bytes does not settle it. -/
theorem query_65536_never_settled : Reachable noDigests (worn 65535) ∧
    (∃ p, (worn 65535).pending.get? 65536 = some p) ∧ ¬ SettlesOwn noDigests (worn 65535) 65536 := by
  obtain ⟨reached, found⟩ := worn_spec 65535 (by omega)
  exact ⟨reached, ⟨_, found⟩, fun own => absurd (small_of_settlesOwn found own) (by omega)⟩

theorem pinged_found : pinged.pending.get? (txOf (wireTx 1)) = some (pinging fresh 1) := by
  have number : txOf (wireTx 1) = 0 + 1 := by decide
  rw [number]
  exact ping_found rfl rfl (by decide)

theorem replies_bound_of_pinged : RepliesBound noDigests pinged lone.addr (wireTx 1) := by
  refine (replies_bound_iff _ _ (by decide)).mpr ?_
  have found := pinged_found
  intro p held
  cases found.symm.trans held
  rfl

/-- An error from an outsider settles the ping of another node. -/
theorem outsider_settles_ping : Reachable noDigests pinged ∧
    pinged.pending.get? (txOf (wireTx 1)) = some (pinging fresh 1) ∧ (pinging fresh 1).node.addr ≠ outsider ∧
    (pinged.handleDatagram noDigests outsider (encode (errorMsg (wireTx 1))) 0).2.pending.get? (txOf (wireTx 1)) = none ∧
    ¬ RepliesBound noDigests pinged outsider (wireTx 1) := by
  have found := pinged_found
  have short : (wireTx 1).length ≤ MAX_STR_LEN := by decide
  have foreign : (pinging fresh 1).node.addr ≠ outsider := by decide
  have taken := (@error_pending noDigests pinged _ short _ found outsider 0).2
  refine ⟨(Reachable.new _ _ _).ping lone 0, found, foreign, ?_, ?_⟩
  · rw [taken, get?_erase_self]
  · intro bound
    exact foreign (sent_of_repliesBound short bound found)

end TypeBit.Dht
