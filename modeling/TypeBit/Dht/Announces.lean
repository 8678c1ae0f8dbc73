import TypeBit.Dht.Pacing

/-! Which token holders are announced to. One list of addresses keeps a node from being announced to twice, for
every infohash together: a node that was told about one torrent is passed over for the next. -/

namespace TypeBit.Dht
open Bencode Metainfo Wire OrdMap

def announceArgs (id : NodeId) (infoHash : ByteArr 20) (port : Nat) (token : Bytes) : Args :=
  { id, infoHash := some infoHash, port := some port, token := some token }

def announceQuery (id : NodeId) (infoHash : ByteArr 20) (port : Nat) (holder : NetAddr × Bytes) (tx : Nat) : NetAddr × Bytes :=
  (holder.1, encode { t := wireTx tx, body := .query .announcePeer (announceArgs id infoHash port holder.2) })

/-- An announcement is in flight. -/
def Waits (d : Dht) (query : NetAddr × Bytes) : Prop :=
  ∃ tx p, d.pending.get? tx = some p ∧ p.kind = .announce ∧ (p.node.addr, p.query) = query

/-- The holder was sent its announcement, or it is in flight. -/
def Reaches (sent : List (NetAddr × Bytes)) (d : Dht) (infoHash : ByteArr 20) (port : Nat) (holder : NetAddr × Bytes) : Prop :=
  ∃ tx, announceQuery d.id infoHash port holder tx ∈ sent ∨ Waits d (announceQuery d.id infoHash port holder tx)

/-- A token holder as its turn to be announced to comes, and what was sent before. -/
structure Offer where
  engine : Dht
  sent : List (NetAddr × Bytes)
  infoHash : ByteArr 20
  port : Nat
  now : Nat
  holder : NetAddr × Bytes

namespace Offer

def Room (o : Offer) : Prop := o.engine.pending.size < MAX_PENDING

/-- The holder's address is in the list of announced addresses, but not for this infohash and token. -/
def Shadowed (o : Offer) : Prop := o.holder.1 ∈ o.engine.announced ∧ ¬ Reaches o.sent o.engine o.infoHash o.port o.holder

def Made (o : Offer) : Prop := Reaches o.sent (announceOne o.infoHash o.port o.now o.engine o.holder) o.infoHash o.port o.holder

end Offer

section Sent
variable (sent : List (NetAddr × Bytes))

def offers (infoHash : ByteArr 20) (port now : Nat) : List (NetAddr × Bytes) → Dht → List Offer
  | [], _ => []
  | holder :: rest, d => ⟨d, sent, infoHash, port, now, holder⟩ :: offers infoHash port now rest (announceOne infoHash port now d holder)

def readyOffers (d : Dht) (infoHash : ByteArr 20) (now : Nat) : List Offer :=
  match d.announcing infoHash with
  | none => []
  | some l => offers sent infoHash l.announcePort now (l.tokenNodes.take 20) d

def datagramOffers (d : Dht) (source : NetAddr) (payload : Bytes) (now : Nat) : List Offer :=
  match decode payload with
  | .ok { t, body := .response id resp ip } =>
      match d.pending.get? (txOf t), resp.parts with
      | some p, some (values, token, nodes) =>
          if p.kind = .lookup then
            readyOffers sent (contributed (settled d source t id ip now) p.node values token nodes
              (p.lookupTarget.getD NodeId.ZERO) now) (p.lookupTarget.getD NodeId.ZERO) now
          else []
      | _, _ => []
  | _ => []

/-! ### Announcements that were not sent -/

/-- No announcement waits unsent under this number. -/
def Guards (d : Dht) (tx : Nat) : Prop := ∀ p ∈ d.pending.get? tx, p.kind = .announce → (p.node.addr, p.query) ∈ sent

instance (d : Dht) (tx : Nat) : Decidable (Guards sent d tx) := inferInstanceAs (Decidable (∀ p ∈ d.pending.get? tx, _))

/-- The next query is not filed over an unsent announcement. -/
def SparesUnsent (d : Dht) : Prop := d.pending.size < MAX_PENDING → Guards sent d ((d.txCounter + 1) % 2 ^ 32)

instance : DecidablePred (SparesUnsent sent) := fun _ => inferInstanceAs (Decidable (_ → _))

/-- A reply does not settle an unsent announcement. -/
def Answers (d : Dht) (payload : Bytes) : Prop :=
  ∀ msg ∈ (decode payload).toOption, msg.body.isReply = true → Guards sent d (txOf msg.t)

instance (d : Dht) (payload : Bytes) : Decidable (Answers sent d payload) :=
  inferInstanceAs (Decidable (∀ msg ∈ (decode payload).toOption, _))

/-- Behind the sixteen lowest numbers the next tick finds no unsent announcement to give up. -/
def Hurries (d : Dht) (now : Nat) : Prop :=
  ∀ q ∈ d.pending.entries.drop 16, q.2.kind = .announce → (q.2.node.addr, q.2.query) ∉ sent → ¬ Spent now q.2

instance (d : Dht) (now : Nat) : Decidable (Hurries sent d now) := inferInstanceAs (Decidable (∀ _ ∈ _, _))

end Sent

/-- The engine as it numbers each query of a bootstrap. -/
def seedIssues (now : Nat) : List NetAddr → Dht → List Dht
  | [], _ => []
  | s :: rest, d => d :: seedIssues now rest (seedOne now d s)

/-- The engine as it numbers each query of a lookup. -/
def queryIssues (idx now : Nat) : List NodeEntry → Lookup → Dht → List Dht
  | [], _, _ => []
  | node :: rest, l, d =>
      let l := { l with queried := l.queried ++ [node.id] }
      let d := d.putLookup idx l
      d :: match d.issue node (d.lookupQuery l).1 (d.lookupQuery l).2 .lookup (some l.target) now with
        | ((_, true), d) => queryIssues idx now rest l d
        | ((_, false), _) => []

def Visit.issues (v : Visit) : List Dht :=
  match v.engine.lookups[v.idx]? with
  | none => []
  | some l =>
      if TimedOut l v.now then []
      else queryIssues v.idx v.now (v.engine.toQuery (v.engine.refreshed l)) (v.engine.refreshed l)
        (v.engine.putLookup v.idx (v.engine.refreshed l))

/-- The runs with `outgoing` between any two ticks in which no announcement is lost before it is sent, with the turns of all holders,
what `outgoing` returned, and the clock of the tick that may follow. -/
inductive Prompt (digests : Digests) : List Offer → List (NetAddr × Bytes) → Option Nat → Dht → Prop
  | new (id : NodeId) (port : Nat) (secret : ByteArr 16) (now : Nat) : Prompt digests [] [] (some now) (.new id port secret)
  | importNodes {log sent next d} (before : Prompt digests log sent next d) (entries : List Bytes) (now : Nat) :
      Prompt digests log sent next (d.importNodes entries now).2
  | ping {log sent next d} (before : Prompt digests log sent next d) (node : NodeEntry) (now : Nat) (spares : SparesUnsent sent d) :
      Prompt digests log sent next (d.ping node now).2
  | bootstrap {log sent next d} (before : Prompt digests log sent next d) (seeds : List NetAddr) (now : Nat)
      (spares : ∀ e ∈ seedIssues now seeds d, SparesUnsent sent e) : Prompt digests log sent next (d.bootstrap seeds now)
  | getPeers {log sent next d} (before : Prompt digests log sent next d) (infoHash : ByteArr 20) (announcePort now : Nat) :
      Prompt digests log sent next (d.getPeers infoHash announcePort now)
  | findNode {log sent next d} (before : Prompt digests log sent next d) (target : NodeId) (now : Nat) :
      Prompt digests log sent next (d.findNode target now)
  | datagram {log sent next d} (before : Prompt digests log sent next d) (source : NetAddr) (payload : Bytes) (now : Nat)
      (answers : Answers sent d payload) (spares : ∀ o ∈ datagramOffers sent d source payload now, SparesUnsent sent o.engine) :
      Prompt digests (log ++ datagramOffers sent d source payload now) sent next (d.handleDatagram digests source payload now).2
  | outgoing {log sent next d} (before : Prompt digests log sent next d) (now : Nat) (hurries : Hurries (sent ++ d.outgoing) d now) :
      Prompt digests log (sent ++ d.outgoing) (some now) d
  | tick {log sent now d} (before : Prompt digests log sent (some now) d)
      (spares : ∀ v ∈ tickVisits d now, ∀ e ∈ v.issues, SparesUnsent sent e) : Prompt digests log sent none (d.tick now)

/-! ### One turn -/

section Turns
variable {sent : List (NetAddr × Bytes)}

/-- The id is the same, and every unsent announcement still waits. -/
structure Carry (sent : List (NetAddr × Bytes)) (d e : Dht) : Prop where
  id : e.id = d.id
  waits : ∀ query, query ∉ sent → Waits d query → Waits e query

theorem Carry.refl (d : Dht) : Carry sent d d := ⟨rfl, fun _ _ waits => waits⟩

theorem Carry.trans {d e f : Dht} (first : Carry sent d e) (second : Carry sent e f) : Carry sent d f where
  id := second.id.trans first.id
  waits query unsent waits := second.waits query unsent (first.waits query unsent waits)

variable {d e : Dht}

theorem Carry.of_pending (id : e.id = d.id) (same : e.pending = d.pending) : Carry sent d e := by
  refine ⟨id, fun query _ waits => ?_⟩
  unfold Waits
  rwa [same]

theorem Carry.erase (id : e.id = d.id) {tx : Nat} (less : e.pending = d.pending.erase tx)
    (guards : Guards sent d tx) : Carry sent d e := by
  refine ⟨id, ?_⟩
  rintro query unsent ⟨other, p, found, kind, rfl⟩
  have apart : tx ≠ other := by
    rintro rfl
    exact unsent (guards p found kind)
  exact ⟨other, p, by rw [less, get?_erase_ne _ apart, found], kind, rfl⟩

variable {infoHash : ByteArr 20} {port now : Nat} {holder : NetAddr × Bytes}

theorem Reaches.carry
    (reaches : Reaches sent d infoHash port holder) (carry : Carry sent d e) : Reaches sent e infoHash port holder := by
  obtain ⟨tx, arrived⟩ := reaches
  rw [← carry.id] at arrived
  by_cases there : announceQuery e.id infoHash port holder tx ∈ sent
  · exact ⟨tx, .inl there⟩
  · exact ⟨tx, .inr (carry.waits _ there (arrived.resolve_left there))⟩

theorem Reaches.later
    (reaches : Reaches sent d infoHash port holder) (more : List (NetAddr × Bytes)) : Reaches (sent ++ more) d infoHash port holder :=
  reaches.imp fun _ arrived => arrived.imp_left (List.mem_append_left more)

theorem carry_issue (spares : SparesUnsent sent d) (node : NodeEntry) (method : Method) (args : Args) (kind : PendingKind)
    (lookupTarget : Option (ByteArr 20)) (now : Nat) : Carry sent d (d.issue node method args kind lookupTarget now).2 := by
  unfold issue nextTx pushPending
  dsimp only
  split
  next => exact .of_pending rfl rfl
  next full =>
    refine ⟨rfl, ?_⟩
    rintro query unsent ⟨tx, p, found, isAnnounce, rfl⟩
    have apart : (d.txCounter + 1) % 2 ^ 32 ≠ tx := by
      intro same
      exact unsent (spares (not_le.mp full) p (same ▸ found) isAnnounce)
    exact ⟨tx, p, (get?_insert_ne _ _ apart).trans found, isAnnounce, rfl⟩

theorem waits_issue (room : d.pending.size < MAX_PENDING) (node : NodeEntry) (method : Method) (args : Args)
    (lookupTarget : Option (ByteArr 20)) (now : Nat) : (d.issue node method args .announce lookupTarget now).2.id = d.id ∧
      ∃ tx, Waits (d.issue node method args .announce lookupTarget now).2
        (node.addr, encode { t := wireTx tx, body := .query method args }) := by
  unfold issue nextTx pushPending
  dsimp only
  rw [if_neg (not_le.mpr room)]
  exact ⟨rfl, _, _, _, get?_insert_self .., rfl, rfl⟩

theorem announceOne_listed (listed : holder.1 ∈ d.announced) (infoHash : ByteArr 20)
    (port now : Nat) : announceOne infoHash port now d holder = d := by
  unfold announceOne
  rw [if_pos (List.contains_iff_mem.mpr listed)]

theorem announceOne_unlisted (unlisted : holder.1 ∉ d.announced) (infoHash : ByteArr 20) (port now : Nat) :
    announceOne infoHash port now d holder = (issue { d with announced := d.announced ++ [holder.1] }
      { id := NodeId.ZERO, addr := holder.1, lastSeen := now, failed := 0 } .announcePeer
      (announceArgs d.id infoHash port holder.2) .announce (some infoHash) now).2 := by
  unfold announceOne
  rw [if_neg (fun there => unlisted (List.contains_iff_mem.mp there))]
  rfl

theorem carry_announceOne (spares : SparesUnsent sent d) (infoHash : ByteArr 20) (port now : Nat) (holder : NetAddr × Bytes) :
    Carry sent d (announceOne infoHash port now d holder) := by
  by_cases listed : holder.1 ∈ d.announced
  · rw [announceOne_listed listed]
    exact .refl d
  · rw [announceOne_unlisted listed]
    have noted : SparesUnsent sent { d with announced := d.announced ++ [holder.1] } := spares
    have issued := carry_issue noted { id := NodeId.ZERO, addr := holder.1, lastSeen := now, failed := 0 } .announcePeer
      (announceArgs d.id infoHash port holder.2) .announce (some infoHash) now
    exact ⟨issued.id, issued.waits⟩

theorem Offer.made_iff {o : Offer} (room : o.Room) : o.Made ↔ ¬ o.Shadowed := by
  unfold Made Shadowed
  by_cases listed : o.holder.1 ∈ o.engine.announced
  · rw [announceOne_listed listed]
    simp only [listed, true_and, not_not]
  · refine iff_of_true ?_ fun shadowed => listed shadowed.1
    rw [announceOne_unlisted listed]
    have open' : { o.engine with announced := o.engine.announced ++ [o.holder.1] }.pending.size < MAX_PENDING := room
    obtain ⟨sameId, tx, waits⟩ := waits_issue open' { id := NodeId.ZERO, addr := o.holder.1, lastSeen := o.now, failed := 0 }
      .announcePeer (announceArgs o.engine.id o.infoHash o.port o.holder.2) (some o.infoHash) o.now
    refine ⟨tx, .inr ?_⟩
    rw [sameId]
    exact waits

theorem carry_announces (infoHash : ByteArr 20) (port now : Nat) (holders : List (NetAddr × Bytes))
    (spares : ∀ o ∈ offers sent infoHash port now holders d, SparesUnsent sent o.engine) :
    Carry sent d (holders.foldl (announceOne infoHash port now) d) := by
  induction holders generalizing d with
  | nil => exact .refl d
  | cons holder rest ih =>
    exact (carry_announceOne (spares _ List.mem_cons_self) infoHash port now holder).trans
      (ih fun o turn => spares o (List.mem_cons_of_mem _ turn))

theorem offers_sent {holders : List (NetAddr × Bytes)} {o : Offer} (turn : o ∈ offers sent infoHash port now holders d) :
    o.sent = sent ∧ o.infoHash = infoHash ∧ o.port = port ∧ o.now = now ∧ o.holder ∈ holders := by
  induction holders generalizing d with
  | nil => cases turn
  | cons holder rest ih =>
    rcases List.mem_cons.mp turn with rfl | later
    · exact ⟨rfl, rfl, rfl, rfl, List.mem_cons_self⟩
    · obtain ⟨same, hash, port, now, member⟩ := ih later
      exact ⟨same, hash, port, now, List.mem_cons_of_mem _ member⟩

theorem offers_made (infoHash : ByteArr 20) (port now : Nat) (holders : List (NetAddr × Bytes))
    (spares : ∀ o ∈ offers sent infoHash port now holders d, SparesUnsent sent o.engine)
    (made : ∀ o ∈ offers sent infoHash port now holders d, o.Made) :
    ∀ holder ∈ holders, Reaches sent (holders.foldl (announceOne infoHash port now) d) infoHash port holder := by
  induction holders generalizing d with
  | nil => exact fun holder member => nomatch member
  | cons first rest ih =>
    have later : ∀ o ∈ offers sent infoHash port now rest (announceOne infoHash port now d first), SparesUnsent sent o.engine :=
      fun o turn => spares o (List.mem_cons_of_mem _ turn)
    intro holder member
    rcases List.mem_cons.mp member with rfl | behind
    · exact Reaches.carry (made _ List.mem_cons_self) (carry_announces infoHash port now rest later)
    · exact ih later (fun o turn => made o (List.mem_cons_of_mem _ turn)) holder behind

/-! ### What leaves the holders alone -/

structure Gist where
  kind : LookupKind
  target : ByteArr 20
  announcePort : Nat
  tokenNodes : List (NetAddr × Bytes)
  done : Bool

def Lookup.gist (l : Lookup) : Gist := ⟨l.kind, l.target, l.announcePort, l.tokenNodes, l.done⟩

def gists (d : Dht) : List Gist := d.lookups.map Lookup.gist

structure Keeps (sent : List (NetAddr × Bytes)) (d e : Dht) : Prop extends Carry sent d e where
  gists : (gists e).Sublist (gists d)

theorem Keeps.refl (d : Dht) : Keeps sent d d := ⟨.refl d, List.Sublist.refl _⟩

theorem Keeps.trans {d e f : Dht} (first : Keeps sent d e) (second : Keeps sent e f) : Keeps sent d f :=
  ⟨first.toCarry.trans second.toCarry, second.gists.trans first.gists⟩

theorem Carry.keeps (carry : Carry sent d e) (lookups : e.lookups = d.lookups) : Keeps sent d e := by
  refine ⟨carry, ?_⟩
  unfold Dht.gists
  rw [lookups]

theorem OnlyTable.keeps (frame : OnlyTable d e) : Keeps sent d e := (Carry.of_pending frame.id frame.pending).keeps frame.lookups

theorem keeps_issue (spares : SparesUnsent sent d) (node : NodeEntry) (method : Method) (args : Args) (kind : PendingKind)
    (lookupTarget : Option (ByteArr 20)) (now : Nat) : Keeps sent d (d.issue node method args kind lookupTarget now).2 :=
  (carry_issue spares node method args kind lookupTarget now).keeps (issue_pending d node method args kind lookupTarget now).1

theorem keeps_putLookup {idx : Nat} {l m : Lookup} (here : d.lookups[idx]? = some l) (same : m.gist = l.gist) :
    Keeps sent d (d.putLookup idx m) := by
  refine ⟨.of_pending rfl rfl, ?_⟩
  have there : (gists d)[idx]? = some l.gist := by
    rw [gists, List.getElem?_map, here]
    rfl
  obtain ⟨inside, value⟩ := List.getElem?_eq_some_iff.mp there
  show ((d.lookups.set idx m).map Lookup.gist).Sublist (gists d)
  rw [List.map_set, same, ← value]
  show ((gists d).set idx (gists d)[idx]).Sublist (gists d)
  rw [List.set_getElem_self inside]

theorem keeps_queryNodes (idx now : Nat) (nodes : List NodeEntry) {l : Lookup}
    (here : d.lookups[idx]? = some l) (spares : ∀ e ∈ queryIssues idx now nodes l d, SparesUnsent sent e) :
    Keeps sent d (queryNodes idx now nodes l d) := by
  induction nodes generalizing l d with
  | nil => exact .refl d
  | cons node rest ih =>
    have inside : idx < d.lookups.length := (List.getElem?_eq_some_iff.mp here).1
    let m : Lookup := { l with queried := l.queried ++ [node.id] }
    have placed : Keeps sent d (d.putLookup idx m) := keeps_putLookup here rfl
    have there : (d.putLookup idx m).lookups[idx]? = some m := List.getElem?_set_self inside
    have issued := keeps_issue (spares (d.putLookup idx m) List.mem_cons_self) node (lookupQuery (d.putLookup idx m) m).1
      (lookupQuery (d.putLookup idx m) m).2 .lookup (some m.target) now
    have kept := (issue_pending (d.putLookup idx m) node (lookupQuery (d.putLookup idx m) m).1
      (lookupQuery (d.putLookup idx m) m).2 .lookup (some m.target) now).1
    unfold queryIssues at spares
    unfold queryNodes
    dsimp only at spares ⊢
    split
    next e filed =>
      rw [filed] at issued kept spares
      exact (placed.trans issued).trans (ih (by rw [kept]; exact there) fun f later => spares f (List.mem_cons_of_mem _ later))
    next e refused =>
      rw [refused] at issued
      exact placed.trans issued

theorem keeps_driveLookup {idx now : Nat} (spares : ∀ e ∈ Visit.issues ⟨d, idx, now⟩, SparesUnsent sent e) :
    (∀ e, d.driveLookup idx now = (true, e) → Keeps sent d { e with lookups := e.lookups.eraseIdx idx }) ∧
      ∀ e, d.driveLookup idx now = (false, e) → Keeps sent d e := by
  cases here : d.lookups[idx]? with
  | none =>
    have same : d.driveLookup idx now = (false, d) := by
      unfold driveLookup
      rw [here]
    rw [same]
    refine ⟨fun e ended => (nomatch ended), ?_⟩
    rintro e ⟨⟩
    exact .refl d
  | some l =>
    have inside : idx < d.lookups.length := (List.getElem?_eq_some_iff.mp here).1
    have placed : Keeps sent d (d.putLookup idx (d.refreshed l)) := keeps_putLookup here rfl
    -- Whatever was written into the slot, the lookup in it goes.
    have dropped : ∀ e : Dht, e.id = d.id → e.pending = d.pending → e.lookups.eraseIdx idx = d.lookups.eraseIdx idx →
        Keeps sent d { e with lookups := e.lookups.eraseIdx idx } := by
      intro e sameId samePending sameRest
      refine ⟨.of_pending sameId samePending, ?_⟩
      show ((e.lookups.eraseIdx idx).map Lookup.gist).Sublist _
      rw [sameRest]
      exact (List.eraseIdx_sublist ..).map _
    rcases driveLookup_cases here now with ⟨-, same⟩ | ⟨-, -, same⟩ | ⟨inTime, -, same⟩
    · rw [same]
      refine ⟨?_, fun e going => (nomatch going)⟩
      rintro e ⟨⟩
      refine dropped _ rfl rfl ?_
      show ((d.lookups.set idx _).set idx _).eraseIdx idx = _
      rw [List.eraseIdx_set_eq, List.eraseIdx_set_eq]
    · rw [same]
      constructor
      · intro e ended
        cases (Prod.mk.inj ended).2
        exact dropped _ rfl rfl (List.eraseIdx_set_eq ..)
      · intro e going
        cases (Prod.mk.inj going).2
        exact placed
    · rw [same]
      refine ⟨fun e ended => (nomatch ended), ?_⟩
      rintro e ⟨⟩
      have there : (d.putLookup idx (d.refreshed l)).lookups[idx]? = some (d.refreshed l) := List.getElem?_set_self inside
      simp only [Visit.issues, here, if_neg inTime] at spares
      exact placed.trans (keeps_queryNodes idx now _ there spares)

theorem keeps_driveLookups (now fuel idx : Nat) (spares : ∀ v ∈ visits now fuel idx d, ∀ e ∈ v.issues, SparesUnsent sent e) :
    Keeps sent d (driveLookups now fuel idx d) := by
  induction fuel generalizing idx d with
  | zero => exact .refl d
  | succ fuel ih =>
    obtain ⟨ended, going⟩ := keeps_driveLookup (spares ⟨d, idx, now⟩ List.mem_cons_self)
    unfold visits at spares
    unfold driveLookups
    cases driven : d.driveLookup idx now with
    | mk stop e =>
      rw [driven] at spares
      have later := fun v member => spares v (List.mem_cons_of_mem _ member)
      cases stop with
      | true => exact (ended e driven).trans (ih idx later)
      | false => exact (going e driven).trans (ih (idx + 1) later)

theorem waits_expire (now : Nat) (txs : List Nat) (distinct : txs.Nodup) {tx : Nat} {p : Pending}
    (found : d.pending.get? tx = some p) (young : tx ∈ txs → p.retries < 3) :
    ∃ q, (txs.foldl (expireOne now) d).pending.get? tx = some q ∧ q.kind = p.kind ∧ (q.node.addr, q.query) = (p.node.addr, p.query) := by
  induction txs generalizing d p with
  | nil => exact ⟨p, found, rfl, rfl⟩
  | cons first rest ih =>
    obtain ⟨once, distinct⟩ := List.nodup_cons.mp distinct
    by_cases here : first = tx
    · subst here
      have kept : (expireOne now d first).pending.get? first = some { p with retries := p.retries + 1, sentAt := now } := by
        unfold expireOne
        rw [found]
        dsimp only
        rw [if_pos (young List.mem_cons_self)]
        exact get?_insert_self ..
      have later := ih distinct kept fun again => absurd again once
      exact later
    · exact ih distinct ((get?_expireOne_ne now d here).trans found) fun later => young (List.mem_cons_of_mem _ later)

theorem keeps_expirePending
    (ready : ∀ tx p, d.pending.get? tx = some p → p.kind = .announce → Spent now p → (p.node.addr, p.query) ∈ sent) :
    Keeps sent d (d.expirePending now) := by
  have quiet : ∀ (e : Dht) tx, (expireOne now e tx).id = e.id ∧ (expireOne now e tx).lookups = e.lookups := by
    intro e tx
    unfold expireOne
    split
    · exact ⟨rfl, rfl⟩
    · split <;> exact ⟨rfl, rfl⟩
  have still := @foldl_keeps _ (fun d e : Dht => e.id = d.id ∧ e.lookups = d.lookups) (fun _ => ⟨rfl, rfl⟩)
    (fun first second => ⟨second.1.trans first.1, second.2.trans first.2⟩) (expireOne now) quiet
    ((d.pending.entries.filter fun e => decide (2000 < now - e.2.sentAt)).map Prod.fst) d
  refine Carry.keeps ⟨still.1, ?_⟩ still.2
  rintro query unsent ⟨tx, p, found, kind, rfl⟩
  obtain ⟨q, there, sameKind, same⟩ := waits_expire now
    ((d.pending.entries.filter fun e => decide (2000 < now - e.2.sentAt)).map Prod.fst) (d.pending.keys_nodup.sublist (List.filter_sublist.map Prod.fst)) found fun expired => by
      obtain ⟨⟨other, q⟩, overdue, rfl⟩ := List.mem_map.mp expired
      obtain ⟨member, late⟩ := List.mem_filter.mp overdue
      cases Option.some.inj (((mem_entries_iff d.pending other q).mp member).symm.trans found)
      by_contra tried
      exact unsent (ready other p found kind ⟨tried, of_decide_eq_true late⟩)
  exact ⟨tx, q, there, sameKind.trans kind, same⟩

theorem keeps_tick
    (ready : ∀ tx p, d.pending.get? tx = some p → p.kind = .announce → Spent now p → (p.node.addr, p.query) ∈ sent)
    (spares : ∀ v ∈ tickVisits d now, ∀ e ∈ v.issues, SparesUnsent sent e) : Keeps sent d (d.tick now) := by
  have prune : ∀ (e : Dht) (h : Bytes), Keeps sent e (pruneStore now e h) := by
    intro e h
    unfold pruneStore
    split
    · exact .refl e
    · exact Carry.keeps (.of_pending rfl rfl) rfl
  have driven := (keeps_expirePending ready).trans (keeps_driveLookups now _ 0 spares)
  unfold tick
  dsimp only
  generalize driveLookups now (d.expirePending now).lookups.length 0 (d.expirePending now) = e at driven
  have stored := driven.trans (foldl_keeps .refl .trans (pruneStore now) prune
    ((e.peerStore.entries.filter fun s => s.2.all fun p => decide (p.2 ≤ now)).map Prod.fst) e)
  split
  · exact stored.trans (Carry.keeps (.of_pending rfl rfl) rfl)
  · exact stored

theorem keeps_bootstrap (seeds : List NetAddr) (now : Nat) (spares : ∀ e ∈ seedIssues now seeds d, SparesUnsent sent e) :
    Keeps sent d (d.bootstrap seeds now) := by
  unfold bootstrap
  induction seeds generalizing d with
  | nil => exact .refl d
  | cons s rest ih =>
    have noted : SparesUnsent sent { d with table := (d.table.insert (contactAt NodeId.ZERO s now) now).2 } := spares d List.mem_cons_self
    have stored : Keeps sent d { d with table := (d.table.insert (contactAt NodeId.ZERO s now) now).2 } :=
      Carry.keeps (.of_pending rfl rfl) rfl
    have first : Keeps sent d (seedOne now d s) := stored.trans (keeps_issue noted (contactAt NodeId.ZERO s now) .ping _ .ping none now)
    exact first.trans (ih fun e later => spares e (List.mem_cons_of_mem _ later))

/-! ### Every holder is announced to -/

def Apart (g h : Gist) : Prop := g.kind = .getPeers → h.kind = .getPeers → g.target ≠ h.target

/-- The lookups are open, at most one looks for the peers of an infohash, and their holders and those of all turns are reached. -/
structure Told (log : List Offer) (sent : List (NetAddr × Bytes)) (d : Dht) : Prop where
  unfinished : ∀ g ∈ gists d, g.done = false
  apart : (gists d).Pairwise Apart
  reached : ∀ g ∈ gists d, g.kind = .getPeers → ∀ holder ∈ g.tokenNodes.take 20, Reaches sent d g.target g.announcePort holder
  turns : ∀ o ∈ log, Reaches sent d o.infoHash o.port o.holder

variable {log : List Offer}

theorem Told.keeps (told : Told log sent d) (keeps : Keeps sent d e) : Told log sent e where
  unfinished := fun g member => told.unfinished g (keeps.gists.subset member)
  apart := told.apart.sublist keeps.gists
  reached := fun g member kind holder first => (told.reached g (keeps.gists.subset member) kind holder first).carry keeps.toCarry
  turns := fun o turn => (told.turns o turn).carry keeps.toCarry

theorem Told.later (told : Told log sent d) (more : List (NetAddr × Bytes)) : Told log (sent ++ more) d where
  unfinished := told.unfinished
  apart := told.apart
  reached := fun g member kind holder first => (told.reached g member kind holder first).later more
  turns := fun o turn => (told.turns o turn).later more

theorem Told.start {d e : Dht} (told : Told log sent d) {l : Lookup} (sameId : e.id = d.id) (pending : e.pending = d.pending)
    (lookups : e.lookups = d.lookups ++ [l]) (unfinished : l.done = false) (none_yet : l.tokenNodes = [])
    (apart : ∀ g ∈ gists d, Apart g l.gist) : Told log sent e := by
  have listed : gists e = gists d ++ [l.gist] := by rw [gists, lookups, List.map_append]; rfl
  have carry : Carry sent d e := .of_pending sameId pending
  refine ⟨?_, ?_, ?_, fun o turn => (told.turns o turn).carry carry⟩
  · intro g member
    rw [listed] at member
    rcases List.mem_append.mp member with old | new
    · exact told.unfinished g old
    · rw [List.mem_singleton.mp new]
      exact unfinished
  · rw [listed, List.pairwise_append]
    refine ⟨told.apart, List.pairwise_singleton _ _, ?_⟩
    intro g old h new
    rw [List.mem_singleton.mp new]
    exact apart g old
  · intro g member kind holder first
    rw [listed] at member
    rcases List.mem_append.mp member with old | new
    · exact (told.reached g old kind holder first).carry carry
    · rw [List.mem_singleton.mp new] at first
      have empty : l.gist.tokenNodes = [] := none_yet
      rw [empty] at first
      cases first

theorem told_getPeers (told : Told log sent d) (infoHash : ByteArr 20) (announcePort now : Nat) :
    Told log sent (d.getPeers infoHash announcePort now) := by
  unfold getPeers
  split
  · exact told
  next vacant =>
    refine told.start rfl rfl rfl rfl rfl ?_
    rintro g member - - same
    obtain ⟨l, running, rfl⟩ := List.mem_map.mp member
    have unfinished : l.done = false := told.unfinished _ member
    refine vacant (List.any_eq_true.mpr ⟨l, running, ?_⟩)
    rw [unfinished, decide_eq_true (show l.target = infoHash from same)]
    rfl

theorem told_findNode (told : Told log sent d) (target : NodeId) (now : Nat) : Told log sent (d.findNode target now) :=
  told.start rfl rfl rfl rfl rfl fun _ _ _ isGetPeers => nomatch isGetPeers

theorem carry_sendAnnounces
    (spares : ∀ o ∈ readyOffers sent d infoHash now, SparesUnsent sent o.engine) : Carry sent d (d.sendAnnouncesIfReady infoHash now) := by
  unfold readyOffers at spares
  unfold sendAnnouncesIfReady
  split
  · exact .refl d
  next l chosen =>
    rw [chosen] at spares
    exact carry_announces infoHash _ now _ spares

theorem reaches_sendAnnounces
    (spares : ∀ o ∈ readyOffers sent d infoHash now, SparesUnsent sent o.engine) (made : ∀ o ∈ readyOffers sent d infoHash now, o.Made) :
    (∀ l, d.announcing infoHash = some l → ∀ holder ∈ l.tokenNodes.take 20,
        Reaches sent (d.sendAnnouncesIfReady infoHash now) infoHash l.announcePort holder) ∧
      ∀ o ∈ readyOffers sent d infoHash now, Reaches sent (d.sendAnnouncesIfReady infoHash now) o.infoHash o.port o.holder := by
  unfold readyOffers at spares made ⊢
  unfold sendAnnouncesIfReady
  cases chosen : d.announcing infoHash with
  | none => exact ⟨fun l found => (nomatch found), fun o turn => nomatch turn⟩
  | some l =>
    rw [chosen] at spares made
    have reached := offers_made infoHash l.announcePort now (l.tokenNodes.take 20) spares made
    constructor
    · rintro m ⟨⟩
      exact reached
    · intro o turn
      obtain ⟨-, hash, port, -, member⟩ := offers_sent turn
      rw [hash, port]
      exact reached o.holder member

theorem announcing_eq {l : Lookup} (running : l ∈ d.lookups) (kind : l.kind = .getPeers) (unfinished : l.done = false)
    (apart : d.lookups.Pairwise fun a b => a.kind = .getPeers → b.kind = .getPeers → a.target ≠ b.target) :
    d.announcing l.target = some l := by
  cases found : d.announcing l.target with
  | none =>
    have missed := List.find?_eq_none.mp found l running
    simp [kind, unfinished] at missed
  | some m =>
    have member := List.mem_of_find?_eq_some found
    have chosen := List.find?_some found
    simp only [Bool.and_eq_true, decide_eq_true_eq] at chosen
    by_contra other
    have symmetric : Std.Symm fun a b : Lookup => a.kind = .getPeers → b.kind = .getPeers → a.target ≠ b.target :=
      ⟨fun a b distinct kindB kindA => (distinct kindA kindB).symm⟩
    have distinct := apart.forall member running fun same => other (congrArg some same)
    exact distinct chosen.1.1 kind chosen.1.2

theorem told_announcing (told : Told log sent d) (tid : ByteArr 20) (now : Nat) (carry : Carry sent d e)
    (gain : Lookup → Lookup) (lookups : e.lookups = d.lookups.map gain)
    (frame : ∀ l, (gain l).kind = l.kind ∧ (gain l).target = l.target ∧ (gain l).announcePort = l.announcePort ∧
      (gain l).done = l.done) (others : ∀ l, l.target ≠ tid → (gain l).tokenNodes = l.tokenNodes)
    (spares : ∀ o ∈ readyOffers sent e tid now, SparesUnsent sent o.engine) (made : ∀ o ∈ readyOffers sent e tid now, o.Made) :
    Told (log ++ readyOffers sent e tid now) sent (e.sendAnnouncesIfReady tid now) := by
  have listed : gists (e.sendAnnouncesIfReady tid now) = d.lookups.map fun l => (gain l).gist := by
    rw [gists, lookups_sendAnnouncesIfReady, lookups, List.map_map]
    rfl
  have apart : e.lookups.Pairwise fun a b => a.kind = .getPeers → b.kind = .getPeers → a.target ≠ b.target := by
    have before := told.apart
    rw [gists, List.pairwise_map] at before
    rw [lookups, List.pairwise_map]
    refine before.imp ?_
    intro l m apart kindL kindM
    rw [(frame l).2.1, (frame m).2.1]
    exact apart ((frame l).1.symm.trans kindL) ((frame m).1.symm.trans kindM)
  have whole := carry.trans (carry_sendAnnounces spares)
  obtain ⟨chosenReached, turnsReached⟩ := reaches_sendAnnounces spares made
  refine ⟨?_, ?_, ?_, ?_⟩
  · intro g member
    rw [listed] at member
    obtain ⟨l, running, rfl⟩ := List.mem_map.mp member
    exact (frame l).2.2.2.trans (told.unfinished l.gist (List.mem_map_of_mem running))
  · rw [gists, lookups_sendAnnouncesIfReady, List.pairwise_map]
    exact apart
  · intro g member kind holder first
    rw [listed] at member
    obtain ⟨l, running, rfl⟩ := List.mem_map.mp member
    have present : l.gist ∈ gists d := List.mem_map_of_mem running
    by_cases named : l.target = tid
    · have gained : gain l ∈ e.lookups := by
        rw [lookups]
        exact List.mem_map_of_mem running
      have unfinished : (gain l).done = false := (frame l).2.2.2.trans (told.unfinished l.gist present)
      have chosen := announcing_eq gained kind unfinished apart
      rw [(frame l).2.1, named] at chosen
      show Reaches sent _ (gain l).target (gain l).announcePort holder
      rw [(frame l).2.1, named]
      exact chosenReached (gain l) chosen holder first
    · have same : (gain l).tokenNodes = l.tokenNodes := others l named
      have first : holder ∈ (gain l).tokenNodes.take 20 := first
      rw [same] at first
      have before := told.reached l.gist present ((frame l).1.symm.trans kind) holder first
      show Reaches sent _ (gain l).target (gain l).announcePort holder
      rw [(frame l).2.1, (frame l).2.2.1]
      exact before.carry whole
  · intro o turn
    rcases List.mem_append.mp turn with earlier | now
    · exact (told.turns o earlier).carry whole
    · exact turnsReached o now

theorem told_contributed (told : Told log sent d) (node : NodeEntry) (values : List NetAddr) (token : Bytes)
    (nodes : List NodeEntry) (tid : ByteArr 20) (now : Nat)
    (spares : ∀ o ∈ readyOffers sent (contributed d node values token nodes tid now) tid now, SparesUnsent sent o.engine)
    (made : ∀ o ∈ readyOffers sent (contributed d node values token nodes tid now) tid now, o.Made) :
    Told (log ++ readyOffers sent (contributed d node values token nodes tid now) tid now) sent
      ((contributed d node values token nodes tid now).sendAnnouncesIfReady tid now) := by
  have learnt := onlyTable_learnNodes nodes now d
  have carry : Carry sent d (contributed d node values token nodes tid now) := by
    refine .of_pending ?_ ((cachePeers_frame _ tid values).2.1.trans learnt.pending)
    unfold contributed cachePeers
    split
    · exact learnt.id
    · exact learnt.id
  refine told_announcing told tid now carry
    (fun l => if awaits tid node l then contribute node values token nodes l else l)
    (lookups_contributed d node values token nodes tid now) ?_ ?_ spares made
  · intro l
    split
    · exact ⟨rfl, rfl, rfl, rfl⟩
    · exact ⟨rfl, rfl, rfl, rfl⟩
  · intro l other
    have deaf : awaits tid node l = false := by simp [awaits, other]
    rw [deaf]
    rfl

theorem told_handleDatagram (told : Told log sent d) (digests : Digests) (source : NetAddr) (payload : Bytes) (now : Nat)
    (answers : Answers sent d payload) (spares : ∀ o ∈ datagramOffers sent d source payload now, SparesUnsent sent o.engine)
    (made : ∀ o ∈ datagramOffers sent d source payload now, o.Made) :
    Told (log ++ datagramOffers sent d source payload now) sent (d.handleDatagram digests source payload now).2 := by
  have guards : ∀ msg, decode payload = .ok msg → msg.body.isReply = true → Guards sent d (txOf msg.t) := by
    intro msg read reply
    exact answers msg (by rw [read]; rfl) reply
  unfold datagramOffers at spares made ⊢
  cases read : decode payload with
  | error e =>
    unfold handleDatagram
    rw [read]
    simpa only [List.append_nil] using told
  | ok msg =>
    obtain ⟨t, body⟩ := msg
    cases body with
    | query q args => simpa only [List.append_nil] using told.keeps (onlyTable_query read source now).keeps
    | error code text =>
      rw [handleDatagram_error read]
      simp only [List.append_nil]
      unfold onError
      split
      · exact told
      · exact told.keeps (Carry.keeps (.erase rfl rfl (guards _ read rfl)) rfl)
    | response id resp ip =>
      have noting := onlyTable_noted d source id ip now
      rw [handleDatagram_response read]
      simp only [read] at spares made ⊢
      cases found : d.pending.get? (txOf t) with
      | none =>
        rw [onResponse_unmatched found]
        simpa only [found, List.append_nil] using told.keeps noting.keeps
      | some p =>
        have taken : Keeps sent d (settled d source t id ip now) :=
          Carry.keeps (.erase noting.id rfl (guards _ read rfl)) noting.lookups
        rw [onResponse_matched found]
        simp only [found] at spares made ⊢
        cases parts : resp.parts with
        | none =>
          simp only [List.append_nil]
          split
          · rw [consumeLookupResponse_eq, parts]
            exact told.keeps taken
          · exact told.keeps taken
        | some brought =>
          obtain ⟨values, token, nodes⟩ := brought
          simp only [parts] at spares made ⊢
          split
          next isLookup =>
            rw [if_pos isLookup] at spares made
            rw [consumeLookupResponse_eq, parts]
            exact told_contributed (told.keeps taken) p.node values token nodes _ now spares made
          next => simpa only [List.append_nil] using told.keeps taken

/-- What the tick may give up was sent. -/
def Ready (sent : List (NetAddr × Bytes)) (d : Dht) (now : Nat) : Prop :=
  ∀ tx p, d.pending.get? tx = some p → p.kind = .announce → Spent now p → (p.node.addr, p.query) ∈ sent

theorem Ready.operates (digests : Digests) (ready : Ready sent d now) (operates : Operates digests d e) : Ready sent e now := by
  intro tx p found kind spent
  rcases untried_operates operates tx p found with fresh | held
  · exact absurd spent.1 (by omega)
  · exact ready tx p held kind spent

theorem Hurries.ready (hurries : Hurries (sent ++ d.outgoing) d now) : Ready (sent ++ d.outgoing) d now := by
  intro tx p found kind spent
  have member := (mem_entries_iff d.pending tx p).mpr found
  rw [← List.take_append_drop 16 d.pending.entries] at member
  rcases List.mem_append.mp member with low | high
  · exact List.mem_append_right _ (List.mem_map.mpr ⟨(tx, p), low, rfl⟩)
  · by_contra unsent
    exact hurries (tx, p) high kind unsent spent

theorem Prompt.ready {digests : Digests} {next : Option Nat} (run : Prompt digests log sent next d)
    (may : next = some now) : Ready sent d now := by
  induction run with
  | new id port secret clock => exact fun tx p found => nomatch found
  | importNodes before entries clock ih => exact (ih may).operates digests (.importNodes entries clock)
  | ping before node clock spares ih => exact (ih may).operates digests (.ping node clock)
  | bootstrap before seeds clock spares ih => exact (ih may).operates digests (.bootstrap seeds clock)
  | getPeers before infoHash port clock ih => exact (ih may).operates digests (.getPeers infoHash port clock)
  | findNode before target clock ih => exact (ih may).operates digests (.findNode target clock)
  | datagram before source payload clock answers spares ih => exact (ih may).operates digests (.datagram source payload clock)
  | outgoing before clock hurries ih =>
    cases may
    exact hurries.ready
  | tick before spares ih => cases may

theorem told_run {digests : Digests} {next : Option Nat} (run : Prompt digests log sent next d)
    (made : ∀ o ∈ log, o.Made) : Told log sent d := by
  induction run with
  | new id port secret clock =>
    exact ⟨fun g member => (nomatch member), List.Pairwise.nil, fun g member => (nomatch member), fun o turn => nomatch turn⟩
  | importNodes before entries now ih => exact (ih made).keeps (onlyTable_importNodes entries now (0, _)).keeps
  | ping before node now spares ih => exact (ih made).keeps (keeps_issue spares node .ping _ .ping none now)
  | bootstrap before seeds now spares ih => exact (ih made).keeps (keeps_bootstrap seeds now spares)
  | getPeers before infoHash announcePort now ih => exact told_getPeers (ih made) infoHash announcePort now
  | findNode before target now ih => exact told_findNode (ih made) target now
  | datagram before source payload now answers spares ih =>
    exact told_handleDatagram (ih fun o member => made o (List.mem_append_left _ member)) digests source payload now answers spares
      fun o member => made o (List.mem_append_right _ member)
  | outgoing before now hurries ih => exact (ih made).later _
  | tick before spares ih => exact (ih made).keeps (keeps_tick (before.ready rfl) spares)

/-- Every node among the first twenty holders of a running `get_peers` lookup, and every node that had its turn. -/
def AllReached (log : List Offer) (sent : List (NetAddr × Bytes)) (d : Dht) : Prop :=
  (∀ l ∈ d.lookups, l.kind = .getPeers → ∀ holder ∈ l.tokenNodes.take 20, Reaches sent d l.target l.announcePort holder) ∧
    ∀ o ∈ log, Reaches sent d o.infoHash o.port o.holder

theorem Reaches.goes_out (reaches : Reaches sent d infoHash port holder) (few : d.pending.size ≤ 16) :
    ∃ tx, announceQuery d.id infoHash port holder tx ∈ sent ++ d.outgoing := by
  obtain ⟨tx, before | ⟨number, p, found, -, same⟩⟩ := reaches
  · exact ⟨tx, List.mem_append_left _ before⟩
  · refine ⟨tx, List.mem_append_right _ ?_⟩
    have member := (mem_entries_iff d.pending number p).mpr found
    rw [← same]
    unfold outgoing
    rw [List.take_of_length_le few]
    exact List.mem_map.mpr ⟨(number, p), member, rfl⟩

/-- In a run that loses no announcement before it is sent, and while the table of queries has room, every turn reaches its holder
exactly when no turn is shadowed. Then every holder was sent its announcement or it is in flight, and the next `outgoing` sends it
if at most sixteen queries are. -/
theorem announces_every_holder_iff {digests : Digests} {next : Option Nat} {d : Dht} (run : Prompt digests log sent next d)
    (room : ∀ o ∈ log, o.Room) : ((∀ o ∈ log, o.Made) ↔ ∀ o ∈ log, ¬ o.Shadowed) ∧
      ((∀ o ∈ log, ¬ o.Shadowed) → AllReached log sent d ∧
        (d.pending.size ≤ 16 → ∀ o ∈ log, ∃ tx, announceQuery d.id o.infoHash o.port o.holder tx ∈ sent ++ d.outgoing)) := by
  have turns : (∀ o ∈ log, o.Made) ↔ ∀ o ∈ log, ¬ o.Shadowed := forall₂_congr fun o member => Offer.made_iff (room o member)
  refine ⟨turns, fun clear => ?_⟩
  have told := told_run run (turns.mpr clear)
  refine ⟨⟨?_, told.turns⟩, fun few o turn => (told.turns o turn).goes_out few⟩
  intro l running kind holder first
  exact told.reached l.gist (List.mem_map_of_mem running) kind holder first

end Turns

/-! ### One node and two torrents -/

def queryHead (args : Args) : Bytes := ch 'd' :: (encodeBytes (ascii "a") ++ encodeValue (dict args.entries))

theorem queryHead_cut (t : Bytes) (method : Method) (args : Args) :
    queryHead args <+: encode { t, body := .query method args } := by
  have yt : ¬ ascii "y" < ascii "t" := by decide
  have y_ne_t : ascii "y" ≠ ascii "t" := by decide
  have qt : ascii "q" < ascii "t" := by decide
  have aq : ascii "a" < ascii "q" := by decide
  have listed : dict ([("t", .bytes t)] ++ KrpcBody.entries (.query method args)) =
      .dict [(ascii "a", dict args.entries), (ascii "q", .bytes method.name), (ascii "t", .bytes t),
        (ascii "y", .bytes (ascii "q"))] := by
    simp only [dict, KrpcBody.entries, List.cons_append, List.nil_append, List.foldl_cons, List.foldl_nil,
      OrdMap.Raw.insert, if_neg yt, if_neg y_ne_t, if_pos qt, if_pos aq]
  unfold encode queryHead
  rw [listed, encodeValue, encodeEntries]
  refine List.IsPrefix.trans ?_ (List.prefix_append _ _)
  exact List.cons_prefix_cons.mpr ⟨rfl, List.prefix_append _ _⟩

def other : ByteArr 20 := ⟨List.replicate 20 5, rfl⟩

def tokenReply (tx : Nat) : Bytes := encode { t := wireTx tx, body := .response lone.id (.getPeers lone.id [1] [] []) none }

def told : Dht := (asking.handleDatagram noDigests outsider (tokenReply 2) 0).2

theorem prompt_seeking : Prompt noDigests [] [] (some 0) seeking :=
  ((Prompt.new _ _ _ 0).bootstrap [outsider] 0 (show ∀ e ∈ seedIssues 0 [outsider] fresh, SparesUnsent [] e by decide +kernel)).getPeers
    sought 6881 0

theorem announces_holder_of_one_torrent : told.lookups.map (fun l => l.tokenNodes) = [[(outsider, [1])]] ∧
    ∃ tx, announceQuery told.id sought 6881 (outsider, [1]) tx ∈ told.outgoing := by
  have facts : (∀ v ∈ tickVisits seeking 0, ∀ e ∈ v.issues, SparesUnsent [] e) ∧ Answers [] asking (tokenReply 2) ∧
      (∀ o ∈ datagramOffers [] asking outsider (tokenReply 2) 0, SparesUnsent [] o.engine) ∧
      (∀ o ∈ datagramOffers [] asking outsider (tokenReply 2) 0,
        o.engine.pending.size < MAX_PENDING ∧ o.holder.1 ∉ o.engine.announced) ∧
      (∃ o ∈ datagramOffers [] asking outsider (tokenReply 2) 0,
        o.infoHash = sought ∧ o.port = 6881 ∧ o.holder = (outsider, [1])) ∧
      told.lookups.map (fun l => l.tokenNodes) = [[(outsider, [1])]] ∧ told.pending.size ≤ 16 := by decide +kernel
  obtain ⟨visits, answers, spares, turns, ⟨o, member, hash, port, holder⟩, held, few⟩ := facts
  have run := (prompt_seeking.tick visits).datagram outsider (tokenReply 2) 0 answers spares
  obtain ⟨-, all⟩ := announces_every_holder_iff run fun o member => (turns o member).1
  obtain ⟨-, soon⟩ := all fun o member shadowed => (turns o member).2 shadowed.1
  refine ⟨held, ?_⟩
  rw [← hash, ← port, ← holder]
  exact soon few o member

def askingBoth : Dht := (seeking.getPeers other 6881 0).tick 0

def toldFirst : Dht := (askingBoth.handleDatagram noDigests outsider (tokenReply 2) 0).2

def toldBoth : Dht := (toldFirst.handleDatagram noDigests outsider (tokenReply 3) 0).2

def givenUp : Dht := (toldBoth.tick 1000).tick 2000

/-- The node holds a token for the second torrent and is never told about it: nothing to it was sent or is in flight, and no lookup
is left. -/
theorem second_torrent_not_announced : ∃ log sent, Prompt noDigests log sent none givenUp ∧ (∀ o ∈ log, o.Room) ∧
    givenUp.lookups = [] ∧ ∃ o ∈ log, o.infoHash = other ∧ o.holder = (outsider, [1]) ∧
      ¬ Reaches sent givenUp other o.port o.holder := by
  have facts : (∀ v ∈ tickVisits (seeking.getPeers other 6881 0) 0, ∀ e ∈ v.issues, SparesUnsent [] e) ∧
      Answers [] askingBoth (tokenReply 2) ∧
      (∀ o ∈ datagramOffers [] askingBoth outsider (tokenReply 2) 0, SparesUnsent [] o.engine) ∧
      Answers [] toldFirst (tokenReply 3) ∧
      (∀ o ∈ datagramOffers [] toldFirst outsider (tokenReply 3) 0, SparesUnsent [] o.engine) ∧
      Hurries toldBoth.outgoing toldBoth 1000 ∧
      (∀ v ∈ tickVisits toldBoth 1000, ∀ e ∈ v.issues, SparesUnsent toldBoth.outgoing e) ∧
      Hurries (toldBoth.outgoing ++ (toldBoth.tick 1000).outgoing) (toldBoth.tick 1000) 2000 ∧
      (∀ v ∈ tickVisits (toldBoth.tick 1000) 2000, ∀ e ∈ v.issues,
        SparesUnsent (toldBoth.outgoing ++ (toldBoth.tick 1000).outgoing) e) ∧
      (∀ o ∈ datagramOffers [] askingBoth outsider (tokenReply 2) 0 ++ datagramOffers [] toldFirst outsider (tokenReply 3) 0,
        o.engine.pending.size < MAX_PENDING) ∧ givenUp.lookups = [] ∧
      (∃ o ∈ datagramOffers [] askingBoth outsider (tokenReply 2) 0 ++ datagramOffers [] toldFirst outsider (tokenReply 3) 0,
        o.infoHash = other ∧ o.port = 6881 ∧ o.holder = (outsider, [1])) ∧
      ∀ f ∈ (toldBoth.outgoing ++ (toldBoth.tick 1000).outgoing) ++
        givenUp.pending.entries.map fun e => (e.2.node.addr, e.2.query),
        ¬ queryHead (announceArgs givenUp.id other 6881 [1]) <+: f.2 := by decide +kernel
  obtain ⟨visits, first, spares₁, second, spares₂, soon, visits₁, later, visits₂, room, none_left,
    ⟨o, member, hash, port, holder⟩, never⟩ := facts
  have asked : Prompt noDigests [] [] none askingBoth := (prompt_seeking.getPeers other 6881 0).tick visits
  have run := (asked.datagram outsider (tokenReply 2) 0 first spares₁).datagram outsider (tokenReply 3) 0 second spares₂
  refine ⟨_, _, (((run.outgoing 1000 soon).tick visits₁).outgoing 2000 later).tick visits₂, room, none_left,
    o, member, hash, holder, ?_⟩
  rw [port, holder]
  rintro ⟨tx, before | ⟨number, p, found, -, same⟩⟩
  · exact never _ (List.mem_append_left _ before) (queryHead_cut _ _ _)
  · have member := (mem_entries_iff _ number p).mpr found
    exact never _ (List.mem_append_right _ (List.mem_map.mpr ⟨(number, p), member, same⟩)) (queryHead_cut _ _ _)

end TypeBit.Dht
