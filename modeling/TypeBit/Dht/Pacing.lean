import TypeBit.Dht.Calls

/-! Whether the queries that fail were ever sent (`dht.rs`). `outgoing` sends the sixteen queries with the lowest numbers, again
and again until they are answered; the clock of the others runs meanwhile. -/

namespace TypeBit.Dht
open Metainfo OrdMap

inductive Operates (digests : Digests) (d : Dht) : Dht → Prop
  | importNodes (entries : List Bytes) (now : Nat) : Operates digests d (d.importNodes entries now).2
  | ping (node : NodeEntry) (now : Nat) : Operates digests d (d.ping node now).2
  | bootstrap (seeds : List NetAddr) (now : Nat) : Operates digests d (d.bootstrap seeds now)
  | getPeers (infoHash : ByteArr 20) (announcePort now : Nat) : Operates digests d (d.getPeers infoHash announcePort now)
  | findNode (target : NodeId) (now : Nat) : Operates digests d (d.findNode target now)
  | datagram (source : NetAddr) (payload : Bytes) (now : Nat) :
      Operates digests d (d.handleDatagram digests source payload now).2

/-- The runs in which `outgoing` is called between any two ticks. The list has the engines at which it was called, each with the
clock of the next tick; the clock of a tick that may follow is `some`. -/
inductive Paced (digests : Digests) : List (Dht × Nat) → Option Nat → Dht → Prop
  | new (id : NodeId) (port : Nat) (secret : ByteArr 16) (now : Nat) : Paced digests [] (some now) (.new id port secret)
  | operate {sends next d e} (before : Paced digests sends next d) (operates : Operates digests d e) :
      Paced digests sends next e
  | outgoing {sends next d} (before : Paced digests sends next d) (now : Nat) : Paced digests (sends ++ [(d, now)]) (some now) d
  | tick {sends now d} (before : Paced digests sends (some now) d) : Paced digests sends none (d.tick now)

/-- A query that a tick gives up if it is still in flight: its retries are used up, and it is overdue. -/
def Spent (now : Nat) (p : Pending) : Prop := ¬ p.retries < 3 ∧ 2000 < now - p.sentAt

instance (now : Nat) : DecidablePred (Spent now) := fun _ => inferInstanceAs (Decidable (_ ∧ _))

/-- Behind the sixteen lowest numbers the next tick finds nothing to give up. -/
def InTime (e : Dht × Nat) : Prop := ∀ q ∈ e.1.pending.entries.drop 16, ¬ Spent e.2 q.2

instance : DecidablePred InTime := fun _ => inferInstanceAs (Decidable (∀ _ ∈ _, _))

/-! ### Only a tick counts retries -/

def Untried (d e : Dht) : Prop := ∀ tx p, e.pending.get? tx = some p → p.retries = 0 ∨ d.pending.get? tx = some p

theorem Untried.refl (d : Dht) : Untried d d := fun _ _ found => .inr found

theorem Untried.trans {d e f : Dht} (first : Untried d e) (second : Untried e f) : Untried d f := by
  intro tx p found
  rcases second tx p found with fresh | before
  · exact .inl fresh
  · exact first tx p before

variable {d e : Dht}

theorem untried_of_pending (same : e.pending = d.pending) : Untried d e := by
  intro tx p found
  exact .inr (same ▸ found)

theorem untried_of_erase {tx : Nat} (less : e.pending = d.pending.erase tx) : Untried d e := by
  intro tx' p found
  rw [less] at found
  exact .inr (get?_of_erase found)

theorem untried_issue (d : Dht) (node : NodeEntry) (method : Method) (args : Args) (kind : PendingKind)
    (lookupTarget : Option (ByteArr 20)) (now : Nat) : Untried d (d.issue node method args kind lookupTarget now).2 := by
  unfold issue nextTx pushPending
  dsimp only
  split
  · exact untried_of_pending rfl
  · intro tx p found
    dsimp only at found
    rw [get?_insert] at found
    split at found
    · cases found
      exact .inl rfl
    · exact .inr found

theorem untried_seedOne (now : Nat) (d : Dht) (s : NetAddr) : Untried d (seedOne now d s) := by
  have put : Untried d { d with table := (d.table.insert (contactAt NodeId.ZERO s now) now).2 } := untried_of_pending rfl
  exact put.trans (untried_issue _ (contactAt NodeId.ZERO s now) .ping { id := d.id } .ping none now)

theorem untried_announceOne (infoHash : ByteArr 20) (port now : Nat) (d : Dht) (holder : NetAddr × Bytes) :
    Untried d (announceOne infoHash port now d holder) := by
  unfold announceOne
  split
  · exact .refl d
  · have noted : Untried d { d with announced := d.announced ++ [holder.1] } := untried_of_pending rfl
    exact noted.trans (untried_issue _ _ _ _ _ _ _)

theorem untried_sendAnnouncesIfReady (d : Dht) (infoHash : ByteArr 20) (now : Nat) :
    Untried d (d.sendAnnouncesIfReady infoHash now) := by
  unfold sendAnnouncesIfReady
  split
  · exact .refl d
  · exact foldl_keeps .refl .trans _ (untried_announceOne infoHash _ now) _ d

theorem untried_onResponse (d : Dht) (source : NetAddr) (t : Bytes) (id : NodeId) (resp : Resp) (ip : Option Bytes) (now : Nat) :
    Untried d (d.onResponse source t id resp ip now) := by
  cases found : d.pending.get? (txOf t) with
  | none =>
    rw [onResponse_unmatched found]
    exact untried_of_pending (onlyTable_noted d source id ip now).pending
  | some p =>
    have taken : Untried d (settled d source t id ip now) := untried_of_erase rfl
    rw [onResponse_matched found]
    split
    · rw [consumeLookupResponse_eq]
      split
      · exact taken
      next values token nodes _ =>
        have framed : (contributed (settled d source t id ip now) p.node values token nodes (p.lookupTarget.getD NodeId.ZERO)
            now).pending = ((settled d source t id ip now).learnNodes nodes now).pending := (cachePeers_frame _ _ _).2.1
        have learnt := onlyTable_learnNodes nodes now (settled d source t id ip now)
        have kept := untried_of_pending (framed.trans learnt.pending)
        exact taken.trans (kept.trans (untried_sendAnnouncesIfReady _ _ now))
    · exact taken

theorem untried_operates {digests : Digests} (operates : Operates digests d e) : Untried d e := by
  cases operates with
  | importNodes entries now => exact untried_of_pending (onlyTable_importNodes entries now (0, d)).pending
  | ping node now => exact untried_issue d node .ping { id := d.id } .ping none now
  | bootstrap seeds now => exact foldl_keeps .refl .trans _ (untried_seedOne now) seeds d
  | getPeers infoHash announcePort now =>
    unfold getPeers
    split
    · exact .refl d
    · exact untried_of_pending rfl
  | findNode target now => exact untried_of_pending rfl
  | datagram source payload now =>
    cases read : decode payload with
    | error e =>
      unfold handleDatagram
      rw [read]
      exact .refl d
    | ok msg =>
      obtain ⟨t, body⟩ := msg
      cases body with
      | query q args => exact untried_of_pending (onlyTable_query read source now).pending
      | response id resp ip =>
        rw [handleDatagram_response read]
        exact untried_onResponse d source t id resp ip now
      | error code text =>
        rw [handleDatagram_error read]
        unfold onError
        split
        · exact .refl d
        · exact untried_of_erase rfl

/-! ### What a tick gives up -/

theorem get?_expireOne_ne (now : Nat) (d : Dht) {tx other : Nat} (apart : tx ≠ other) :
    (expireOne now d tx).pending.get? other = d.pending.get? other := by
  unfold expireOne
  split
  · rfl
  split
  · exact get?_insert_ne _ _ apart
  · exact get?_erase_ne _ apart

variable {now : Nat} {p : Pending}

theorem tried_of_given_up {txs : List Nat} (distinct : txs.Nodup)
    (given : .fail p now ∈ expireCalls now txs d) : ∃ tx ∈ txs, d.pending.get? tx = some p ∧ ¬ p.retries < 3 := by
  induction txs generalizing d with
  | nil => cases given
  | cons tx rest ih =>
    obtain ⟨once, distinct⟩ := List.nodup_cons.mp distinct
    rw [expireCalls] at given
    rcases List.mem_append.mp given with here | later
    · split at here
      next q found =>
        split at here
        · cases here
        next tried =>
          cases List.mem_singleton.mp here
          exact ⟨tx, List.mem_cons_self, found, tried⟩
      · cases here
    · obtain ⟨other, member, found, tried⟩ := ih distinct later
      have apart : tx ≠ other := fun same => once (same ▸ member)
      rw [get?_expireOne_ne now d apart] at found
      exact ⟨other, List.mem_cons_of_mem _ member, found, tried⟩

theorem spent_of_failed (failed : .fail p now ∈ tickCalls d now) : ∃ tx, d.pending.get? tx = some p ∧ Spent now p := by
  have distinct : ((d.pending.entries.filter fun e => decide (2000 < now - e.2.sentAt)).map Prod.fst).Nodup :=
    d.pending.keys_nodup.sublist (List.filter_sublist.map Prod.fst)
  obtain ⟨tx, expired, held, tried⟩ := tried_of_given_up distinct failed
  obtain ⟨⟨other, q⟩, overdue, rfl⟩ := List.mem_map.mp expired
  obtain ⟨member, late⟩ := List.mem_filter.mp overdue
  have same : some q = some p := ((mem_entries_iff d.pending other q).mp member).symm.trans held
  cases same
  exact ⟨other, held, tried, of_decide_eq_true late⟩

/-! ### Runs -/

theorem Paced.seen {digests : Digests} {sends : List (Dht × Nat)} {next : Option Nat}
    (run : Paced digests sends next d) (may : next = some now) :
    ∀ tx p, d.pending.get? tx = some p → p.retries = 0 ∨ ∃ e, (e, now) ∈ sends ∧ e.pending.get? tx = some p := by
  induction run with
  | new id port secret clock => exact fun tx p found => nomatch found
  | operate before operates ih =>
    intro tx p found
    rcases untried_operates operates tx p found with fresh | held
    · exact .inl fresh
    · exact ih may tx p held
  | @outgoing sends next d before clock ih =>
    cases may
    exact fun tx p found => .inr ⟨d, List.mem_append_right _ List.mem_cons_self, found⟩
  | tick before ih => cases may

theorem InTime.sends (inTime : InTime (d, now)) {tx : Nat}
    (found : d.pending.get? tx = some p) (spent : Spent now p) : (p.node.addr, p.query) ∈ d.outgoing := by
  have member := (mem_entries_iff d.pending tx p).mpr found
  rw [← List.take_append_drop 16 d.pending.entries] at member
  rcases List.mem_append.mp member with low | high
  · exact List.mem_map.mpr ⟨(tx, p), low, rfl⟩
  · exact absurd spent (inTime (tx, p) high)

/-- In a run of ticks with `outgoing` between them, where `outgoing` never leaves a query behind the sixteen lowest numbers that
the next tick finds spent, a tick counts a failure only of a query that `outgoing` returned. -/
theorem only_sent_queries_fail {digests : Digests} {sends : List (Dht × Nat)} {now : Nat} {d : Dht}
    (run : Paced digests sends (some now) d) (inTime : ∀ e ∈ sends, InTime e) :
    (d.tick now).table = (tickCalls d now).foldl TableCall.apply d.table ∧
      ∀ p, .fail p now ∈ tickCalls d now →
        ∃ e ∈ sends, (∃ tx, e.1.pending.get? tx = some p) ∧ (p.node.addr, p.query) ∈ e.1.outgoing := by
  constructor
  · exact (makes_tick d now).table
  · intro p failed
    obtain ⟨tx, found, spent⟩ := spent_of_failed failed
    rcases run.seen rfl tx p found with fresh | ⟨e, called, held⟩
    · exact absurd spent.1 (by omega)
    · exact ⟨(e, now), called, ⟨tx, held⟩, (inTime (e, now) called).sends held spent⟩

/-! ### Seeds that never answer -/

/-- The engine that pinged some seeds, after a number of ticks three seconds apart. -/
def unanswered (seeds : Nat) : Nat → Dht
  | 0 => fresh.bootstrap ((List.range seeds).map fun i => .ofOctets 192 0 2 i.toUInt8 6881) 0
  | ticks + 1 => (unanswered seeds ticks).tick (3000 * (ticks + 1))

def unansweredSends (seeds ticks : Nat) : List (Dht × Nat) :=
  (List.range (ticks + 1)).map fun i => (unanswered seeds i, 3000 * (i + 1))

theorem paced_unanswered (seeds ticks : Nat) :
    Paced noDigests (unansweredSends seeds ticks) (some (3000 * (ticks + 1))) (unanswered seeds ticks) := by
  induction ticks with
  | zero => exact ((Paced.new _ _ _ 0).operate (.bootstrap _ 0)).outgoing 3000
  | succ ticks ih =>
    rw [unansweredSends, List.range_succ, List.map_append]
    exact ih.tick.outgoing (3000 * (ticks + 1 + 1))

theorem only_sent_queries_fail_lone : (tickCalls (unanswered 1 3) 12000).length = 1 ∧
    ∀ p, .fail p 12000 ∈ tickCalls (unanswered 1 3) 12000 →
      ∃ e ∈ unansweredSends 1 3, (∃ tx, e.1.pending.get? tx = some p) ∧ (p.node.addr, p.query) ∈ e.1.outgoing :=
  ⟨by decide, (only_sent_queries_fail (paced_unanswered 1 3) (by decide)).2⟩

set_option maxRecDepth 20000 in
/-- The seventeenth seed of seventeen is given up though no `outgoing` ever returned its ping. -/
theorem seventeenth_seed_never_sent :
    Paced noDigests (unansweredSends 17 3) (some 12000) (unanswered 17 3) ∧
      ∃ p, .fail p 12000 ∈ tickCalls (unanswered 17 3) 12000 ∧
        ∀ e ∈ unansweredSends 17 3, (p.node.addr, p.query) ∉ e.1.outgoing := by
  refine ⟨paced_unanswered 17 3, ?_⟩
  have facts : ((unanswered 17 3).pending.get? 17).any fun p =>
      decide (TableCall.fail p 12000 ∈ tickCalls (unanswered 17 3) 12000 ∧
        ∀ e ∈ unansweredSends 17 3, (p.node.addr, p.query) ∉ e.1.outgoing) := by decide
  obtain ⟨p, -, facts⟩ := (Option.any_eq_true _ _).mp facts
  exact ⟨p, of_decide_eq_true facts⟩

end TypeBit.Dht
