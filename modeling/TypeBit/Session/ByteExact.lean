import TypeBit.Session.Gathered

/-! Byte-exact assembly over whole runs: a buffer handed to the verifier holds at every byte what the
first message that covered it supplied since the piece was last cleared. -/

namespace TypeBit.Session
open Metainfo Leech Wire Patch OrdMap TorrentSession

section Assembly
variable {H : Type}

def FirstSupplied (wins : List (Nat × Bytes)) (buf : Bytes) : Prop := ∀ j < buf.length, first wins j = buf[j]?

/-- The invariant of the assembly: every piece agrees, and so did every piece handed over. -/
structure Assembly (w : World H) : Prop where
  gathered : ∀ piece, Gathered w piece
  handed : ∀ before after piece buf, w.trace = before ++ .assembled piece buf :: after →
    w.sess.pieceLen piece = some buf.length ∧ FirstSupplied (since piece before) buf

theorem assembled_earlier {trace more before after : List Effect} {e : Effect}
    (split : trace ++ more = before ++ e :: after) (elsewhere : e ∉ more) :
    ∃ rest, trace = before ++ e :: rest := by
  rcases List.append_eq_append_iff.mp split with ⟨l, _, rest⟩ | ⟨l, same, tail⟩
  · rw [rest] at elsewhere
    exact absurd (List.mem_append_right l List.mem_cons_self) elsewhere
  · cases l with
    | nil =>
      rw [List.nil_append] at tail
      rw [← tail] at elsewhere
      exact absurd List.mem_cons_self elsewhere
    | cons x rest =>
      cases tail
      exact ⟨rest, same⟩

theorem last_or_earlier {trace before after : List Effect} {last e : Effect}
    (split : trace ++ [last] = before ++ e :: after) : (trace = before ∧ last = e) ∨ ∃ rest, trace = before ++ e :: rest := by
  rcases List.eq_nil_or_concat after with rfl | ⟨rest, x, rfl⟩
  · obtain ⟨same, last⟩ := List.append_inj' split rfl
    exact Or.inl ⟨same, List.singleton_inj.mp last⟩
  · refine Or.inr ⟨rest, ?_⟩
    rw [List.concat_eq_append, ← List.cons_append, ← List.append_assoc] at split
    exact (List.append_inj' split rfl).1

theorem handed_later {w v : World H} (assembly : Assembly w) (more : List Effect) (traced : v.trace = w.trace ++ more)
    (elsewhere : ∀ piece buf, .assembled piece buf ∉ more)
    (lengths : ∀ piece len, w.sess.pieceLen piece = some len → v.sess.pieceLen piece = some len)
    (before after : List Effect) (piece : Nat) (buf : Bytes) (split : v.trace = before ++ .assembled piece buf :: after) :
    v.sess.pieceLen piece = some buf.length ∧ FirstSupplied (since piece before) buf := by
  rw [traced] at split
  obtain ⟨rest, earlier⟩ := assembled_earlier split (elsewhere piece buf)
  obtain ⟨length, bytes⟩ := assembly.handed before rest piece buf earlier
  exact ⟨lengths piece _ length, bytes⟩

theorem pieceLen_congr {s u : TorrentSession} (torrent : u.torrent = s.torrent) (piece len : Nat)
    (known : s.pieceLen piece = some len) : u.pieceLen piece = some len := by
  rw [pieceLen, torrent]
  exact known

theorem assembly_clear {w v : World H} (assembly : Assembly w) {index : Nat} (torrent : v.sess.torrent = w.sess.torrent)
    (pieceBytes : v.sess.pieceBytes = w.sess.pieceBytes.erase index)
    (assembling : v.sess.assembling = w.sess.assembling.erase index)
    (traced : v.trace = w.trace ++ [.cleared index]) : Assembly v := by
  refine ⟨fun piece => ?_, handed_later assembly _ traced (by simp) (pieceLen_congr torrent)⟩
  by_cases own : index = piece
  · subst own
    refine gathered_nothing ?_ ?_ ?_
    · rw [pieceBytes, get?_erase_self]
    · rw [assembling, get?_erase_self]
    · rw [traced, since_append, remember, if_pos rfl]
  · refine (assembly.gathered piece).congr ?_ ?_ ?_ (pieceLen_congr torrent piece)
    · rw [tracker, pieceBytes, get?_erase_ne _ own]
      rfl
    · rw [assembling, get?_erase_ne _ own]
    · rw [traced, since_append, remember, if_neg own]

theorem assembly_store {w : World H} (assembly : Assembly w) {index start : Nat} {data : Bytes} {len : Nat}
    (known : w.sess.pieceLen index = some len) (small : len < 2 ^ 32) (filled : data.length ≠ 0)
    (inside : start + data.length ≤ len) (conn : ConnId) :
    Assembly (storeBytes conn index start data len (w.emit (.supplied index start data))) := by
  have gathered := assembly.gathered index
  have stored := stored_storeBytes conn index start data len (w.emit (.supplied index start data))
  refine ⟨fun piece => ?_, ?_⟩
  · by_cases own : index = piece
    · subst own
      exact gathered_store gathered known small filled inside conn
    · exact gathered_store_other (assembly.gathered piece) own conn
  · have earlier := handed_later assembly [.supplied index start data]
      (v := storeBytes conn index start data len (w.emit (.supplied index start data)))
    rcases storeBytes_cases conn index start data len (w.emit (.supplied index start data)) with
      ⟨_, same⟩ | ⟨_, _, kept⟩ | ⟨fresh, complete, handed⟩
    · exact earlier same.trace (by simp) (pieceLen_congr stored.torrent)
    · exact earlier kept.trace (by simp) (pieceLen_congr stored.torrent)
    · intro before after piece buf split
      rw [handed.trace] at split
      rcases last_or_earlier split with ⟨rfl, new⟩ | ⟨rest, old⟩
      · cases new
        obtain ⟨length, bytes⟩ := buffered_spec gathered known inside fresh
        have full := complete_cells gathered known small inside complete
        refine ⟨pieceLen_congr stored.torrent index _ (known.trans (congrArg some length.symm)), ?_⟩
        intro j below
        refine (bytes j ?_).symm
        rw [full, Finset.mem_range, ← length]
        exact below
      · obtain ⟨length, bytes⟩ := handed_later assembly (v := w.emit (.supplied index start data)) _ rfl (by simp)
          (pieceLen_congr rfl) before rest piece buf old
        exact ⟨pieceLen_congr stored.torrent piece _ length, bytes⟩

theorem assembly_atom {w v : World H} (atom : Atom w v) (sound : Sound w.sess) (assembly : Assembly w) : Assembly v := by
  cases atom with
  | frame kept =>
    obtain ⟨more, traced, quiet⟩ := kept.trace
    have lengths := pieceLen_congr (congrArg Core.torrent kept.core : v.sess.torrent = w.sess.torrent)
    have pieceBytes : v.sess.pieceBytes = w.sess.pieceBytes := congrArg Core.pieceBytes kept.core
    have assembling : v.sess.assembling = w.sess.assembling := congrArg Core.assembling kept.core
    refine ⟨fun piece => ?_, handed_later assembly _ traced (fun piece buf member => ?_) lengths⟩
    · refine (assembly.gathered piece).congr ?_ (by rw [assembling]) ?_ (lengths piece)
      · rw [tracker, pieceBytes]
        rfl
      · rw [traced, since_quiet piece w.trace quiet]
    · cases quiet _ member
  | @store conn index start data t info torrent known filled inside blocks =>
    exact assembly_store assembly (pieceLen_of_known torrent known) (pieceInfo_len_lt known) filled inside conn
  | settle index => exact assembly_clear assembly rfl rfl rfl rfl
  | forget index => exact assembly_clear assembly rfl rfl rfl rfl
  | fetch fetched traced =>
    have lengths := pieceLen_congr (congrArg Ledger.torrent fetched.ledger : v.sess.torrent = w.sess.torrent)
    have pieceBytes : v.sess.pieceBytes = w.sess.pieceBytes := congrArg Ledger.pieceBytes fetched.ledger
    have assembling : v.sess.assembling = w.sess.assembling := congrArg Ledger.assembling fetched.ledger
    refine ⟨fun piece => ?_, handed_later assembly [] (by simp [traced]) (by simp) lengths⟩
    refine (assembly.gathered piece).congr ?_ (by rw [assembling]) (by rw [traced]) (lengths piece)
    rw [tracker, pieceBytes]
    rfl
  | install t absent installed traced =>
    -- without a torrent no piece has a length, so there is nothing to carry over
    have none := sound.absent absent
    have lengths : ∀ piece len, w.sess.pieceLen piece = some len → v.sess.pieceLen piece = some len := by
      intro piece len known
      rw [pieceLen, none] at known
      cases known
    refine ⟨fun piece => ?_, handed_later assembly [] (by simp [traced]) (by simp) lengths⟩
    refine (assembly.gathered piece).congr ?_ (by rw [installed.assembling]) (by rw [traced]) (lengths piece)
    rw [tracker, installed.pieceBytes]
    rfl

theorem nothing_gathered_initial {s : TorrentSession} (initial : Initial s) : s.pieceBytes = ∅ ∧ s.assembling = ∅ := by
  induction initial with
  | torrent t cfg now => exact ⟨rfl, rfl⟩
  | magnet ih webSeeds cfg now => exact ⟨rfl, rfl⟩
  | restored fresh haveBytes priorities up down reputation now ih =>
    rename_i s
    obtain ⟨bits, _, kept⟩ := kept_applySavedState haveBytes priorities up down reputation now s
    exact ⟨(congrArg Kept.pieceBytes kept).trans ih.1, (congrArg Kept.assembling kept).trans ih.2⟩

theorem assembly_initial {s : TorrentSession} (initial : Initial s) (io : DiskCache.State H) :
    Assembly (⟨s, io, []⟩ : World H) := by
  obtain ⟨pieceBytes, assembling⟩ := nothing_gathered_initial initial
  refine ⟨fun piece => gathered_nothing ?_ ?_ rfl, ?_⟩
  · simp [pieceBytes]
  · simp [assembling]
  · intro before after piece buf split
    exact absurd split.symm (by simp)

variable {digests : Digests} {host : Host H} {w : World H}

theorem Reachable.assembly (reachable : Reachable digests host w) : Assembly w := by
  obtain ⟨s, io, events, initial, rfl⟩ := reachable
  have each : ∀ {u v : World H}, Atom u v → Sound u.sess ∧ Assembly u → Sound v.sess ∧ Assembly v := by
    rintro u v atom ⟨sound, assembly⟩
    exact ⟨sound_atom atom sound, assembly_atom atom sound assembly⟩
  exact (run_of_atoms each digests host events ⟨sound_initial initial, assembly_initial initial io⟩).2

/-! ### Insertions into `pending_verify` -/

theorem onPiece_inserts (sound : Sound w.sess) (assembly : Assembly w) (env : Env) (conn : ConnId) (index start : Nat)
    (data : Bytes) (changed : (onPiece env conn index start data w).2.sess.pendingVerify ≠ w.sess.pendingVerify) :
    ∃ buf, (onPiece env conn index start data w).2.sess.pendingVerify = w.sess.pendingVerify.insert index buf ∧
      w.sess.pieceLen index = some buf.length ∧ FirstSupplied (since index w.trace ++ [(start, data)]) buf := by
  rcases onPiece_cases env conn index start data w with
    same | ⟨t, info, u, torrent, known, _, inside, _, calm, stored⟩
  · rw [same] at changed
    exact absurd rfl changed
  · have resolved := (assembly_atom (.frame calm.frame) sound assembly).gathered index
    have pending : u.sess.pendingVerify = w.sess.pendingVerify := congrArg Ledger.pendingVerify calm.ledger
    have history : since index u.trace = since index w.trace := by
      obtain ⟨more, traced, quiet⟩ := calm.frame.trace
      rw [traced, since_quiet index w.trace quiet]
    have arrived : u.sess.torrent = some t := (congrArg Ledger.torrent calm.ledger).trans torrent
    have len := pieceLen_of_known arrived known
    rw [stored] at changed ⊢
    rcases storeBytes_cases conn index start data info.len (u.emit (.supplied index start data)) with
      ⟨_, same⟩ | ⟨_, _, kept⟩ | ⟨fresh, complete, handed⟩
    · exact absurd (same.pending.trans pending) changed
    · exact absurd (kept.pending.trans pending) changed
    · obtain ⟨length, bytes⟩ := buffered_spec resolved len inside fresh
      have full := complete_cells resolved len (pieceInfo_len_lt known) inside complete
      refine ⟨_, ?_, (pieceLen_of_known torrent known).trans (congrArg some length.symm), ?_⟩
      · rw [handed.pending, ← pending]
        rfl
      · intro j below
        have here := bytes j (by rw [full, Finset.mem_range, ← length]; exact below)
        rw [World.emit, since_append, remember, if_pos rfl, history] at here
        exact here.symm

/-- Byte-exact assembly: in every run, whatever `on_piece` hands to the verifier has the length of the
piece and consists of the bytes first supplied since the piece was last cleared. -/
theorem assembled_byte_exact (reachable : Reachable digests host w) :
    (∀ before after piece buf, w.trace = before ++ .assembled piece buf :: after →
      w.sess.pieceLen piece = some buf.length ∧ FirstSupplied (since piece before) buf) ∧
      ∀ env conn index start data,
        (onPiece env conn index start data w).2.sess.pendingVerify ≠ w.sess.pendingVerify →
        ∃ buf, (onPiece env conn index start data w).2.sess.pendingVerify = w.sess.pendingVerify.insert index buf ∧
          w.sess.pieceLen index = some buf.length ∧ FirstSupplied (since index w.trace ++ [(start, data)]) buf :=
  ⟨reachable.assembly.handed, onPiece_inserts reachable.sound reachable.assembly⟩

/-- Two overlapping windows: the second byte is the one of the first message. -/
theorem assembled_byte_exact_overlap :
    ∃ before, (run Sample.digests Sample.host Sample.arrival Sample.fresh).trace = before ++ [.assembled 0 [1, 2, 6]] ∧
      since 0 before = [(0, [1, 2]), (1, [5, 6])] ∧ FirstSupplied (since 0 before) [1, 2, 6] := by
  have split : (run Sample.digests Sample.host Sample.arrival Sample.fresh).trace =
      (run Sample.digests Sample.host Sample.arrival Sample.fresh).trace.take 3 ++ [.assembled 0 [1, 2, 6]] := by
    decide
  exact ⟨_, split, by decide,
    ((assembled_byte_exact (Sample.reachable_fresh Sample.arrival)).1 _ [] 0 [1, 2, 6] split).2⟩

end Assembly
end TypeBit.Session
