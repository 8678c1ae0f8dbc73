import TypeBit.Bencode.Skip
import TypeBit.Metainfo.Accepted

/-! The infohash preimage. The raw capture stops at the first top-level `info` key while the
parsed map keeps the last one, so the stored bytes are the parsed `info` value exactly when the
two entries agree. -/

namespace TypeBit.Metainfo
open Bencode Window
set_option maxRecDepth 20000

/-- The top-level entries of a dictionary text, in order and with repetitions. -/
def TopLevel (data : Bytes) (entries : Dict) : Prop :=
  ∃ ts : List Bytes, data = ch 'd' :: ts.flatten ++ [ch 'e'] ∧
    List.Forall₂ (EntryToken (Denotes MAX_DEPTH)) ts entries

/-- The first and the last top-level `info` entries carry the same value. -/
def InfoAgrees (data : Bytes) : Prop :=
  ∃ entries, TopLevel data entries ∧
    OrdMap.Raw.get? entries (ascii "info") = OrdMap.Raw.get? entries.reverse (ascii "info")

/-- The raw bytes parse to the `info` value that the parsed data holds. -/
def CommitsToInfo (data infoRaw : Bytes) : Prop :=
  ∃ root info, BVal.parse data = .ok root ∧ root.get (ascii "info") = some info ∧
    BVal.parse infoRaw = .ok info

theorem captureLoop_ok {data raw : Bytes} {n pos depth : Nat} {entries : Dict} {ts : List Bytes}
    (tokens : List.Forall₂ (EntryToken (Denotes depth)) ts entries)
    (here : At data pos (ts.flatten ++ [ch 'e'])) (captured : captureLoop data n pos = .ok raw) :
    ∃ info, OrdMap.Raw.get? entries (ascii "info") = some info ∧ Denotes depth raw info := by
  induction n generalizing pos ts entries with
  | zero => simp [captureLoop] at captured
  | succ n ih =>
    unfold captureLoop at captured
    cases tokens with
    | nil =>
      rw [List.flatten_nil, List.nil_append, at_cons] at here
      simp [here.1] at captured
    | @cons t e ts entries token tokens =>
      obtain ⟨key, item⟩ := e
      obtain ⟨kt, vt, rfl, keyToken, valueToken⟩ := token
      rw [List.flatten_cons, List.append_assoc, List.append_assoc, at_append, at_append] at here
      obtain ⟨c, tail, opening, digit⟩ := keyToken.opens
      have firstByte : data[pos]? = some c := by
        have start := here.1
        rw [opening, at_cons] at start
        exact start.1
      have keyRead := (string_reads data pos key (pos + kt.length)).mpr ⟨kt, keyToken, here.1, rfl⟩
      simp only [firstByte, if_neg (isDigit_ne digit (by decide : isDigit (ch 'e') = false)), keyRead] at captured
      obtain ⟨stop, skipped, rest⟩ := bind_eq_ok.mp captured
      have stopEq : stop = pos + kt.length + vt.length :=
        skipWithin_follows data depth _ _ _ vt item valueToken here.2.1 skipped
      by_cases isInfo : key = ascii "info"
      · rw [if_pos isInfo] at rest
        have whole : raw = vt := by
          have window := here.2.1.take_drop
          rw [stopEq, Nat.add_sub_cancel_left, window] at rest
          simpa using rest.symm
        refine ⟨item, ?_, whole ▸ valueToken⟩
        rw [OrdMap.Raw.get?_cons, if_pos isInfo]
      · rw [if_neg isInfo, stopEq] at rest
        obtain ⟨info, found, denotes⟩ := ih tokens here.2.2 rest
        refine ⟨info, ?_, denotes⟩
        rw [OrdMap.Raw.get?_cons, if_neg isInfo, found]

theorem at_tail {data : Bytes} {ts : List Bytes} (text : data = ch 'd' :: ts.flatten ++ [ch 'e']) :
    At data 1 (ts.flatten ++ [ch 'e']) := by
  have whole := at_whole data
  nth_rewrite 2 [text] at whole
  rw [List.cons_append, at_cons] at whole
  exact whole.2

theorem captureInfoRaw_ok {data raw : Bytes} {entries : Dict} (top : TopLevel data entries)
    (captured : captureInfoRaw data = .ok raw) :
    ∃ info, OrdMap.Raw.get? entries (ascii "info") = some info ∧ BVal.parse raw = .ok info := by
  obtain ⟨ts, text, tokens⟩ := top
  unfold captureInfoRaw at captured
  split_ifs at captured with notDict
  obtain ⟨info, found, denotes⟩ := captureLoop_ok tokens (at_tail text) captured
  exact ⟨info, found, (parse_ok_iff raw info).mpr (denotes.mono (by omega))⟩

theorem TopLevel.unique {data : Bytes} {entries others : Dict} (first : TopLevel data entries)
    (second : TopLevel data others) : entries = others := by
  obtain ⟨ts, text, tokens⟩ := first
  obtain ⟨us, other, otherTokens⟩ := second
  exact entryTokens_unique tokens otherTokens (at_tail text) (at_tail other)

theorem parse_dict_get {data : Bytes} {m entries : Dict} (parsed : BVal.parse data = .ok (.dict m))
    (top : TopLevel data entries) (key : Bytes) :
    (BVal.dict m).get key = OrdMap.Raw.get? entries.reverse key := by
  obtain ⟨ts, read, text, tokens, -, rfl⟩ := (parse_ok_iff data (.dict m)).mp parsed
  have same : read = entries := TopLevel.unique ⟨ts, text, tokens⟩ top
  rw [BVal.get, get?_insertAll, same]
  simp [OrdMap.Raw.get?]

/-- The stored raw bytes are the parsed `info` value exactly when the first and the last
top-level `info` entries agree. -/
theorem info_raw_commits_iff (digests : Digests) (data : Bytes) (t : Torrent)
    (accepted : Torrent.fromBytes digests data = .ok t) : CommitsToInfo data t.infoRaw ↔ InfoAgrees data := by
  obtain ⟨m, info, infoRaw, declared, payload, kind, parsed, -, captured, -, -, -, -, rfl⟩ :=
    fromBytes_ok accepted
  have topLevel : ∃ entries, TopLevel data entries := by
    obtain ⟨ts, entries, text, tokens, -⟩ := (parse_ok_iff data (.dict m)).mp parsed
    exact ⟨entries, ts, text, tokens⟩
  constructor
  · rintro ⟨root, other, rootParsed, rootInfo, rawParsed⟩
    rw [parsed] at rootParsed
    cases rootParsed
    obtain ⟨entries, top⟩ := topLevel
    obtain ⟨first, found, firstParsed⟩ := captureInfoRaw_ok top captured
    rw [Torrent.build, firstParsed] at rawParsed
    cases rawParsed
    exact ⟨entries, top, by rw [found, ← parse_dict_get parsed top, rootInfo]⟩
  · rintro ⟨entries, top, agree⟩
    obtain ⟨first, found, firstParsed⟩ := captureInfoRaw_ok top captured
    exact ⟨.dict m, first, parsed, by rw [parse_dict_get parsed top, ← agree, found], firstParsed⟩

def oneByteInfo : Bytes := ascii "d6:lengthi1e12:piece lengthi1e6:pieces20:aaaaaaaaaaaaaaaaaaaae"
def twoByteInfo : Bytes := ascii "d6:lengthi2e12:piece lengthi2e6:pieces20:bbbbbbbbbbbbbbbbbbbbe"

def singleInfo : Bytes := ascii "d4:info" ++ oneByteInfo ++ ascii "e"
def repeatedInfo : Bytes := ascii "d4:info" ++ oneByteInfo ++ ascii "4:info" ++ twoByteInfo ++ ascii "e"

def infoLength (v : BVal) : Option Int := v.asDict.bind (fun m => intAt m "length")

theorem info_raw_commits_single :
    ∃ t, Torrent.fromBytes zeroDigests singleInfo = .ok t ∧
      (CommitsToInfo singleInfo t.infoRaw ↔ InfoAgrees singleInfo) := by
  have accepted : (Torrent.fromBytes zeroDigests singleInfo).toOption.map Torrent.totalSize = some 1 := by
    decide
  obtain ⟨t, ok, -⟩ := map_toOption_eq_some.mp accepted
  exact ⟨t, ok, info_raw_commits_iff zeroDigests singleInfo t ok⟩

/-- With two different `info` entries the stored bytes are the first and the parsed value the last. -/
theorem info_raw_of_repeated : ¬ ∀ (digests : Digests) (data : Bytes) (t : Torrent),
    Torrent.fromBytes digests data = .ok t → CommitsToInfo data t.infoRaw := by
  intro always
  have accepted : (Torrent.fromBytes zeroDigests repeatedInfo).toOption.map Torrent.infoRaw = some oneByteInfo := by
    decide
  have last : (BVal.parse repeatedInfo).toOption.map (fun v => (v.get (ascii "info")).bind infoLength) =
      some (some 2) := by
    decide
  have first : (BVal.parse oneByteInfo).toOption.map infoLength = some (some 1) := by
    decide
  obtain ⟨t, ok, raw⟩ := map_toOption_eq_some.mp accepted
  obtain ⟨root, info, parsed, lookup, rawParsed⟩ := always zeroDigests repeatedInfo t ok
  rw [raw] at rawParsed
  rw [parsed] at last
  rw [rawParsed] at first
  simp [Except.toOption, lookup] at last first
  simp [last] at first

def wrapped (raw : Bytes) : Bytes := ascii "d4:info" ++ raw ++ [ch 'e']

theorem captureInfoRaw_wrapped {raw captured : Bytes} (ok : captureInfoRaw (wrapped raw) = .ok captured) :
    ∃ stop, Parser.skipValue (wrapped raw) 0 7 = .ok stop ∧ captured = ((wrapped raw).drop 7).take (stop - 7) := by
  have here : At (wrapped raw) 1 (ascii "4:info") := ⟨raw ++ [ch 'e'], rfl⟩
  have token : StrToken (ascii "4:info") (ascii "info") :=
    ⟨ascii "4", rfl, by decide, by decide, by decide, by decide, by decide⟩
  have key : Parser.string (wrapped raw) 1 = .ok (ascii "info", 7) :=
    (string_reads (wrapped raw) 1 (ascii "info") 7).mpr ⟨_, token, here, rfl⟩
  have opening : (wrapped raw).head? = some (ch 'd') := rfl
  have first : (wrapped raw)[1]? = some (ch '4') := rfl
  unfold captureInfoRaw at ok
  rw [if_neg (not_not.mpr opening), captureLoop, first] at ok
  dsimp only at ok
  rw [if_neg (by decide), key] at ok
  obtain ⟨stop, skipped, rest⟩ := bind_eq_ok.mp ok
  rw [if_pos rfl] at rest
  cases rest
  exact ⟨stop, skipped, rfl⟩

/-- What the metadata exchange should give: the stored bytes are those the peers delivered, and the infohash is
their hash. -/
structure SameMetadata (digests : Digests) (raw : Bytes) (t : Torrent) : Prop where
  stored : t.infoRaw = raw
  hash : t.infoHash = if t.kind = .v1 then InfoHash.v1 (digests.sha1 raw) else InfoHash.v2 (digests.sha256 raw)

/-- Metadata that is accepted is stored as it was delivered exactly when it is one whole bencode value: bytes after
that value are read as further entries of the wrapper. -/
theorem from_info_same_iff (digests : Digests) (raw : Bytes) (t : Torrent)
    (accepted : Torrent.fromInfo digests raw = .ok t) : SameMetadata digests raw t ↔ ∃ v, BVal.parse raw = .ok v := by
  obtain ⟨m, info, infoRaw, declared, payload, kind, parsed, -, captured, -, -, -, -, rfl⟩ :=
    fromBytes_ok accepted
  change captureInfoRaw (wrapped raw) = .ok infoRaw at captured
  constructor
  · intro same
    obtain ⟨ts, entries, text, tokens, -⟩ := (parse_ok_iff _ (.dict m)).mp parsed
    obtain ⟨first, -, firstParsed⟩ := captureInfoRaw_ok ⟨ts, text, tokens⟩ captured
    have whole : infoRaw = raw := same.stored
    rw [whole] at firstParsed
    exact ⟨first, firstParsed⟩
  · rintro ⟨v, whole⟩
    obtain ⟨stop, skipped, rfl⟩ := captureInfoRaw_wrapped captured
    have here : At (wrapped raw) 7 raw := at_middle (ascii "d4:info") raw [ch 'e']
    have ends : stop = 7 + raw.length :=
      skipWithin_follows (wrapped raw) _ _ 7 stop raw v ((parse_ok_iff raw v).mp whole) here skipped
    have delivered : ((wrapped raw).drop 7).take (stop - 7) = raw := by
      rw [ends, Nat.add_sub_cancel_left]
      exact here.take_drop
    have hash := congrArg (fun b => if kind = .v1 then InfoHash.v1 (digests.sha1 b) else InfoHash.v2 (digests.sha256 b))
      delivered
    exact ⟨delivered, hash⟩

theorem from_info_same_one_byte :
    ∃ t, Torrent.fromInfo zeroDigests oneByteInfo = .ok t ∧
      (SameMetadata zeroDigests oneByteInfo t ↔ ∃ v, BVal.parse oneByteInfo = .ok v) := by
  have accepted : (Torrent.fromInfo zeroDigests oneByteInfo).toOption.map Torrent.totalSize = some 1 := by
    decide
  obtain ⟨t, ok, -⟩ := map_toOption_eq_some.mp accepted
  exact ⟨t, ok, from_info_same_iff zeroDigests oneByteInfo t ok⟩

/-- Metadata with an entry after the `info` value is accepted and stored without it. -/
theorem from_info_drops_tail : ¬ ∀ (digests : Digests) (raw : Bytes) (t : Torrent),
    Torrent.fromInfo digests raw = .ok t → SameMetadata digests raw t := by
  intro always
  have accepted : (Torrent.fromInfo zeroDigests (oneByteInfo ++ ascii "1:ai0e")).toOption.map Torrent.infoRaw =
      some oneByteInfo := by
    decide
  obtain ⟨t, ok, stored⟩ := map_toOption_eq_some.mp accepted
  have whole := (always zeroDigests _ t ok).stored
  rw [stored] at whole
  exact absurd whole (by decide)

end TypeBit.Metainfo
