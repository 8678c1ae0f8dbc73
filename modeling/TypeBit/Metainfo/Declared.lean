import TypeBit.Bencode.Grammar
import TypeBit.Metainfo.Layout

/-! The files an `info` dictionary declares, against the files and sizes of the accepted torrent. -/

namespace TypeBit.Metainfo
open Bencode Option

/-! ### Declared files -/

structure DeclaredFile where
  path : List Bytes
  entry : Dict

mutual

/-- The files at or below a named node of a v2 file tree: the node itself when it has the empty key. -/
def declaredNode : BVal → List Bytes → List DeclaredFile
  | .dict d, path =>
      match OrdMap.Raw.get? d [] with
      | some fileMeta => [⟨path, fileMeta.asDict.getD []⟩]
      | none => declaredTree d path
  | .int _, _ => []
  | .bytes _, _ => []
  | .list _, _ => []

def declaredTree : Dict → List Bytes → List DeclaredFile
  | [], _ => []
  | (name, v) :: tail, parents => declaredNode v (parents ++ [name]) ++ declaredTree tail parents

end

def declaredPath (fd : Dict) : List Bytes :=
  ((((at? fd "path.utf-8").or (at? fd "path")).bind BVal.asList).getD []).map (fun c => c.asBytes.getD [])

def declaredItem (item : BVal) : DeclaredFile := ⟨declaredPath (item.asDict.getD []), item.asDict.getD []⟩

def declaredFiles (info : Dict) : List DeclaredFile :=
  if metaVersionOf info = 1 then
    match intAt info "length" with
    | some _ => [⟨[(((at? info "name.utf-8").or (at? info "name")).bind BVal.asBytes).getD []], info⟩]
    | none => ((listAt info "files").getD []).map declaredItem
  else declaredTree ((dictAt info "file tree").getD []) []

def declaredLengths (info : Dict) : List Int := (declaredFiles info).map (fun d => (intAt d.entry "length").getD 0)

/-- The file entry is made of the declared file: its path sanitized, its length as declared. -/
structure Describes (d : DeclaredFile) (f : FileEntry) : Prop where
  path : f.path = d.path.map sanitizeComponent
  length : intAt d.entry "length" = some (f.length : Int)

/-! ### What is read is what is declared -/

theorem pathComponents_ok {items : List BVal} {comps : List Bytes} (read : pathComponents items = .ok comps) :
    comps = (items.map (fun c => c.asBytes.getD [])).map sanitizeComponent := by
  induction items generalizing comps with
  | nil =>
    cases read
    rfl
  | cons c tail ih =>
    obtain ⟨b, isBytes, read⟩ := bind_eq_ok.mp read
    obtain ⟨rest, later, read⟩ := bind_eq_ok.mp read
    cases read
    rw [ih later, List.map_cons, List.map_cons, okOr_eq_ok.mp isBytes, getD_some]

theorem v1FileLoop_declared {items : List BVal} {out files : List FileEntry} (read : v1FileLoop items out = .ok files) :
    ∃ more, files = out ++ more ∧ (∀ f ∈ more, f.path ≠ []) ∧
      List.Forall₂ Describes (items.map declaredItem) more := by
  induction items generalizing out with
  | nil =>
    cases read
    exact ⟨[], (List.append_nil _).symm, by simp, .nil⟩
  | cons item tail ih =>
    obtain ⟨fd, isDict, read⟩ := bind_eq_ok.mp read
    obtain ⟨len, hasLength, read⟩ := bind_eq_ok.mp read
    obtain ⟨natural, read⟩ := guard_eq_ok.mp read
    obtain ⟨path, hasPath, read⟩ := bind_eq_ok.mp read
    obtain ⟨comps, components, read⟩ := bind_eq_ok.mp read
    obtain ⟨filled, read⟩ := guard_eq_ok.mp read
    obtain ⟨-, read⟩ := guard_eq_ok.mp read
    rw [okOr_eq_ok] at isDict hasLength hasPath
    obtain ⟨more, rfl, paths, described⟩ := ih read
    refine ⟨⟨comps, len.toNat, none⟩ :: more, by simp, ?_, ?_⟩
    · intro f member
      rcases List.mem_cons.mp member with rfl | later
      · exact filled
      · exact paths f later
    · rw [List.map_cons, declaredItem, isDict, getD_some]
      refine .cons ⟨?_, ?_⟩ described
      · rw [declaredPath, hasPath]
        exact pathComponents_ok components
      · rw [hasLength, Int.toNat_of_nonneg (by omega)]

theorem v2File_declared {path : List Bytes} {fileMeta : BVal} {f : FileEntry}
    (read : v2File (path.map sanitizeComponent) fileMeta = .ok f) :
    f.path = path.map sanitizeComponent ∧ Describes ⟨path, fileMeta.asDict.getD []⟩ f := by
  obtain ⟨m, isDict, read⟩ := bind_eq_ok.mp read
  obtain ⟨len, hasLength, read⟩ := bind_eq_ok.mp read
  obtain ⟨natural, read⟩ := guard_eq_ok.mp read
  cases read
  rw [okOr_eq_ok] at isDict hasLength
  refine ⟨rfl, rfl, ?_⟩
  rw [isDict, getD_some, hasLength, Int.toNat_of_nonneg (by omega)]

mutual

theorem parseV2Node_declared : ∀ (v : BVal) (name : Bytes) (parents : List Bytes) (out files : List FileEntry),
    parseV2Node v name (parents.map sanitizeComponent) out = .ok files →
    ∃ more, files = out ++ more ∧ (∀ f ∈ more, f.path ≠ []) ∧
      List.Forall₂ Describes (declaredNode v (parents ++ [name])) more
  | .dict d, name, parents, out, files, read => by
    have joined : parents.map sanitizeComponent ++ [sanitizeComponent name] =
        (parents ++ [name]).map sanitizeComponent := by
      rw [List.map_append, List.map_singleton]
    rw [parseV2Node, joined] at read
    rw [declaredNode]
    cases leaf : OrdMap.Raw.get? d [] with
    | some fileMeta =>
      rw [leaf] at read
      obtain ⟨f, made, read⟩ := bind_eq_ok.mp read
      cases read
      obtain ⟨path, described⟩ := v2File_declared made
      refine ⟨[f], rfl, ?_, .cons described .nil⟩
      intro g member
      rw [List.mem_singleton.mp member, path]
      simp
    | none =>
      rw [leaf] at read
      exact parseV2Tree_declared d (parents ++ [name]) out files read
  | .int i, name, parents, out, files, read => by
    rw [parseV2Node] at read
    cases read
  | .bytes b, name, parents, out, files, read => by
    rw [parseV2Node] at read
    cases read
  | .list l, name, parents, out, files, read => by
    rw [parseV2Node] at read
    cases read

theorem parseV2Tree_declared : ∀ (d : Dict) (parents : List Bytes) (out files : List FileEntry),
    parseV2Tree d (parents.map sanitizeComponent) out = .ok files →
    ∃ more, files = out ++ more ∧ (∀ f ∈ more, f.path ≠ []) ∧
      List.Forall₂ Describes (declaredTree d parents) more
  | [], parents, out, files, read => by
    rw [parseV2Tree] at read
    cases read
    rw [declaredTree]
    exact ⟨[], (List.append_nil _).symm, by simp, .nil⟩
  | (name, v) :: tail, parents, out, files, read => by
    rw [parseV2Tree] at read
    obtain ⟨mid, first, rest⟩ := bind_eq_ok.mp read
    obtain ⟨more, rfl, paths, described⟩ := parseV2Node_declared v name parents out mid first
    obtain ⟨others, rfl, otherPaths, otherDescribed⟩ := parseV2Tree_declared tail parents _ files rest
    rw [declaredTree]
    refine ⟨more ++ others, by simp, ?_, List.rel_append described otherDescribed⟩
    intro f member
    rcases List.mem_append.mp member with early | late
    · exact paths f early
    · exact otherPaths f late

end

variable {info : Dict} {files : List FileEntry}

theorem v1Files_declared (version : metaVersionOf info = 1) (read : v1Files info = .ok files) :
    (∀ f ∈ files, f.path ≠ []) ∧ List.Forall₂ Describes (declaredFiles info) files := by
  unfold v1Files at read
  rw [declaredFiles, if_pos version]
  cases single : intAt info "length" with
  | some len =>
    rw [single] at read
    obtain ⟨natural, read⟩ := guard_eq_ok.mp read
    cases read
    refine ⟨by simp, .cons ⟨rfl, ?_⟩ .nil⟩
    rw [single, Int.toNat_of_nonneg (by omega)]
  | none =>
    rw [single] at read
    obtain ⟨items, listed, loop⟩ := bind_eq_ok.mp read
    obtain ⟨more, rfl, paths, described⟩ := v1FileLoop_declared loop
    rw [okOr_eq_ok.mp listed]
    exact ⟨paths, described⟩

theorem v2Files_declared (version : metaVersionOf info ≠ 1) (read : v2Files info = .ok files) :
    (∀ f ∈ files, f.path ≠ []) ∧ List.Forall₂ Describes (declaredFiles info) files := by
  obtain ⟨tree, hasTree, read⟩ := bind_eq_ok.mp read
  obtain ⟨list, loop, read⟩ := bind_eq_ok.mp read
  obtain ⟨-, read⟩ := guard_eq_ok.mp read
  cases read
  obtain ⟨more, rfl, paths, described⟩ := parseV2Tree_declared tree [] [] files loop
  rw [declaredFiles, if_neg version, okOr_eq_ok.mp hasTree]
  exact ⟨paths, described⟩

theorem payloadOf_declared {root info : Dict} {pl : Nat} {payload : Payload} (paid : payloadOf root info pl = .ok payload) :
    (∀ f ∈ payload.files, f.path ≠ []) ∧ List.Forall₂ Describes (declaredFiles info) payload.files ∧
      payload.total = totalLength payload.files ∧ payload.total ≤ MAX_TOTAL_SIZE := by
  unfold payloadOf at paid
  split_ifs at paid with version
  · obtain ⟨files, listed, read⟩ := bind_eq_ok.mp paid
    obtain ⟨pieces, -, read⟩ := bind_eq_ok.mp read
    obtain ⟨-, read⟩ := guard_eq_ok.mp read
    obtain ⟨small, read⟩ := guard_eq_ok.mp read
    cases read
    obtain ⟨paths, described⟩ := v1Files_declared version listed
    exact ⟨paths, described, rfl, Nat.le_of_not_gt small⟩
  · obtain ⟨files, listed, read⟩ := bind_eq_ok.mp paid
    obtain ⟨small, read⟩ := guard_eq_ok.mp read
    obtain ⟨layers, -, read⟩ := bind_eq_ok.mp read
    obtain ⟨hashes, -, read⟩ := bind_eq_ok.mp read
    obtain ⟨paths, described⟩ := v2Files_declared version listed
    split at read
    · obtain ⟨-, read⟩ := guard_eq_ok.mp read
      cases read
      exact ⟨paths, described, rfl, Nat.le_of_not_gt small⟩
    · cases read
      exact ⟨paths, described, rfl, Nat.le_of_not_gt small⟩

/-! ### Paths -/

/-- A path component that stays in its directory. -/
structure SafeComponent (c : Bytes) : Prop where
  filled : c ≠ []
  here : c ≠ ascii "."
  parent : c ≠ ascii ".."
  plain : ∀ b ∈ c, b ≠ ch '/' ∧ b ≠ ch '\\' ∧ b ≠ ch ':'

set_option maxRecDepth 2000 in
theorem safe_sanitizeComponent (c : Bytes) : SafeComponent (sanitizeComponent c) := by
  unfold sanitizeComponent
  dsimp only
  split
  · exact ⟨by decide, by decide, by decide, by decide⟩
  next whole =>
    rw [not_or, not_or] at whole
    refine ⟨whole.1, whole.2.1, whole.2.2, ?_⟩
    intro b member
    obtain ⟨a, -, rfl⟩ := List.mem_map.mp member
    split
    · decide
    next clean =>
      rw [not_or, not_or] at clean
      exact clean

mutual

theorem prefix_declaredNode : ∀ (v : BVal) (path : List Bytes), ∀ file ∈ declaredNode v path, path <+: file.path
  | .dict d, path, file, member => by
    rw [declaredNode] at member
    cases leaf : OrdMap.Raw.get? d [] with
    | some fileMeta =>
      rw [leaf] at member
      obtain rfl := List.mem_singleton.mp member
      exact List.prefix_rfl
    | none =>
      rw [leaf] at member
      obtain ⟨e, -, extends_⟩ := prefix_declaredTree d path file member
      exact (List.prefix_append path [e.1]).trans extends_
  | .int i, path, file, member => by
    rw [declaredNode] at member
    cases member
  | .bytes b, path, file, member => by
    rw [declaredNode] at member
    cases member
  | .list l, path, file, member => by
    rw [declaredNode] at member
    cases member

theorem prefix_declaredTree : ∀ (d : Dict) (parents : List Bytes), ∀ file ∈ declaredTree d parents,
    ∃ e ∈ d, parents ++ [e.1] <+: file.path
  | [], parents, file, member => by
    rw [declaredTree] at member
    cases member
  | (name, v) :: tail, parents, file, member => by
    rw [declaredTree] at member
    rcases List.mem_append.mp member with here | later
    · exact ⟨(name, v), List.mem_cons_self, prefix_declaredNode v _ file here⟩
    · obtain ⟨e, among, extends_⟩ := prefix_declaredTree tail parents file later
      exact ⟨e, List.mem_cons_of_mem _ among, extends_⟩

end

theorem lt_of_prefix {parents p q : List Bytes} {a b : Bytes} (less : a < b) (first : parents ++ [a] <+: p)
    (second : parents ++ [b] <+: q) : p < q := by
  obtain ⟨x, rfl⟩ := first
  obtain ⟨y, rfl⟩ := second
  rw [List.append_assoc, List.append_assoc]
  exact List.Lex.append_left _ (List.Lex.rel less) parents

mutual

theorem ordered_declaredNode : ∀ (v : BVal) (path : List Bytes), v.Valid →
    (declaredNode v path).Pairwise (fun a b => a.path < b.path)
  | .dict d, path, valid => by
    rw [declaredNode]
    cases OrdMap.Raw.get? d [] with
    | some fileMeta => exact List.pairwise_singleton _ _
    | none => exact ordered_declaredTree d path valid.1 valid.2
  | .int i, path, valid => by
    rw [declaredNode]
    exact List.Pairwise.nil
  | .bytes b, path, valid => by
    rw [declaredNode]
    exact List.Pairwise.nil
  | .list l, path, valid => by
    rw [declaredNode]
    exact List.Pairwise.nil

theorem ordered_declaredTree : ∀ (d : Dict) (parents : List Bytes), OrdMap.Raw.Sorted d → ValidEntries d →
    (declaredTree d parents).Pairwise (fun a b => a.path < b.path)
  | [], parents, sorted, valid => by
    rw [declaredTree]
    exact List.Pairwise.nil
  | (name, v) :: tail, parents, sorted, valid => by
    obtain ⟨above, rest⟩ := List.pairwise_cons.mp sorted
    rw [declaredTree, List.pairwise_append]
    refine ⟨ordered_declaredNode v _ valid.1, ordered_declaredTree tail parents rest valid.2, ?_⟩
    intro a first b second
    obtain ⟨e, among, extends_⟩ := prefix_declaredTree tail parents b second
    exact lt_of_prefix (above e among) (prefix_declaredNode v _ a first) extends_

end

theorem valid_at? {m : Dict} {key : String} {v : BVal} (valid : ValidEntries m) (found : at? m key = some v) : v.Valid :=
  valid_of_mem_entries valid (OrdMap.Raw.mem_of_get? found)

theorem ordered_declaredFiles (valid : ValidEntries info) (version : metaVersionOf info ≠ 1) :
    (declaredFiles info).Pairwise (fun a b => a.path < b.path) := by
  rw [declaredFiles, if_neg version]
  cases hasTree : dictAt info "file tree" with
  | none =>
    rw [getD_none, declaredTree]
    exact List.Pairwise.nil
  | some tree =>
    obtain ⟨v, found, isDict⟩ := bind_eq_some_iff.mp hasTree
    rw [asDict_eq_some] at isDict
    subst isDict
    have treeValid := valid_at? valid found
    exact ordered_declaredTree tree [] treeValid.1 treeValid.2

theorem described_by {declared : List DeclaredFile}
    (described : List.Forall₂ Describes declared files) {f : FileEntry} (member : f ∈ files) :
    ∃ d ∈ declared, Describes d f := by
  induction described with
  | nil => cases member
  | cons made _ rest =>
    rcases List.mem_cons.mp member with rfl | later
    · exact ⟨_, List.mem_cons_self, made⟩
    · obtain ⟨d, among, describes⟩ := rest later
      exact ⟨d, List.mem_cons_of_mem _ among, describes⟩

/-- Of every accepted torrent: one file for each declared one, in the order of declaration, which for v2 is that of
the paths, with its declared length; every path has a component, and every component is safe. -/
theorem files_as_declared (digests : Digests) (data : Bytes) (t : Torrent) (root info : Dict)
    (accepted : Torrent.fromBytes digests data = .ok t) (parsed : BVal.parse data = .ok (.dict root))
    (described : at? root "info" = some (.dict info)) :
    (∀ f ∈ t.files, f.path ≠ [] ∧ ∀ c ∈ f.path, SafeComponent c) ∧
      List.Forall₂ Describes (declaredFiles info) t.files ∧
      (metaVersionOf info ≠ 1 → (declaredFiles info).Pairwise (fun a b => a.path < b.path)) := by
  obtain ⟨otherRoot, otherInfo, infoRaw, declared, payload, kind, otherParsed, otherDescribed, -, -, -, paid, -, rfl⟩ :=
    fromBytes_ok accepted
  rw [parsed] at otherParsed
  cases otherParsed
  rw [described] at otherDescribed
  cases otherDescribed
  obtain ⟨paths, files, -, -⟩ := payloadOf_declared paid
  refine ⟨?_, files, ?_⟩
  · intro f member
    refine ⟨paths f member, ?_⟩
    intro c among
    obtain ⟨d, -, made⟩ := described_by files member
    rw [made.path] at among
    obtain ⟨raw, -, rfl⟩ := List.mem_map.mp among
    exact safe_sanitizeComponent raw
  · exact ordered_declaredFiles (valid_at? (parse_valid parsed).2 described).2

/-- A v2 torrent with a directory of two empty files, one of them named to climb out. -/
def climbingTree : Bytes :=
  ascii "d4:infod9:file treed1:ad2:..d0:d6:lengthi0eee1:bd0:d6:lengthi0eeeee12:meta versioni2e12:piece lengthi16384eee"

theorem climbing_paths :
    (Torrent.fromBytes zeroDigests climbingTree).toOption.map (fun t => t.files.map FileEntry.path) =
      some [[ascii "a", ascii "_"], [ascii "a", ascii "b"]] := by
  decide +kernel

theorem files_as_declared_climbing :
    ∃ t, Torrent.fromBytes zeroDigests climbingTree = .ok t ∧
      t.files.map FileEntry.path = [[ascii "a", ascii "_"], [ascii "a", ascii "b"]] ∧
      ∀ f ∈ t.files, f.path ≠ [] ∧ ∀ c ∈ f.path, SafeComponent c := by
  obtain ⟨t, ok, paths⟩ := map_toOption_eq_some.mp climbing_paths
  obtain ⟨root, info, -, -, -, -, parsed, described, -⟩ := fromBytes_ok ok
  exact ⟨t, ok, paths, (files_as_declared zeroDigests climbingTree t root info ok parsed described).1⟩

/-! ### Sizes -/

mutual

theorem valid_declaredNode : ∀ (v : BVal) (path : List Bytes), v.Valid → ∀ d ∈ declaredNode v path, ValidEntries d.entry
  | .dict m, path, valid, file, member => by
    rw [declaredNode] at member
    cases leaf : OrdMap.Raw.get? m [] with
    | some fileMeta =>
      rw [leaf] at member
      rw [List.mem_singleton.mp member]
      have inner := valid_of_mem_entries valid.2 (OrdMap.Raw.mem_of_get? leaf)
      cases fileMeta with
      | dict d => exact inner.2
      | int i => exact trivial
      | bytes b => exact trivial
      | list l => exact trivial
    | none =>
      rw [leaf] at member
      exact valid_declaredTree m path valid.2 file member
  | .int i, path, valid, file, member => by
    rw [declaredNode] at member
    cases member
  | .bytes b, path, valid, file, member => by
    rw [declaredNode] at member
    cases member
  | .list l, path, valid, file, member => by
    rw [declaredNode] at member
    cases member

theorem valid_declaredTree : ∀ (m : Dict) (parents : List Bytes), ValidEntries m →
    ∀ d ∈ declaredTree m parents, ValidEntries d.entry
  | [], parents, valid, file, member => by
    rw [declaredTree] at member
    cases member
  | (name, v) :: tail, parents, valid, file, member => by
    rw [declaredTree] at member
    rcases List.mem_append.mp member with here | later
    · exact valid_declaredNode v _ valid.1 file here
    · exact valid_declaredTree tail parents valid.2 file later

end

theorem length_lt_of_v2 (valid : ValidEntries info)
    (version : metaVersionOf info ≠ 1) (described : List.Forall₂ Describes (declaredFiles info) files) :
    ∀ f ∈ files, f.length < 2 ^ 63 := by
  intro f member
  obtain ⟨d, among, made⟩ := described_by described member
  have entry : ValidEntries d.entry := by
    rw [declaredFiles, if_neg version] at among
    cases hasTree : dictAt info "file tree" with
    | none =>
      rw [hasTree, getD_none, declaredTree] at among
      cases among
    | some tree =>
      obtain ⟨v, found, isDict⟩ := bind_eq_some_iff.mp hasTree
      rw [asDict_eq_some] at isDict
      subst isDict
      rw [hasTree] at among
      exact valid_declaredTree tree [] (valid_at? valid found).2 d among
  obtain ⟨v, found, isInt⟩ := bind_eq_some_iff.mp made.length
  cases v with
  | int i =>
    cases isInt
    have range := (valid_at? entry found).2
    omega
  | bytes b => cases isInt
  | list l => cases isInt
  | dict m => cases isInt

/-- What the sizes of a torrent should be: the declared lengths are natural numbers, the total is their sum and within
the cap, and the piece length is the declared one, positive and below `2^32`. -/
structure ExactSizes (info : Dict) (t : Torrent) : Prop where
  natural : ∀ n ∈ declaredLengths info, 0 ≤ n
  total : (t.totalSize : Int) = (declaredLengths info).sum
  capped : t.totalSize ≤ MAX_TOTAL_SIZE
  pieceLength : intAt info "piece length" = some (t.pieceLength : Int)
  positive : 0 < t.pieceLength
  narrow : t.pieceLength < 2 ^ 32

theorem declaredLengths_eq {declared : List DeclaredFile} (described : List.Forall₂ Describes declared files) :
    declared.map (fun d => (intAt d.entry "length").getD 0) = (lengths files).map (fun n : Nat => (n : Int)) := by
  induction described with
  | nil => rfl
  | cons made _ rest =>
    rw [List.map_cons, made.length, rest, lengths_cons, List.map_cons]
    rfl

theorem sum_map_cast (l : List Nat) : (l.map (fun n : Nat => (n : Int))).sum = (l.sum : Int) := by
  induction l with
  | nil => rfl
  | cons n tail ih =>
    rw [List.map_cons, List.sum_cons, List.sum_cons, ih]
    rfl

theorem asU32_eq_iff (declared : Int) : (asU32 declared : Int) = declared ↔ 0 ≤ declared ∧ declared < 2 ^ 32 := by
  unfold asU32
  omega

/-- The sizes of an accepted torrent are exact just when the declared lengths sum to less than `2^64` and the declared
piece length is positive and below `2^32`. -/
theorem sizes_exact_iff (digests : Digests) (data : Bytes) (t : Torrent) (root info : Dict) (declared : Int)
    (accepted : Torrent.fromBytes digests data = .ok t) (parsed : BVal.parse data = .ok (.dict root))
    (described : at? root "info" = some (.dict info)) (sized : intAt info "piece length" = some declared) :
    ExactSizes info t ↔ (declaredLengths info).sum < 2 ^ 64 ∧ 0 < declared ∧ declared < 2 ^ 32 := by
  obtain ⟨otherRoot, otherInfo, infoRaw, other, payload, kind, otherParsed, otherDescribed, -, otherSized, nonzero, paid,
    -, rfl⟩ := fromBytes_ok accepted
  rw [parsed] at otherParsed
  cases otherParsed
  rw [described] at otherDescribed
  cases otherDescribed
  rw [sized] at otherSized
  cases otherSized
  obtain ⟨-, files, total, capped⟩ := payloadOf_declared paid
  have same : declaredLengths info = (lengths payload.files).map (fun n : Nat => (n : Int)) := declaredLengths_eq files
  have sum : (declaredLengths info).sum = ((lengths payload.files).sum : Int) := by
    rw [same, sum_map_cast]
  have wrapped : payload.total = (lengths payload.files).sum % 2 ^ 64 := by
    rw [total, totalLength, foldl_wadd _ (by decide), Nat.zero_add]
  have cap : MAX_TOTAL_SIZE < 2 ^ 64 := by decide
  constructor
  · intro exact
    have whole : (payload.total : Int) = (declaredLengths info).sum := exact.total
    have length : some declared = some (asU32 declared : Int) := sized.symm.trans exact.pieceLength
    have range := (asU32_eq_iff declared).mp (some.inj length).symm
    have positive : 0 < asU32 declared := exact.positive
    have read := some.inj length
    omega
  · rintro ⟨small, positive, narrow⟩
    have length := (asU32_eq_iff declared).mpr ⟨by omega, narrow⟩
    refine ⟨?_, ?_, capped, ?_, ?_, ?_⟩
    · intro n member
      rw [same] at member
      obtain ⟨m, -, rfl⟩ := List.mem_map.mp member
      exact Int.natCast_nonneg m
    · change (payload.total : Int) = _
      omega
    · exact sized.trans (congrArg some length.symm)
    · change 0 < asU32 declared
      omega
    · exact asU32_lt declared

def twoSizes : Bytes :=
  ascii "d4:infod5:filesld6:lengthi3e4:pathl1:aeed6:lengthi5e4:pathl1:beee12:piece lengthi16384e6:pieces20:" ++
    List.replicate 20 7 ++ ascii "ee"

/-- The declared lengths and the declared piece length. -/
def sizesOf : BVal → Option (List Int × Option Int)
  | .dict root =>
      match at? root "info" with
      | some (.dict info) => some (declaredLengths info, intAt info "piece length")
      | _ => none
  | _ => none

theorem sizes_exact_two :
    ∃ t root info, Torrent.fromBytes zeroDigests twoSizes = .ok t ∧ BVal.parse twoSizes = .ok (.dict root) ∧
      at? root "info" = some (.dict info) ∧ declaredLengths info = [3, 5] ∧ t.totalSize = 8 ∧ ExactSizes info t := by
  have facts : (Torrent.fromBytes zeroDigests twoSizes).toOption.map Torrent.totalSize = some 8 ∧
      (BVal.parse twoSizes).toOption.bind sizesOf = some ([3, 5], some 16384) := by decide +kernel
  obtain ⟨t, accepted, total⟩ := map_toOption_eq_some.mp facts.1
  obtain ⟨root, info, -, declared, -, -, parsed, described, -, sized, -⟩ := fromBytes_ok accepted
  have read : sizesOf (.dict root) = some ([3, 5], some 16384) := by
    rw [← facts.2, parsed]
    rfl
  simp only [sizesOf, described, sized, some.injEq, Prod.mk.injEq] at read
  obtain ⟨lengths, rfl⟩ := read
  have sizes := sizes_exact_iff zeroDigests twoSizes t root info _ accepted parsed described sized
  exact ⟨t, root, info, accepted, parsed, described, lengths, total, sizes.mpr (by rw [lengths]; decide)⟩

def wrappingSizes : Bytes :=
  ascii "d4:infod5:filesld6:lengthi9223372036854775807e4:pathl1:aeed6:lengthi9223372036854775807e4:pathl1:bee" ++
    ascii "d6:lengthi3e4:pathl1:ceee12:piece lengthi-1e6:pieces0:ee"

/-- They are accepted with a total of one byte and a piece length of `2^32 - 1`. -/
theorem sizes_wrap : ¬ ∀ (digests : Digests) (data : Bytes) (t : Torrent) (root info : Dict),
    Torrent.fromBytes digests data = .ok t → BVal.parse data = .ok (.dict root) →
      at? root "info" = some (.dict info) → ExactSizes info t := by
  intro always
  have accepted : (Torrent.fromBytes zeroDigests wrappingSizes).toOption.map
      (fun t => (t.totalSize, t.pieceLength, t.files.map FileEntry.length)) =
      some (1, 2 ^ 32 - 1, [2 ^ 63 - 1, 2 ^ 63 - 1, 3]) := by
    decide +kernel
  obtain ⟨t, ok, sizes⟩ := map_toOption_eq_some.mp accepted
  simp only [Prod.mk.injEq] at sizes
  obtain ⟨root, info, infoRaw, declared, payload, kind, parsed, described, -, -, -, paid, -, rfl⟩ := fromBytes_ok ok
  have exact := (always zeroDigests wrappingSizes _ root info ok parsed described).total
  have same : declaredLengths info = _ := declaredLengths_eq (payloadOf_declared paid).2.1
  have files : lengths payload.files = [2 ^ 63 - 1, 2 ^ 63 - 1, 3] := sizes.2.2
  rw [sizes.1, same, files] at exact
  exact absurd exact (by decide)

end TypeBit.Metainfo
