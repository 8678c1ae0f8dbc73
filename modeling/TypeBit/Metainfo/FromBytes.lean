import TypeBit.Bencode.Parser
import TypeBit.Metainfo.Torrent

/-! `Torrent::from_bytes` and `Torrent::from_info`: the acceptance checks of every kind of
torrent, in the order the source makes them. -/

namespace TypeBit.Metainfo
open Bencode

abbrev Dict := List (Bytes × BVal)

def at? (m : Dict) (key : String) : Option BVal := OrdMap.Raw.get? m (ascii key)
def intAt (m : Dict) (key : String) : Option Int := (at? m key).bind BVal.asInt
def bytesAt (m : Dict) (key : String) : Option Bytes := (at? m key).bind BVal.asBytes
def listAt (m : Dict) (key : String) : Option (List BVal) := (at? m key).bind BVal.asList
def dictAt (m : Dict) (key : String) : Option Dict := (at? m key).bind BVal.asDict

/-- The complete `n`-byte groups of a byte string, the source's `as_chunks::<n>().0`. -/
def chunks (n : Nat) (b : Bytes) : List Bytes :=
  (List.range (b.length / n)).map (fun i => (b.drop (i * n)).take n)

def sanitizeComponent (c : Bytes) : Bytes :=
  let out := c.map (fun b => if b = ch '/' ∨ b = ch '\\' ∨ b = ch ':' then ch '_' else b)
  if out = [] ∨ out = ascii "." ∨ out = ascii ".." then ascii "_" else out

def captureLoop (data : Bytes) : Nat → Nat → Result Bytes
  | 0, _ => .error .metaInfo
  | n + 1, pos =>
      match data[pos]? with
      | none => .error .metaInfo
      | some c =>
          if c = ch 'e' then .error .metaInfo
          else match Parser.string data pos with
            | .error _ => .error .metaInfo
            | .ok (key, start) => do
                let stop ← Parser.skipValue data 0 start
                if key = ascii "info" then .ok ((data.drop start).take (stop - start))
                else captureLoop data n stop

def captureInfoRaw (data : Bytes) : Result Bytes :=
  if data.head? ≠ some (ch 'd') then .error .metaInfo
  else captureLoop data (data.length + 1) 1

def pathComponents : List BVal → Result (List Bytes)
  | [] => .ok []
  | c :: tail => do
      let b ← okOr c.asBytes .metaInfo
      let rest ← pathComponents tail
      .ok (sanitizeComponent b :: rest)

def v1FileLoop : List BVal → List FileEntry → Result (List FileEntry)
  | [], out => .ok out
  | f :: tail, out => do
      let fd ← okOr f.asDict .metaInfo
      let len ← okOr (intAt fd "length") .metaInfo
      if len < 0 then .error .metaInfo
      else do
        let path ← okOr (((at? fd "path.utf-8").or (at? fd "path")).bind BVal.asList) .metaInfo
        let comps ← pathComponents path
        if comps = [] then .error .metaInfo
        else if out.length ≥ MAX_FILES then .error .tooLarge
        else v1FileLoop tail (out ++ [⟨comps, len.toNat, none⟩])

def v1Files (info : Dict) : Result (List FileEntry) :=
  match intAt info "length" with
  | some len =>
      if len < 0 then .error .metaInfo
      else
        let name := (((at? info "name.utf-8").or (at? info "name")).bind BVal.asBytes).getD []
        .ok [⟨[sanitizeComponent name], len.toNat, none⟩]
  | none => do
      let list ← okOr (listAt info "files") .metaInfo
      v1FileLoop list []

def v2File (path : List Bytes) (fileMeta : BVal) : Result FileEntry := do
  let m ← okOr fileMeta.asDict .metaInfo
  let len ← okOr (intAt m "length") .metaInfo
  if len < 0 then .error .metaInfo
  else .ok ⟨path, len.toNat, (bytesAt m "pieces root").filter (fun r => r.length == 32)⟩

mutual

def parseV2Node : BVal → Bytes → List Bytes → List FileEntry → Result (List FileEntry)
  | .dict d, name, parents, out =>
      match OrdMap.Raw.get? d [] with
      | some fileMeta => do
          let f ← v2File (parents ++ [sanitizeComponent name]) fileMeta
          .ok (out ++ [f])
      | none => parseV2Tree d (parents ++ [sanitizeComponent name]) out
  | .int _, _, _, _ => .error .metaInfo
  | .bytes _, _, _, _ => .error .metaInfo
  | .list _, _, _, _ => .error .metaInfo

def parseV2Tree : Dict → List Bytes → List FileEntry → Result (List FileEntry)
  | [], _, out => .ok out
  | (name, v) :: tail, parents, out => do
      let out ← parseV2Node v name parents out
      parseV2Tree tail parents out

end

def v2Files (info : Dict) : Result (List FileEntry) := do
  let tree ← okOr (dictAt info "file tree") .metaInfo
  let files ← parseV2Tree tree [] []
  if files.length > MAX_FILES then .error .tooLarge else .ok files

def totalLength (files : List FileEntry) : Nat := files.foldl (fun n f => wadd n f.length) 0

def layerLoop : Dict → Result (List (InfoHash × List Bytes))
  | [] => .ok []
  | (root, hashes) :: tail =>
      if root.length ≠ 32 then .error .metaInfo
      else do
        let hb ← okOr hashes.asBytes .metaInfo
        if hb.length % 32 ≠ 0 ∨ hb.length / 32 > MAX_PIECES then .error .metaInfo
        else do
          let rest ← layerLoop tail
          .ok ((InfoHash.v2 root, chunks 32 hb) :: rest)

def buildV2PieceHashes (pl : Nat) (layers : List (InfoHash × List Bytes)) :
    List FileEntry → List Bytes → Result (List Bytes)
  | [], out => .ok out
  | f :: tail, out =>
      if f.length = 0 then buildV2PieceHashes pl layers tail out
      else match f.root with
        | none => buildV2PieceHashes pl layers tail out
        | some root =>
            match layers.find? (fun l => decide (l.1.asBytes = root)) with
            | none => .error .metaInfo
            | some (_, hashes) =>
                if hashes.length ≠ divCeil f.length pl then .error .metaInfo
                else buildV2PieceHashes pl layers tail (out ++ hashes)

/-- What the two branches of the source compute: files, hashes, layers and size. -/
structure Payload where
  files : List FileEntry
  v1Hashes : Option (List Bytes)
  v2Hashes : Option (List Bytes)
  pieceLayers : List (InfoHash × List Bytes)
  total : Nat

def v1Payload (info : Dict) : Result Payload := do
  let files ← v1Files info
  let pieces ← okOr (bytesAt info "pieces") .metaInfo
  if pieces.length % 20 ≠ 0 ∨ pieces.length / 20 > MAX_PIECES then .error .metaInfo
  else if totalLength files > MAX_TOTAL_SIZE then .error .tooLarge
  else .ok ⟨files, some (chunks 20 pieces), none, [], totalLength files⟩

def v2Payload (root info : Dict) (pl : Nat) : Result Payload := do
  let files ← v2Files info
  if totalLength files > MAX_TOTAL_SIZE then .error .tooLarge
  else do
    let layers ← layerLoop ((dictAt root "piece layers").getD [])
    let hashes ← buildV2PieceHashes pl layers files []
    match bytesAt info "pieces" with
    | some pieces =>
        if pieces.length % 20 ≠ 0 then .error .metaInfo
        else .ok ⟨files, some (chunks 20 pieces), some hashes, layers, totalLength files⟩
    | none => .ok ⟨files, none, some hashes, layers, totalLength files⟩

def torrentKind (metaVersion : Int) (hasV1 : Bool) : Result TorrentKind :=
  if metaVersion = 1 then .ok .v1
  else if metaVersion = 2 then .ok (if hasV1 then .hybrid else .v2)
  else .error .metaInfo

def v2PieceLength (pl : Nat) : Bool := (List.range' 14 13).any (fun k => decide (pl = 2 ^ k))

def byteStrings (items : List BVal) : List Bytes := items.filterMap BVal.asBytes

def announceTiers (tiers : List BVal) : List (List Bytes) :=
  (tiers.filterMap BVal.asList).map byteStrings |>.filter (fun t => !t.isEmpty)

def webSeedsOf (root : Dict) : List Bytes :=
  match listAt root "url-list" with
  | some urls => byteStrings urls
  | none => byteStrings ((listAt root "httpseeds").getD [])

def metaVersionOf (info : Dict) : Int := (intAt info "meta version").getD 1

def payloadOf (root info : Dict) (pl : Nat) : Result Payload :=
  if metaVersionOf info = 1 then v1Payload info else v2Payload root info pl

namespace Torrent

def build (digests : Digests) (root info : Dict) (infoRaw : Bytes) (pieceLength : Nat) (payload : Payload)
    (kind : TorrentKind) : Torrent where
  name := (bytesAt info "name").getD []
  pieceLength := pieceLength
  totalSize := payload.total
  files := payload.files
  kind := kind
  infoHash := if kind = .v1 then InfoHash.v1 (digests.sha1 infoRaw) else InfoHash.v2 (digests.sha256 infoRaw)
  v1Hashes := payload.v1Hashes
  v2Hashes := payload.v2Hashes
  announce := bytesAt root "announce"
  announceList := announceTiers ((listAt root "announce-list").getD [])
  webSeeds := webSeedsOf root
  isPrivate := decide ((intAt info "private").getD 0 ≠ 0)
  pieceLayers := payload.pieceLayers
  infoRaw := infoRaw
  comment := bytesAt root "comment"
  createdBy := bytesAt root "created by"
  creationDate := intAt root "creation date"

def fromBytes (digests : Digests) (data : Bytes) : Result Torrent := do
  let root ← BVal.parse data
  let dict ← okOr root.asDict .metaInfo
  let info ← okOr (at? dict "info") .metaInfo
  let _ ← Parser.value data 0 0
  let infoRaw ← captureInfoRaw data
  let infoDict ← okOr info.asDict .metaInfo
  let declared ← okOr (intAt infoDict "piece length") .metaInfo
  if asU32 declared = 0 then .error .metaInfo
  else if metaVersionOf infoDict = 2 ∧ v2PieceLength (asU32 declared) = false then .error .metaInfo
  else do
    let payload ← payloadOf dict infoDict (asU32 declared)
    let kind ← torrentKind (metaVersionOf infoDict) payload.v1Hashes.isSome
    .ok (build digests dict infoDict infoRaw (asU32 declared) payload kind)

def fromInfo (digests : Digests) (infoRaw : Bytes) : Result Torrent :=
  fromBytes digests (ascii "d4:info" ++ infoRaw ++ [ch 'e'])

end Torrent

end TypeBit.Metainfo
