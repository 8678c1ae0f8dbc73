import TypeBit.Metainfo.FromBytes

/-! What acceptance by `Torrent::from_bytes` says: one inversion lemma for the whole function,
one for each branch, and the size bounds every accepted torrent keeps. -/

namespace TypeBit.Metainfo
open Bencode

theorem asDict_eq_some {v : BVal} {m : Dict} : v.asDict = some m ↔ v = .dict m := by
  cases v <;> simp [BVal.asDict]

theorem fromBytes_ok {digests : Digests} {data : Bytes} {t : Torrent}
    (accepted : Torrent.fromBytes digests data = .ok t) :
    ∃ root info infoRaw declared payload kind, BVal.parse data = .ok (.dict root) ∧
      at? root "info" = some (.dict info) ∧ captureInfoRaw data = .ok infoRaw ∧
      intAt info "piece length" = some declared ∧ asU32 declared ≠ 0 ∧
      payloadOf root info (asU32 declared) = .ok payload ∧
      torrentKind (metaVersionOf info) payload.v1Hashes.isSome = .ok kind ∧
      t = Torrent.build digests root info infoRaw (asU32 declared) payload kind := by
  obtain ⟨v, parsed, rest⟩ := bind_eq_ok.mp accepted
  obtain ⟨root, isDict, rest⟩ := bind_eq_ok.mp rest
  obtain ⟨w, hasInfo, rest⟩ := bind_eq_ok.mp rest
  obtain ⟨-, -, rest⟩ := bind_eq_ok.mp rest
  obtain ⟨infoRaw, captured, rest⟩ := bind_eq_ok.mp rest
  obtain ⟨info, infoDict, rest⟩ := bind_eq_ok.mp rest
  obtain ⟨declared, hasLength, rest⟩ := bind_eq_ok.mp rest
  rw [okOr_eq_ok] at isDict hasInfo infoDict hasLength
  rw [asDict_eq_some] at isDict infoDict
  split_ifs at rest with zero badLength
  obtain ⟨payload, paid, rest⟩ := bind_eq_ok.mp rest
  obtain ⟨kind, sort, built⟩ := bind_eq_ok.mp rest
  cases built
  exact ⟨root, info, infoRaw, declared, payload, kind, isDict ▸ parsed, infoDict ▸ hasInfo, captured,
    hasLength, zero, paid, sort, rfl⟩

structure Shaped (t : Torrent) : Prop where
  positive : 0 < t.pieceLength
  narrow : t.pieceLength < 2 ^ 32
  few : t.files.length ≤ MAX_FILES
  total : t.totalSize = totalLength t.files

theorem v1FileLoop_few {items : List BVal} {out files : List FileEntry} (room : out.length ≤ MAX_FILES)
    (read : v1FileLoop items out = .ok files) : files.length ≤ MAX_FILES := by
  induction items generalizing out with
  | nil =>
    cases read
    exact room
  | cons item tail ih =>
    obtain ⟨fd, -, read⟩ := bind_eq_ok.mp read
    obtain ⟨len, -, read⟩ := bind_eq_ok.mp read
    obtain ⟨-, read⟩ := guard_eq_ok.mp read
    obtain ⟨path, -, read⟩ := bind_eq_ok.mp read
    obtain ⟨comps, -, read⟩ := bind_eq_ok.mp read
    obtain ⟨-, read⟩ := guard_eq_ok.mp read
    obtain ⟨full, read⟩ := guard_eq_ok.mp read
    apply ih _ read
    rw [List.length_append, List.length_singleton]
    omega

theorem v1Files_few {info : Dict} {files : List FileEntry} (read : v1Files info = .ok files) :
    files.length ≤ MAX_FILES := by
  unfold v1Files at read
  split at read
  · obtain ⟨-, read⟩ := guard_eq_ok.mp read
    cases read
    simp [MAX_FILES]
  · obtain ⟨list, -, loop⟩ := bind_eq_ok.mp read
    exact v1FileLoop_few (by simp) loop

theorem v2Files_few {info : Dict} {files : List FileEntry} (read : v2Files info = .ok files) :
    files.length ≤ MAX_FILES := by
  obtain ⟨tree, -, read⟩ := bind_eq_ok.mp read
  obtain ⟨list, -, read⟩ := bind_eq_ok.mp read
  obtain ⟨many, read⟩ := guard_eq_ok.mp read
  cases read
  omega

theorem v1Payload_ok {info : Dict} {payload : Payload} (read : v1Payload info = .ok payload) :
    ∃ files pieces, v1Files info = .ok files ∧ bytesAt info "pieces" = some pieces ∧
      pieces.length / 20 ≤ MAX_PIECES ∧
      payload = ⟨files, some (chunks 20 pieces), none, [], totalLength files⟩ := by
  obtain ⟨files, listed, read⟩ := bind_eq_ok.mp read
  obtain ⟨pieces, hashed, read⟩ := bind_eq_ok.mp read
  obtain ⟨uneven, read⟩ := guard_eq_ok.mp read
  obtain ⟨-, read⟩ := guard_eq_ok.mp read
  cases read
  rw [not_or] at uneven
  exact ⟨files, pieces, listed, okOr_eq_ok.mp hashed, by omega, rfl⟩

theorem v2Payload_ok {root info : Dict} {pl : Nat} {payload : Payload}
    (read : v2Payload root info pl = .ok payload) :
    ∃ files layers hashes v1Hashes, v2Files info = .ok files ∧
      buildV2PieceHashes pl layers files [] = .ok hashes ∧
      payload = ⟨files, v1Hashes, some hashes, layers, totalLength files⟩ := by
  obtain ⟨files, listed, read⟩ := bind_eq_ok.mp read
  obtain ⟨-, read⟩ := guard_eq_ok.mp read
  obtain ⟨layers, -, read⟩ := bind_eq_ok.mp read
  obtain ⟨hashes, built, read⟩ := bind_eq_ok.mp read
  split at read
  · obtain ⟨-, read⟩ := guard_eq_ok.mp read
    cases read
    exact ⟨files, layers, hashes, _, listed, built, rfl⟩
  · cases read
    exact ⟨files, layers, hashes, _, listed, built, rfl⟩

theorem fromBytes_shaped {digests : Digests} {data : Bytes} {t : Torrent}
    (accepted : Torrent.fromBytes digests data = .ok t) : Shaped t := by
  obtain ⟨root, info, infoRaw, declared, payload, kind, -, -, -, -, positive, paid, -, rfl⟩ :=
    fromBytes_ok accepted
  have sizes : payload.files.length ≤ MAX_FILES ∧ payload.total = totalLength payload.files := by
    unfold payloadOf at paid
    split_ifs at paid
    · obtain ⟨files, pieces, listed, -, -, rfl⟩ := v1Payload_ok paid
      exact ⟨v1Files_few listed, rfl⟩
    · obtain ⟨files, layers, hashes, v1Hashes, listed, -, rfl⟩ := v2Payload_ok paid
      exact ⟨v2Files_few listed, rfl⟩
  exact ⟨Nat.pos_of_ne_zero positive, asU32_lt declared, sizes.1, sizes.2⟩

def zeroDigests : Digests := ⟨fun _ => List.replicate 20 0, fun _ => List.replicate 32 0⟩

end TypeBit.Metainfo
