import TypeBit.Lib.Radix
import TypeBit.Receipts.Book

/-! Receipts for downloads (`receipt.rs`): challenges, the message that is signed, signing and both ways of verifying,
and receipts built from a book. The hash and the signature scheme are parameters. -/

namespace TypeBit.Receipts
open Ranges ReceiptBook LittleEndian

structure Primitives where
  sha256 : Bytes → ByteArr 32
  publicKey : ByteArr 32 → ByteArr 32
  sign : ByteArr 32 → Bytes → ByteArr 64
  verify : ByteArr 32 → Bytes → ByteArr 64 → Bool

/-- What is signed with a key verifies with its public key. -/
def Primitives.Correct (c : Primitives) : Prop := ∀ key msg, c.verify (c.publicKey key) msg (c.sign key msg) = true

def toBeBytes (width n : Nat) : ByteArr width :=
  ⟨(write width n).reverse, by rw [List.length_reverse, length_write]⟩

def be64 (n : UInt64) : Bytes := (toBeBytes 8 n.toNat).val

def RECEIPT_VERSION : UInt8 := 1
def MIN_COVERAGE_PERMILLE : Nat := 900

structure Challenge where
  id : ByteArr 16
  contentRoot : ByteArr 32
  range : UInt64 × UInt64
  issuedEpoch : UInt64
  nonce : ByteArr 16
  deriving DecidableEq

structure ReceiptPayload where
  version : UInt8
  contentRoot : Bytes
  /-- The public key of the signing node. -/
  nodeId : Bytes
  rangeStart : UInt64
  rangeEnd : UInt64
  epochStart : Int64
  epochEnd : Int64
  bytesReceived : UInt64
  challengeDigest : Bytes
  dataProof : Bytes
  deriving DecidableEq

structure Receipt where
  payload : ReceiptPayload
  signature : ByteArr 64
  deriving DecidableEq

def toFixed32 (v : Bytes) : Result (ByteArr 32) := if sized : v.length = 32 then .ok ⟨v, sized⟩ else .error .receipt

def receiptMessage (p : ReceiptPayload) : Result Bytes := do
  let contentRoot ← toFixed32 p.contentRoot
  let nodeId ← toFixed32 p.nodeId
  let challengeDigest ← toFixed32 p.challengeDigest
  let dataProof ← toFixed32 p.dataProof
  .ok ([[p.version], List.replicate 7 0, contentRoot.val, nodeId.val, be64 p.rangeStart, be64 p.rangeEnd,
    be64 p.epochStart.toUInt64, be64 p.epochEnd.toUInt64, be64 p.bytesReceived, challengeDigest.val,
    dataProof.val].flatten)

section Primitives
variable (c : Primitives)

namespace Challenge

def derive (contentRoot : ByteArr 32) (range : UInt64 × UInt64) (issuedEpoch : UInt64) (nodeSecret : ByteArr 32) :
    Challenge :=
  let h := c.sha256 (nodeSecret.val ++ contentRoot.val ++ be64 range.1 ++ be64 range.2 ++ be64 issuedEpoch)
  { id := ⟨h.val.take 16, by rw [List.length_take, h.property]; rfl⟩
    contentRoot := contentRoot
    range := range
    issuedEpoch := issuedEpoch
    nonce := ⟨h.val.drop 16, by rw [List.length_drop, h.property]⟩ }

def digest (ch : Challenge) : ByteArr 32 :=
  c.sha256 (ch.id.val ++ ch.contentRoot.val ++ be64 ch.range.1 ++ be64 ch.range.2 ++ be64 ch.issuedEpoch ++ ch.nonce.val)

end Challenge

namespace Receipt

def sign (payload : ReceiptPayload) (secretKey : ByteArr 32) : Result Receipt := do
  if payload.contentRoot.length ≠ 32 ∨ payload.nodeId.length ≠ 32 ∨ payload.challengeDigest.length ≠ 32 ∨
      payload.dataProof.length ≠ 32 then
    .error .receipt
  else
    let msg ← receiptMessage payload
    .ok ⟨payload, c.sign secretKey msg⟩

def verify (r : Receipt) : Bool :=
  if r.payload.version ≠ RECEIPT_VERSION then false
  else match receiptMessage r.payload with
    | .error _ => false
    | .ok msg => match toFixed32 r.payload.nodeId with
      | .ok pk => c.verify pk msg r.signature
      | .error _ => false

def verifyAgainstChallenge (r : Receipt) (challenge : Challenge) (auditorPublicKey : ByteArr 32) : Bool :=
  if ¬ r.verify c then false
  else if r.payload.challengeDigest ≠ (challenge.digest c).val then false
  else if r.payload.contentRoot ≠ challenge.contentRoot.val then false
  else if challenge.issuedEpoch < r.payload.epochStart.toUInt64 ∨ challenge.issuedEpoch > r.payload.epochEnd.toUInt64 then
    false
  else if r.payload.rangeStart > challenge.range.1 ∨ r.payload.rangeEnd < challenge.range.2 then false
  else match receiptMessage r.payload with
    | .error _ => false
    | .ok msg => c.verify auditorPublicKey msg r.signature

end Receipt

def dataProof (b : ReceiptBook) (start stop : Nat) : Option (ByteArr 32) :=
  let inside := (b.samples.filter (fun e => decide (e.1 ≥ start ∧ e.1 < stop))).map (fun e => e.2.val)
  if inside = [] then none
  else some (c.sha256 (0x52 :: (inside.mergeSort (fun x y => decide (x ≤ y))).flatten))

/-- Build a receipt for a range and a window of time; the node challenges itself. -/
def buildReceiptUnix (b : ReceiptBook) (range : UInt64 × UInt64) (epochStartUnix epochEndUnix : UInt64)
    (secretKey : ByteArr 32) : Option Receipt := do
  let total := range.2.toNat - range.1.toNat
  let covered := b.coverage range.1.toNat range.2.toNat
  if total = 0 ∨ wmul covered 1000 / total < MIN_COVERAGE_PERMILLE then none
  else
    let proof ← dataProof c b range.1.toNat range.2.toNat
    let challenge := Challenge.derive c b.contentRoot range epochStartUnix secretKey
    let payload : ReceiptPayload :=
      { version := RECEIPT_VERSION
        contentRoot := b.contentRoot.val
        nodeId := (c.publicKey secretKey).val
        rangeStart := range.1
        rangeEnd := range.2
        epochStart := epochStartUnix.toInt64
        epochEnd := epochEndUnix.toInt64
        bytesReceived := UInt64.ofNat covered
        challengeDigest := (challenge.digest c).val
        dataProof := proof.val }
    (Receipt.sign c payload secretKey).toOption

end Primitives

/-! ### The message -/

theorem toBeBytes_injective {width m n : Nat} (mFits : m < 256 ^ width) (nFits : n < 256 ^ width)
    (same : toBeBytes width m = toBeBytes width n) : m = n := by
  have written := List.reverse_injective (congrArg Subtype.val same)
  rw [← read_write_of_lt mFits, ← read_write_of_lt nFits, written]

theorem be64_injective {m n : UInt64} (same : be64 m = be64 n) : m = n := by
  apply UInt64.toNat_inj.mp
  exact toBeBytes_injective m.toNat_lt n.toNat_lt (Subtype.ext same)

theorem be64_signed_injective {m n : Int64} (same : be64 m.toUInt64 = be64 n.toUInt64) : m = n := by
  have bits := congrArg UInt64.toInt64 (be64_injective same)
  rwa [Int64.toInt64_toUInt64, Int64.toInt64_toUInt64] at bits

theorem toFixed32_eq_ok {v : Bytes} {a : ByteArr 32} : toFixed32 v = .ok a ↔ v = a.val := by
  unfold toFixed32
  split_ifs with sized
  · rw [Except.ok.injEq, Subtype.ext_iff]
  · constructor
    · intro impossible
      cases impossible
    · intro same
      exact absurd (same ▸ a.property) sized

def fields (p : ReceiptPayload) : List Bytes :=
  [[p.version], List.replicate 7 0, p.contentRoot, p.nodeId, be64 p.rangeStart, be64 p.rangeEnd,
    be64 p.epochStart.toUInt64, be64 p.epochEnd.toUInt64, be64 p.bytesReceived, p.challengeDigest, p.dataProof]

def widths : List Nat := [1, 7, 32, 32, 8, 8, 8, 8, 8, 32, 32]

theorem receiptMessage_eq_ok {p : ReceiptPayload} {m : Bytes} :
    receiptMessage p = .ok m ↔ (fields p).map List.length = widths ∧ m = (fields p).flatten := by
  have wide : ∀ n, (be64 n).length = 8 := fun n => (toBeBytes 8 n.toNat).property
  have sized : (fields p).map List.length = widths ↔ p.contentRoot.length = 32 ∧ p.nodeId.length = 32 ∧
      p.challengeDigest.length = 32 ∧ p.dataProof.length = 32 := by
    simp [fields, widths, wide]
  unfold receiptMessage
  rw [sized]
  constructor
  · intro message
    obtain ⟨contentRoot, first, message⟩ := bind_eq_ok.mp message
    obtain ⟨nodeId, second, message⟩ := bind_eq_ok.mp message
    obtain ⟨challengeDigest, third, message⟩ := bind_eq_ok.mp message
    obtain ⟨dataProof, fourth, message⟩ := bind_eq_ok.mp message
    cases message
    rw [toFixed32_eq_ok] at first second third fourth
    refine ⟨⟨?_, ?_, ?_, ?_⟩, ?_⟩
    · exact first ▸ contentRoot.property
    · exact second ▸ nodeId.property
    · exact third ▸ challengeDigest.property
    · exact fourth ▸ dataProof.property
    · rw [fields, first, second, third, fourth]
  · rintro ⟨⟨first, second, third, fourth⟩, rfl⟩
    have fixed : ∀ {v : Bytes} (sized : v.length = 32), toFixed32 v = .ok ⟨v, sized⟩ := fun sized =>
      toFixed32_eq_ok.mpr rfl
    rw [fixed first, fixed second, fixed third, fixed fourth]
    rfl

theorem receiptMessage_injective {p q : ReceiptPayload} {m : Bytes} (ofP : receiptMessage p = .ok m)
    (ofQ : receiptMessage q = .ok m) : p = q := by
  obtain ⟨sizedP, messageP⟩ := receiptMessage_eq_ok.mp ofP
  obtain ⟨sizedQ, messageQ⟩ := receiptMessage_eq_ok.mp ofQ
  have same : fields p = fields q :=
    List.eq_iff_flatten_eq.mpr ⟨messageP.symm.trans messageQ, sizedP.trans sizedQ.symm⟩
  cases p
  cases q
  simp only [fields, List.cons.injEq, and_true, true_and] at same
  obtain ⟨rfl, rfl, rfl, start, stop, opened, closed, bytes, rfl, rfl⟩ := same
  cases be64_injective start
  cases be64_injective stop
  cases be64_signed_injective opened
  cases be64_signed_injective closed
  cases be64_injective bytes
  rfl

/-! ### Built receipts -/

/-- What is recorded in a book: a range, or a sample of a block. -/
inductive Record where
  | range (start stop : Nat)
  | sample (offset : Nat) (blockHash : ByteArr 32)

def Record.apply (b : ReceiptBook) : Record → ReceiptBook
  | .range start stop => b.recordRange start stop
  | .sample offset blockHash => b.recordSample offset blockHash

def Record.range? : Record → Option (Nat × Nat)
  | .range start stop => some (start, stop)
  | .sample _ _ => none

def rangesOf (records : List Record) : List (Nat × Nat) := records.filterMap Record.range?

def kept (contentRoot : ByteArr 32) (records : List Record) : ReceiptBook :=
  records.foldl Record.apply (new contentRoot)

theorem ranges_kept (contentRoot : ByteArr 32) (records : List Record) :
    (kept contentRoot records).ranges = (recorded contentRoot (rangesOf records)).ranges ∧
      (kept contentRoot records).contentRoot = contentRoot := by
  induction records using List.reverseRecOn with
  | nil => exact ⟨rfl, rfl⟩
  | append_singleton records r ih =>
    obtain ⟨ranges, root⟩ := ih
    have last : kept contentRoot (records ++ [r]) = Record.apply (kept contentRoot records) r := by
      rw [kept, List.foldl_append]
      rfl
    rw [last]
    cases r with
    | range start stop =>
      have more : rangesOf (records ++ [.range start stop]) = rangesOf records ++ [(start, stop)] := by
        simp [rangesOf, Record.range?]
      rw [more, recorded, List.foldl_append, ← recorded, List.foldl_cons, List.foldl_nil]
      unfold Record.apply recordRange
      dsimp only
      split_ifs
      · exact ⟨ranges, root⟩
      · exact ⟨by rw [ranges], root⟩
    | sample offset blockHash =>
      have same : rangesOf (records ++ [.sample offset blockHash]) = rangesOf records := by
        simp [rangesOf, Record.range?]
      rw [same]
      unfold Record.apply recordSample
      dsimp only
      split_ifs
      · exact ⟨ranges, root⟩
      · exact ⟨ranges, root⟩

theorem coverage_kept (contentRoot : ByteArr 32) {records : List Record}
    (fits : ∀ c ∈ rangesOf records, c.2 < 2 ^ 64) (start stop : Nat) :
    (kept contentRoot records).coverage start stop = (cells (rangesOf records) ∩ Finset.Ico start stop).card := by
  obtain ⟨exact, covered, -⟩ := recorded_spec contentRoot fits
  have same := (ranges_kept contentRoot records).1
  rw [coverage, same, ← coverage, coverage_eq exact, covered]

section Built
variable {c : Primitives} {b : ReceiptBook} {range : UInt64 × UInt64} {epochStart epochEnd : UInt64}
  {key : ByteArr 32} {r : Receipt}

theorem buildReceiptUnix_eq_some (built : buildReceiptUnix c b range epochStart epochEnd key = some r) :
    ∃ proof : ByteArr 32, ∃ msg,
      ¬ (range.2.toNat - range.1.toNat = 0 ∨
        wmul (b.coverage range.1.toNat range.2.toNat) 1000 / (range.2.toNat - range.1.toNat) < MIN_COVERAGE_PERMILLE) ∧
      r.payload =
        { version := RECEIPT_VERSION
          contentRoot := b.contentRoot.val
          nodeId := (c.publicKey key).val
          rangeStart := range.1
          rangeEnd := range.2
          epochStart := epochStart.toInt64
          epochEnd := epochEnd.toInt64
          bytesReceived := UInt64.ofNat (b.coverage range.1.toNat range.2.toNat)
          challengeDigest := ((Challenge.derive c b.contentRoot range epochStart key).digest c).val
          dataProof := proof.val } ∧
      receiptMessage r.payload = .ok msg ∧ r.signature = c.sign key msg := by
  unfold buildReceiptUnix at built
  dsimp only at built
  split_ifs at built with low
  obtain ⟨proof, -, built⟩ := Option.bind_eq_some_iff.mp built
  generalize stated : ReceiptPayload.mk _ _ _ _ _ _ _ _ _ _ = payload at built
  cases outcome : Receipt.sign c payload key with
  | error e =>
    rw [outcome] at built
    cases built
  | ok signed =>
    rw [outcome] at built
    cases built
    obtain ⟨-, signing⟩ := guard_eq_ok.mp outcome
    obtain ⟨msg, message, made⟩ := bind_eq_ok.mp signing
    cases made
    exact ⟨proof, msg, low, stated.symm, message, rfl⟩

theorem verify_of_signed (correct : c.Correct) {msg : Bytes} (version : r.payload.version = RECEIPT_VERSION)
    (named : r.payload.nodeId = (c.publicKey key).val) (message : receiptMessage r.payload = .ok msg)
    (signed : r.signature = c.sign key msg) : r.verify c = true := by
  have fixed : toFixed32 r.payload.nodeId = .ok (c.publicKey key) := toFixed32_eq_ok.mpr named
  rw [Receipt.verify, if_neg (not_not.mpr version), message, fixed, signed]
  exact correct key msg

theorem audited {challenge : Challenge} {auditor : ByteArr 32} {msg : Bytes} (verified : r.verify c = true)
    (digest : r.payload.challengeDigest = (challenge.digest c).val)
    (root : r.payload.contentRoot = challenge.contentRoot.val)
    (inTime : ¬ (challenge.issuedEpoch < r.payload.epochStart.toUInt64 ∨
      challenge.issuedEpoch > r.payload.epochEnd.toUInt64))
    (inRange : ¬ (r.payload.rangeStart > challenge.range.1 ∨ r.payload.rangeEnd < challenge.range.2))
    (message : receiptMessage r.payload = .ok msg) (checked : c.verify auditor msg r.signature = true) :
    r.verifyAgainstChallenge c challenge auditor = true := by
  unfold Receipt.verifyAgainstChallenge
  rw [if_neg (not_not.mpr verified), if_neg (not_not.mpr digest), if_neg (not_not.mpr root), if_neg inTime,
    if_neg inRange, message]
  exact checked

/-- A receipt that a book gives verifies on its own and against its challenge, names the distinct bytes recorded in its
range, and these are nearly all of it. No two payloads share a message. -/
theorem built_receipt_verifies {contentRoot : ByteArr 32} {records : List Record} (correct : c.Correct)
    (fits : ∀ e ∈ rangesOf records, e.2 ≤ 2 ^ 53) (ordered : epochStart ≤ epochEnd)
    (built : buildReceiptUnix c (kept contentRoot records) range epochStart epochEnd key = some r) :
    r.verify c = true ∧
      r.verifyAgainstChallenge c (Challenge.derive c contentRoot range epochStart key) (c.publicKey key) = true ∧
      r.payload.bytesReceived.toNat = (cells (rangesOf records) ∩ Finset.Ico range.1.toNat range.2.toNat).card ∧
      MIN_COVERAGE_PERMILLE * (range.2.toNat - range.1.toNat) ≤ 1000 * r.payload.bytesReceived.toNat ∧
      ∀ p q m, receiptMessage p = .ok m → receiptMessage q = .ok m → p = q := by
  obtain ⟨proof, msg, enough, payload, message, signed⟩ := buildReceiptUnix_eq_some built
  have root : (kept contentRoot records).contentRoot = contentRoot := (ranges_kept contentRoot records).2
  have short : ∀ e ∈ rangesOf records, e.2 < 2 ^ 64 := fun e member => Nat.lt_of_le_of_lt (fits e member) (by decide)
  have covered := coverage_kept contentRoot short range.1.toNat range.2.toNat
  have few : (kept contentRoot records).coverage range.1.toNat range.2.toNat ≤ 2 ^ 53 := by
    have inside : cells (rangesOf records) ∩ Finset.Ico range.1.toNat range.2.toNat ⊆ Finset.range (2 ^ 53) := by
      intro x member
      obtain ⟨e, listed, -, below⟩ := mem_cells.mp (Finset.mem_inter.mp member).1
      exact Finset.mem_range.mpr (Nat.lt_of_lt_of_le below (fits e listed))
    rw [covered, ← Finset.card_range (2 ^ 53)]
    exact Finset.card_le_card inside
  have verified : r.verify c = true :=
    verify_of_signed correct (by rw [payload]) (by rw [payload]) message signed
  have received : r.payload.bytesReceived.toNat = (kept contentRoot records).coverage range.1.toNat range.2.toNat := by
    rw [payload, UInt64.toNat_ofNat']
    exact Nat.mod_eq_of_lt (by omega)
  refine ⟨verified, ?_, received.trans covered, ?_, ?_⟩
  · have epochs : r.payload.epochStart.toUInt64 = epochStart ∧ r.payload.epochEnd.toUInt64 = epochEnd := by
      rw [payload]
      exact ⟨UInt64.toUInt64_toInt64 epochStart, UInt64.toUInt64_toInt64 epochEnd⟩
    have span : r.payload.rangeStart = range.1 ∧ r.payload.rangeEnd = range.2 := by
      rw [payload]
      exact ⟨rfl, rfl⟩
    apply audited verified ?_ ?_ ?_ ?_ message ?_
    · rw [payload, root]
    · rw [payload, root]
      rfl
    · rw [epochs.1, epochs.2]
      change ¬ (epochStart < epochStart ∨ epochStart > epochEnd)
      rw [UInt64.lt_iff_toNat_lt, gt_iff_lt, UInt64.lt_iff_toNat_lt]
      have order := UInt64.le_iff_toNat_le.mp ordered
      omega
    · rw [span.1, span.2]
      change ¬ (range.1 > range.1 ∨ range.2 < range.2)
      rw [gt_iff_lt, UInt64.lt_iff_toNat_lt, UInt64.lt_iff_toNat_lt]
      omega
    · rw [signed]
      exact correct key msg
  · obtain ⟨positive, share⟩ := not_or.mp enough
    rw [received]
    rw [wmul, Nat.mod_eq_of_lt (by omega), Nat.not_lt, Nat.le_div_iff_mul_le (by omega)] at share
    omega
  · exact fun p q m => receiptMessage_injective

end Built

namespace Sample

/-- A node that received a thousand bytes in two ranges, and holds a block of them. -/
def key : ByteArr 32 := ByteArr.replicate 32 7
def root : ByteArr 32 := ByteArr.replicate 32 7
def blockHash : ByteArr 32 := toBeBytes 32 0xdb6af7cbf16b8fcf6fb8d1aa4137f86922c8092db076963b6aceb2dfaf17f8da
def records : List Record := [.range 0 500, .range 500 1000, .sample 64 blockHash]

def publicKey : ByteArr 32 := toBeBytes 32 0xea4a6c63e29c520abef5507b132ec5f9954776aebebe7b92421eea691446d22c
def secretHash : ByteArr 32 := toBeBytes 32 0xd76b7520783621b446e552c88bdaa32fa9ba0429e275628a1064714b950cff82
def challengeDigest : ByteArr 32 := toBeBytes 32 0xcef7d6bf53aa059e8a06242139c9b6be460d05043f62e57c3a03f2f59c627a80
def blockProof : ByteArr 32 := toBeBytes 32 0xd43c0a376d4818f7912c3e1510876e262658c6bf287160e38e2ed6ecb3eca6dc
def signature : ByteArr 64 := toBeBytes 64
  0x8e628ee6f96bbe300b116f7188c9f13b18de8f205b2434e0a5eb8b376b4811c97c3211086dec87ee17682d33248197654bec0d3fc74a0ed3d5cf0d7b63947f07

def about : Bytes := root.val ++ be64 0 ++ be64 1000 ++ be64 1700000000

def message : Bytes :=
  1 :: List.replicate 7 0 ++ root.val ++ publicKey.val ++ be64 0 ++ be64 1000 ++ be64 1700000000 ++ be64 1700000060 ++
    be64 1000 ++ challengeDigest.val ++ blockProof.val

def signatureOf (pk : ByteArr 32) (msg : Bytes) : ByteArr 64 :=
  if pk = publicKey ∧ msg = message then signature else ByteArr.replicate 64 0

/-- SHA-256 and Ed25519 where this node uses them, and a scheme that is correct everywhere else. -/
def table : Primitives where
  sha256 m :=
    if m = key.val ++ about then secretHash
    else if m = secretHash.val.take 16 ++ about ++ secretHash.val.drop 16 then challengeDigest
    else if m = 0x52 :: blockHash.val then blockProof
    else ByteArr.replicate 32 0
  publicKey k := if k = key then publicKey else k
  sign k msg := signatureOf (if k = key then publicKey else k) msg
  verify pk msg s := decide (s = signatureOf pk msg)

theorem table_correct : table.Correct := fun _ _ => decide_eq_true rfl

theorem built_signature : (buildReceiptUnix table (kept root records) (0, 1000) 1700000000 1700000060 key).map
    Receipt.signature = some signature := by decide +kernel

end Sample

/-- The receipt of a thousand bytes. -/
theorem built_receipt_verifies_thousand :
    ∃ r, buildReceiptUnix Sample.table (kept Sample.root Sample.records) (0, 1000) 1700000000 1700000060 Sample.key =
        some r ∧ r.signature = Sample.signature ∧ r.verify Sample.table = true ∧
      r.verifyAgainstChallenge Sample.table (Challenge.derive Sample.table Sample.root (0, 1000) 1700000000 Sample.key)
        (Sample.table.publicKey Sample.key) = true ∧
      r.payload.bytesReceived.toNat = (cells (rangesOf Sample.records) ∩ Finset.Ico 0 1000).card := by
  obtain ⟨r, built, signed⟩ := Option.map_eq_some_iff.mp Sample.built_signature
  obtain ⟨verified, answers, received, -⟩ :=
    built_receipt_verifies Sample.table_correct (by decide) (by decide) built
  exact ⟨r, built, signed, verified, answers, received⟩

end TypeBit.Receipts
