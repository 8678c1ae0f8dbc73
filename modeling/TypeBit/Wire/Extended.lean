import TypeBit.Bencode.Parser
import TypeBit.Metainfo.FromBytes

/-! The extension payloads of `wire.rs`: the extended handshake, the metadata exchange and the peer
exchange. Names in the extended handshake are raw bytes, before their lossy UTF-8 form. -/

namespace TypeBit.Wire
open Bencode Metainfo

def isCont (c : UInt8) : Bool := 0x80 ≤ c && c ≤ 0xBF

def secondOk (a b : UInt8) : Bool :=
  if a = 0xE0 then 0xA0 ≤ b && b ≤ 0xBF
  else if a = 0xED then 0x80 ≤ b && b ≤ 0x9F
  else if a = 0xF0 then 0x90 ≤ b && b ≤ 0xBF
  else if a = 0xF4 then 0x80 ≤ b && b ≤ 0x8F
  else isCont b

def utf8Valid : Nat → Bytes → Bool
  | _, [] => true
  | 0, _ :: _ => false
  | n + 1, a :: tail =>
      if a < 0x80 then utf8Valid n tail
      else if 0xC2 ≤ a ∧ a ≤ 0xDF then
        match tail with
        | b :: tail => isCont b && utf8Valid n tail
        | _ => false
      else if 0xE0 ≤ a ∧ a ≤ 0xEF then
        match tail with
        | b :: c :: tail => secondOk a b && isCont c && utf8Valid n tail
        | _ => false
      else if 0xF0 ≤ a ∧ a ≤ 0xF4 then
        match tail with
        | b :: c :: d :: tail => secondOk a b && isCont c && isCont d && utf8Valid n tail
        | _ => false
      else false

def strAt (m : Dict) (key : String) : Option Bytes := (bytesAt m key).filter (fun b => utf8Valid b.length b)

def dict (entries : List (String × BVal)) : BVal :=
  .dict (entries.foldl (fun m e => OrdMap.Raw.insert (ascii e.1) e.2 m) [])

def entry? {α : Type} (key : String) (value : Option α) (make : α → BVal) : List (String × BVal) :=
  (value.map (fun v => (key, make v))).toList

def u32At (m : Dict) (key : String) : Option Nat := (intAt m key).map asU32

def portAt (m : Dict) (key : String) : Option Nat := (u32At m key).filter (fun p => decide (0 < p ∧ p ≤ 65535))

structure ExtHandshake where
  m : OrdMap Bytes UInt8
  v : Option Bytes
  reqq : Option Nat
  metadataSize : Option Nat
  p : Option Nat
  yourport : Option Nat
  deriving DecidableEq

namespace ExtHandshake

def encode (h : ExtHandshake) : Bytes :=
  let offered := h.m.entries.map (fun e => (e.1, BVal.int e.2.toNat))
  encodeValue (dict
    ((if h.m.isEmpty then [] else [("m", .dict offered)]) ++ entry? "v" h.v .bytes ++
      entry? "reqq" h.reqq (fun n => .int n) ++ entry? "metadata_size" h.metadataSize (fun n => .int n) ++
      entry? "p" h.p (fun n => .int n) ++ entry? "yourport" h.yourport (fun n => .int n)))

def parse (payload : Bytes) : Result ExtHandshake := do
  let v ← BVal.parse payload
  let d ← okOr v.asDict .protocol
  let offered := ((dictAt d "m").getD []).filterMap (fun e => e.2.asInt.map (fun id => (e.1, (id % 256).toNat.toUInt8)))
  .ok
    { m := offered.foldl (fun m e => m.insert e.1 e.2) ∅
      v := strAt d "v"
      reqq := u32At d "reqq"
      metadataSize := u32At d "metadata_size"
      p := u32At d "p"
      yourport := portAt d "yourport" }

end ExtHandshake

inductive MetadataMsg where
  | request (piece : Nat)
  | data (piece totalSize : Nat) (bytes : Bytes)
  | reject (piece : Nat)
  deriving DecidableEq, Repr

namespace MetadataMsg

def encode : MetadataMsg → Bytes
  | request piece => encodeValue (dict [("msg_type", .int 0), ("piece", .int piece)])
  | data piece totalSize bytes =>
      encodeValue (dict [("msg_type", .int 1), ("piece", .int piece), ("total_size", .int totalSize)]) ++ bytes
  | reject piece => encodeValue (dict [("msg_type", .int 2), ("piece", .int piece)])

def parse (payload : Bytes) : Result MetadataMsg := do
  let (v, consumed) ← Parser.value payload 0 0
  let d ← okOr v.asDict .protocol
  let msgType ← okOr (intAt d "msg_type") .protocol
  let piece ← okOr (u32At d "piece") .protocol
  if msgType = 0 then .ok (request piece)
  else if msgType = 1 then do
    let total ← okOr (u32At d "total_size") .protocol
    .ok (data piece total (payload.drop consumed))
  else if msgType = 2 then .ok (reject piece)
  else .error .protocol

end MetadataMsg

structure PexMsg where
  added : Bytes
  addedF : Bytes
  dropped : Bytes
  added6 : Bytes
  added6F : Bytes
  dropped6 : Bytes
  p : Option Nat
  p6 : Option Nat
  deriving DecidableEq, Repr

namespace PexMsg

def default : PexMsg := ⟨[], [], [], [], [], [], none, none⟩

def bytes? (key : String) (b : Bytes) : List (String × BVal) := if b = [] then [] else [(key, .bytes b)]

def encode (m : PexMsg) : Bytes :=
  encodeValue (dict
    (bytes? "added" m.added ++ bytes? "added.f" m.addedF ++ bytes? "dropped" m.dropped ++ bytes? "added6" m.added6 ++
      bytes? "added6.f" m.added6F ++ bytes? "dropped6" m.dropped6 ++ entry? "p" m.p (fun n => .int n) ++
      entry? "p6" m.p6 (fun n => .int n)))

def bytesIf (d : Dict) (key : String) (accept : Nat → Bool) : Bytes :=
  ((bytesAt d key).filter (fun a => accept a.length)).getD []

def parse (payload : Bytes) : Result PexMsg := do
  let v ← BVal.parse payload
  let d ← okOr v.asDict .protocol
  let added := bytesIf d "added" (fun n => n % 6 = 0)
  let added6 := bytesIf d "added6" (fun n => n % 18 = 0)
  .ok
    { added := added
      addedF := bytesIf d "added.f" (fun n => n = added.length / 6)
      dropped := bytesIf d "dropped" (fun n => n % 6 = 0)
      added6 := added6
      added6F := bytesIf d "added6.f" (fun n => n = added6.length / 18)
      dropped6 := bytesIf d "dropped6" (fun n => n % 18 = 0)
      p := portAt d "p"
      p6 := portAt d "p6" }

end PexMsg
end TypeBit.Wire
