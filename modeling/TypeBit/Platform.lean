import TypeBit.Basic
import Mathlib.Data.Prod.Lex

/-! Network endpoints and how a peer was found (`platform.rs`, `monitoring.rs`). -/

namespace TypeBit

/-- A byte array of fixed size. -/
abbrev ByteArr (n : Nat) := { b : Bytes // b.length = n }

def ByteArr.replicate (n : Nat) (b : UInt8) : ByteArr n := ⟨List.replicate n b, List.length_replicate⟩

abbrev ConnId := Nat

inductive NetAddr where
  | v4 (ip : ByteArr 4) (port : Nat)
  | v6 (ip : ByteArr 16) (port : Nat)
  deriving DecidableEq

namespace NetAddr

def rank : NetAddr → Bool ×ₗ Bytes ×ₗ Nat
  | v4 ip port => toLex (false, toLex (ip.val, port))
  | v6 ip port => toLex (true, toLex (ip.val, port))

theorem rank_injective : Function.Injective rank := by
  intro a b same
  cases a <;> cases b <;> simp_all [rank, Subtype.ext_iff]

instance : LinearOrder NetAddr := LinearOrder.lift' rank rank_injective

def PortFits : NetAddr → Prop
  | v4 _ port => port < 2 ^ 16
  | v6 _ port => port < 2 ^ 16

def unspecified : NetAddr := v4 ⟨[0, 0, 0, 0], rfl⟩ 0

def ofOctets (a b c d : UInt8) (port : Nat) : NetAddr := v4 ⟨[a, b, c, d], rfl⟩ port

def port16 (hi lo : UInt8) : Nat := hi.toNat * 2 ^ 8 + lo.toNat

def fromCompact6 (b : Bytes) : Option NetAddr :=
  if full : b.length = 6 then some (v4 ⟨b.take 4, by simp [full]⟩ (port16 (b.getD 4 0) (b.getD 5 0))) else none

def fromCompact18 (b : Bytes) : Option NetAddr :=
  if full : b.length = 18 then some (v6 ⟨b.take 16, by simp [full]⟩ (port16 (b.getD 16 0) (b.getD 17 0))) else none

def toCompact6 : NetAddr → Option Bytes
  | v4 ip port => some (ip.val ++ [(port / 2 ^ 8).toUInt8, port.toUInt8])
  | v6 _ _ => none

def toCompact18 : NetAddr → Option Bytes
  | v4 _ _ => none
  | v6 ip port => some (ip.val ++ [(port / 2 ^ 8).toUInt8, port.toUInt8])

def subnetKey : NetAddr → Bytes
  | v4 ip _ => ip.val.take 3 ++ List.replicate 5 0
  | v6 ip _ => ip.val.take 8

end NetAddr

inductive DiscoverySource where
  | tracker
  | dht
  | pex
  | lsd
  | manual
  | webSeed
  deriving DecidableEq, Repr

end TypeBit
