import Reassembly.Packet.BigEndian

/-! Internet addresses and endpoints, and how they are written: four decimal numbers for the
short kind, hexadecimal groups with the longest run of zeros left out for the long kind. -/
namespace Reassembly

structure Octets (n : Nat) where
  bytes : Bytes
  length_eq : bytes.length = n
  deriving DecidableEq, Repr

namespace Octets

/-- The first `n` bytes, with zeros for any that are missing. -/
def ofList (n : Nat) (bs : Bytes) : Octets n :=
  ⟨(bs++List.replicate n 0).take n,by simp⟩

@[simp] theorem ofList_bytes {n : Nat} (o : Octets n) : ofList n o.bytes = o := by
  obtain ⟨bs,rfl⟩ := o
  simp [ofList]

theorem ofList_append {n : Nat} (o : Octets n) (rest : Bytes) : ofList n (o.bytes++rest) = o := by
  obtain ⟨bs,rfl⟩ := o
  simp [ofList]

end Octets

/-- An address of either version; the longer kind may name a zone of validity. -/
inductive Address
  | v4 (octets : Octets 4)
  | v6 (octets : Octets 16) (zone : UInt32)
  deriving DecidableEq, Repr

namespace Address

def version : Address → Nat
  | .v4 _ => 4
  | .v6 _ _ => 6

def unspecified : Address := .v4 (Octets.ofList 4 [])

def groups : Bytes → List Nat
  | high::low::rest => (high.toNat*256+low.toNat)::groups rest
  | _ => []

/-- The short address that a long one stands for, if it is of the mapped form. -/
def mapped? (octets : Octets 16) : Option (Octets 4) :=
  if octets.bytes.take 12 = List.replicate 10 0 ++ [255,255] then
    some (Octets.ofList 4 (octets.bytes.drop 12))
  else none

/-- Start and length of the first longest run of zeros, looking from place `i` on, where a run
of `len` zeros has just been read. -/
def longestZeros (i len : Nat) (best : Nat × Nat) : List Nat → Nat × Nat
  | [] => best
  | g::gs =>
    if g = 0 then longestZeros (i+1) (len+1) (if best.2 < len+1 then (i-len,len+1) else best) gs
    else longestZeros (i+1) 0 best gs

def groupText (gs : List Nat) : String :=
  String.intercalate ":" (gs.map fun g => String.ofList (Nat.toDigits 16 g))

def v4Text (octets : Octets 4) : String :=
  String.intercalate "." (octets.bytes.map fun b => toString b.toNat)

/-- A run of a single zero is written out. -/
def v6Text (octets : Octets 16) : String :=
  match mapped? octets with
  | some short => "::ffff:" ++ v4Text short
  | none =>
    let gs := groups octets.bytes
    let (start,len) := longestZeros 0 0 (0,0) gs
    if 1 < len then groupText (gs.take start) ++ "::" ++ groupText (gs.drop (start+len))
    else groupText gs

end Address

structure Endpoint where
  address : Address
  port : UInt16
  deriving DecidableEq, Repr

def Endpoint.text (e : Endpoint) : String :=
  match e.address with
  | .v4 octets => Address.v4Text octets ++ ":" ++ toString e.port.toNat
  | .v6 octets zone =>
    let zoneText := if zone = 0 then "" else "%" ++ toString zone.toNat
    "[" ++ Address.v6Text octets ++ zoneText ++ "]:" ++ toString e.port.toNat

end Reassembly
