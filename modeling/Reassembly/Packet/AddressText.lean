import Reassembly.Packet.Address

/-! Reading endpoints back from their written form. Every function takes a text and returns
what it has read together with the rest of the text. -/
namespace Reassembly.Address

def digitValue? (base : Nat) (c : Char) : Option Nat :=
  let n := c.toNat
  let value :=
    if 48 ≤ n && n ≤ 57 then n-48
    else if 97 ≤ n && n ≤ 102 then n-87
    else if 65 ≤ n && n ≤ 70 then n-55
    else 16
  if value < base then some value else none

def isDigit (base : Nat) (c : Char) : Bool := (digitValue? base c).isSome

def numberOf (base : Nat) (cs : List Char) : Nat :=
  cs.foldl (fun n c => n*base+(digitValue? base c).getD 0) 0

def number? (base bound : Nat) (cs : List Char) : Option (Nat × List Char) :=
  let digits := cs.takeWhile (isDigit base)
  let n := numberOf base digits
  if digits.isEmpty || bound ≤ n then none else some (n,cs.dropWhile (isDigit base))

/-- A decimal part of a short address: no zero in front, at most three digits. -/
def part? (cs : List Char) : Option (UInt8 × List Char) :=
  let digits := cs.takeWhile (isDigit 10)
  if 3 < digits.length || (1 < digits.length && digits.head? = some '0') then none
  else (number? 10 256 cs).map fun (n,rest) => (UInt8.ofNat n,rest)

def char? (c : Char) : List Char → Option (List Char)
  | d::rest => if d = c then some rest else none
  | [] => none

def v4? (cs : List Char) : Option (Bytes × List Char) := do
  let (a,cs) ← part? cs
  let (b,cs) ← part? (← char? '.' cs)
  let (c,cs) ← part? (← char? '.' cs)
  let (d,cs) ← part? (← char? '.' cs)
  return ([a,b,c,d],cs)

/-- One group of a long address: at most four digits. -/
def group? (cs : List Char) : Option (Bytes × List Char) :=
  if 4 < (cs.takeWhile (isDigit 16)).length then none
  else (number? 16 65536 cs).map fun (n,rest) => (BigEndian.ofNat 2 n,rest)

/-- Up to `limit` groups with colons between them, as bytes. A short address may stand for
the last two; the flag says whether one did. -/
def groups? (first : Bool) : (limit : Nat) → List Char → Bytes × Bool × List Char
  | 0, cs => ([],false,cs)
  | limit+1, cs =>
    match (if first then some cs else char? ':' cs) with
    | none => ([],false,cs)
    | some start =>
      match (if limit = 0 then none else v4? start) with
      | some (bytes,rest) => (bytes,true,rest)
      | none =>
        match group? start with
        | none => ([],false,cs)
        | some (bytes,rest) =>
          let (more,short,rest) := groups? false limit rest
          (bytes++more,short,rest)

/-- Two colons stand for at least one group of zeros, and at most once. -/
def v6? (cs : List Char) : Option (Bytes × List Char) :=
  let (head,short,rest) := groups? true 8 cs
  if head.length = 16 then some (head,rest)
  else if short then none
  else do
    let rest ← char? ':' (← char? ':' rest)
    let (tail,_,rest) := groups? true (7-head.length/2) rest
    return (head ++ List.replicate (16-head.length-tail.length) 0 ++ tail,rest)

def port? (cs : List Char) : Option UInt16 := do
  let (n,rest) ← number? 10 65536 (← char? ':' cs)
  if rest.isEmpty then some (UInt16.ofNat n) else none

def zone? (cs : List Char) : Option (UInt32 × List Char) :=
  match char? '%' cs with
  | none => some (0,cs)
  | some rest => (number? 10 0x100000000 rest).map fun (n,rest) => (UInt32.ofNat n,rest)

end Reassembly.Address

namespace Reassembly

def Endpoint.ofText? (s : String) : Option Endpoint :=
  match Address.char? '[' s.toList with
  | some cs => do
    let (bytes,rest) ← Address.v6? cs
    let (zone,rest) ← Address.zone? rest
    let port ← Address.port? (← Address.char? ']' rest)
    return ⟨.v6 (Octets.ofList 16 bytes) zone,port⟩
  | none => do
    let (bytes,rest) ← Address.v4? s.toList
    let port ← Address.port? rest
    return ⟨.v4 (Octets.ofList 4 bytes),port⟩

end Reassembly
