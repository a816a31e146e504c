import Reassembly.Text.Quoted
import Reassembly.Text.Utf8

/-! Bytes as pairs of hexadecimal digits. Writing uses lower case; reading takes either case and
nothing but digits. -/
namespace Reassembly

/-- Why a text is not a sequence of digit pairs; the offset counts bytes. -/
inductive HexFault
  | odd
  | invalid (byte : UInt8) (offset : Nat)
  deriving DecidableEq, Repr

/-- A byte that is no digit is shown as the character with its number. -/
def HexFault.message : HexFault → String
  | .odd => "Odd number of digits"
  | .invalid byte offset =>
    "Invalid character " ++ Text.quoteChar (Char.ofNat byte.toNat) ++ " at position " ++ toString offset

namespace Hex

def encodeByte (b : UInt8) : List Char :=
  [Nat.digitChar (b.toNat/16),Nat.digitChar (b.toNat%16)]

def encode (bytes : Bytes) : List Char := bytes.flatMap encodeByte

def digit? (b : UInt8) : Option UInt8 :=
  if 48 ≤ b && b ≤ 57 then some (b-48)
  else if 97 ≤ b && b ≤ 102 then some (b-87)
  else if 65 ≤ b && b ≤ 70 then some (b-55)
  else none

/-- Reads pairs from `offset` on, behind what has been read in reverse. -/
def decodePairs (read : Bytes) (offset : Nat) : Bytes → Except HexFault Bytes
  | high::low::rest =>
    match digit? high with
    | none => .error (.invalid high offset)
    | some h =>
      match digit? low with
      | none => .error (.invalid low (offset+1))
      | some l => decodePairs ((h*16+l)::read) (offset+2) rest
  | _ => .ok read.reverse

/-- An odd number of bytes is refused before any of them is looked at. -/
def decode (bytes : Bytes) : Except HexFault Bytes :=
  if bytes.length%2 = 1 then .error .odd else decodePairs [] 0 bytes

def decodeText (cs : List Char) : Except HexFault Bytes := decode (Text.utf8 cs)

end Hex
end Reassembly
