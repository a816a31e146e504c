import Reassembly.Text.Hex

/-! What can go wrong, with the wording of each report. -/
namespace Reassembly

inductive FileFault
  | notFound
  | notDirectory
  | isDirectory
  | noSpace
  | notText
  deriving DecidableEq, Repr

def FileFault.message : FileFault → String
  | .notFound => "No such file or directory (os error 2)"
  | .notDirectory => "Not a directory (os error 20)"
  | .isDirectory => "Is a directory (os error 21)"
  | .noSpace => "No space left on device (os error 28)"
  | .notText => "stream did not contain valid UTF-8"

inductive Fault
  | packetMalformed (offset : Nat) (reason : String)
  | packetTooSmall (expected actual : Nat)
  | ipVersion (version : Nat)
  | notTcp (protocol : Nat)
  /-- The reason is left out where the writer of a document puts it in words of its own. -/
  | config (reason : Option String)
  | configNotFound (path : String)
  | configValue (key reason : String)
  | script (entry : Nat) (reason : String)
  | file (cause : FileFault)
  | toml
  | hex (cause : HexFault)
  deriving DecidableEq, Repr

namespace Fault

def message : Fault → String
  | .packetMalformed offset reason =>
    "Packet parsing error at offset " ++ toString offset ++ ": " ++ reason
  | .packetTooSmall expected actual =>
    "Packet too small: expected at least " ++ toString expected ++ " bytes, got " ++ toString actual
  | .ipVersion version => "Unsupported IP version: " ++ toString version
  | .notTcp protocol => "Not a TCP packet (protocol " ++ toString protocol ++ ")"
  | .config none => "Configuration error"
  | .config (some reason) => "Configuration error: " ++ reason
  | .configNotFound path => "Configuration file not found: " ++ path
  | .configValue key reason => "Invalid configuration value for '" ++ key ++ "': " ++ reason
  | .script entry reason => "Segment script error at entry " ++ toString entry ++ ": " ++ reason
  | .file cause => "I/O error: " ++ cause.message
  | .toml => "TOML parsing error"
  | .hex cause => "Hex decoding error: " ++ cause.message

def cause? : Fault → Option String
  | .file cause => some cause.message
  | .hex cause => some cause.message
  | _ => none

end Fault
end Reassembly
