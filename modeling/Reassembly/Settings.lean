import Reassembly.Fault
import Reassembly.Limits
import Reassembly.Toml.Fields

/-! The settings of a run: caps on what waits, the idle time after which a connection is given
up, and what is logged. They are read from TOML, checked, and written back to it. -/
namespace Reassembly

structure Settings where
  limits : Limits := {}
  idleTimeout : Nat := 30
  level : String := "info"
  jsonLog : Bool := false
  deriving DecidableEq, Repr, Inhabited

namespace Settings

def maxWord : Nat := 0xffffffffffffffff

/-- The fields of a section, which may be missing as a whole. -/
def sectionFields? (es : Toml.Entries) (name : String) (fields : List String) :
    Option (List (Option Toml.Value)) :=
  match es.get? name with
  | none => some (fields.map fun _ => none)
  | some v => v.fields? fields

def ofEntries? (es : Toml.Entries) : Option Settings := do
  let [segments,bytes,overflow] ← sectionFields? es "reassembly"
    ["max_pending_segments","max_pending_bytes","overflow_policy"] | none
  let maxSegments ← Toml.optional (·.nat? maxWord) segments
  let maxBytes ← Toml.optional (·.nat? maxWord) bytes
  let overflow ← Toml.optional (fun v => v.choice?.bind Overflow.ofName?) overflow
  let [timeout] ← sectionFields? es "stream" ["idle_timeout_secs"] | none
  let timeout ← Toml.optional (·.nat? maxWord) timeout
  let [level,json] ← sectionFields? es "logging" ["level","json_format"] | none
  let level ← Toml.optional (·.string?) level
  let json ← Toml.optional (·.boolean?) json
  return {
    limits := {maxSegments, maxBytes, overflow := overflow.getD .dropNew}
    idleTimeout := timeout.getD 30
    level := level.getD "info"
    jsonLog := json.getD false}

def ofToml (text : String) : Except Fault Settings :=
  match (Toml.read? text).bind ofEntries? with
  | some s => .ok s
  | none => .error .toml

def check (s : Settings) : Except Fault Unit :=
  let cap := "Must be non-zero (omit it for no limit)"
  if s.limits.maxSegments = some 0 then .error (.configValue "reassembly.max_pending_segments" cap)
  else if s.limits.maxBytes = some 0 then .error (.configValue "reassembly.max_pending_bytes" cap)
  else if s.idleTimeout = 0 then
    .error (.configValue "stream.idle_timeout_secs" "Must be at least 1 second")
  else .ok ()

def line (name : String) (value : List Char) : List Char :=
  name.toList ++ " = ".toList ++ value ++ ['\n']

/-- The digits of a number; a document has no room for one above 2⁶³-1. -/
def natText (n : Nat) : Except Fault (List Char) :=
  if n ≤ Toml.maxInteger then .ok (Nat.toDigits 10 n) else .error (.config none)

def natLine (name : String) (n : Nat) : Except Fault (List Char) := do
  return line name (← natText n)

def capLine (name : String) : Option Nat → Except Fault (List Char)
  | none => .ok []
  | some n => natLine name n

/-- The first number without room ends the writing. -/
def render (s : Settings) : Except Fault (List Char) := do
  let segments ← capLine "max_pending_segments" s.limits.maxSegments
  let bytes ← capLine "max_pending_bytes" s.limits.maxBytes
  let timeout ← natLine "idle_timeout_secs" s.idleTimeout
  return "[reassembly]\n".toList ++ segments ++ bytes ++
    line "overflow_policy" (['"'] ++ s.limits.overflow.name.toList ++ ['"']) ++
    "\n[stream]\n".toList ++ timeout ++
    "\n[logging]\n".toList ++
    line "level" (Toml.writeQuoted s.level.toList) ++
    line "json_format" (if s.jsonLog then "true" else "false").toList

def toToml (s : Settings) : Except Fault String := do
  return String.ofList (← s.render)

end Settings
end Reassembly
