import Reassembly.Log.Entry

/-! Entries as lines: JSON objects for programs, plain text for people. -/
namespace Reassembly
namespace LogValue

/-- A control character by its number, as JSON writes it. -/
def escapeControl (n : Nat) : List Char :=
  "\\u00".toList ++ [Nat.digitChar (n/16),Nat.digitChar (n%16)]

def escapeChar (c : Char) : List Char :=
  if c = '"' || c = '\\' then ['\\',c]
  else if c = '\n' then ['\\','n']
  else if c = '\r' then ['\\','r']
  else if c = '\t' then ['\\','t']
  else if c.toNat < 32 then escapeControl c.toNat
  else [c]

def quoted (s : String) : String :=
  String.ofList (['"'] ++ s.toList.flatMap escapeChar ++ ['"'])

def json : LogValue → String
  | .text s => quoted s
  | .number n => toString n
  | .flag b => if b then "true" else "false"

def plain : LogValue → String
  | .text s => s
  | v => v.json

end LogValue

namespace LogEntry

def json (e : LogEntry) : String :=
  let fields := ("message",LogValue.text e.message)::e.fields
  "\x7b\"level\":" ++ LogValue.quoted e.level.name ++ ",\"fields\":\x7b" ++
    String.intercalate "," (fields.map fun (name,v) => LogValue.quoted name ++ ":" ++ v.json) ++
    "\x7d,\"target\":" ++ LogValue.quoted e.target ++ "\x7d"

def plain (e : LogEntry) : String :=
  e.level.name ++ " " ++ e.target ++ ": " ++ e.message ++
    String.join (e.fields.map fun (name,v) => " " ++ name ++ "=" ++ v.plain)

end LogEntry
end Reassembly
