/-! What a TOML document holds. -/
namespace Reassembly.Toml

/-- How a table came to be, which decides how it may still grow: written in braces, opened by
a header, implied by the header of a table inside it, or made by a dotted key. -/
inductive Origin
  | braces
  | header
  | implied
  | dotted
  deriving DecidableEq, Repr

/-- Numbers with a fraction and points in time are kept as they were written. -/
inductive Value
  | string (s : String)
  | integer (n : Int)
  | float (text : String)
  | boolean (b : Bool)
  | dateTime (text : String)
  | array (xs : List Value)
  | table (origin : Origin) (entries : List (String × Value))
  | tables (elements : List (List (String × Value)))

abbrev Entries := List (String × Value)

namespace Entries

def get? (key : String) : Entries → Option Value
  | [] => none
  | e::es => if e.1 = key then some e.2 else get? key es

def replace (key : String) (value : Value) : Entries → Entries
  | [] => []
  | e::es => if e.1 = key then (key,value)::es else e::replace key value es

end Entries
end Reassembly.Toml
