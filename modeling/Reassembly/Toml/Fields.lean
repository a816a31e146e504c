import Reassembly.Toml.Document

/-! Values taken as the fields of a record. A record is written as a table, or as an array that
gives its fields in order. -/
namespace Reassembly.Toml

namespace Value

def nat? (bound : Nat) : Value → Option Nat
  | .integer n => if 0 ≤ n && n ≤ bound then some n.toNat else none
  | _ => none

def string? : Value → Option String
  | .string s => some s
  | _ => none

def isHollow : Value → Bool
  | .array xs => xs.isEmpty
  | .table _ es => es.isEmpty
  | .tables elements => elements.isEmpty
  | _ => false

/-- The name of one of several choices: a text, or a table with that one key, under which
nothing stands. -/
def choice? : Value → Option String
  | .string s => some s
  | .table _ [(name,v)] => if v.isHollow then some name else none
  | _ => none

def boolean? : Value → Option Bool
  | .boolean b => some b
  | _ => none

def list? : Value → Option (List Value)
  | .array xs => some xs
  | .tables elements => some (elements.map (.table .header))
  | _ => none

/-- The fields with the given names, each as far as it is there. A point in time counts as a
record in which none of them is. -/
def fields? (names : List String) (v : Value) : Option (List (Option Value)) :=
  match v with
  | .table _ es => some (names.map fun name => Entries.get? name es)
  | .dateTime _ => some (names.map fun _ => none)
  | v => v.list?.map fun xs => names.zipIdx.map fun (_,i) => xs[i]?

end Value

def optional {α : Type} (read : Value → Option α) : Option Value → Option (Option α)
  | none => some none
  | some v => (read v).map some

end Reassembly.Toml
