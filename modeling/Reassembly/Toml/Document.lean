import Reassembly.Toml.Statement

/-! The tables that the statements of a document build. -/
namespace Reassembly.Toml

/-- Changes the entries of the table at a path of headers: of an array of tables the last
element is meant, and a table that is missing is implied. -/
def Entries.within : Path → (Entries → Option Entries) → Entries → Option Entries
  | [], change, es => change es
  | key::path, change, es =>
    match es.get? key with
    | none => (Entries.within path change []).map fun sub => es++[(key,.table .implied sub)]
    | some (.table .braces _) => none
    | some (.table origin sub) =>
      (Entries.within path change sub).map fun sub => es.replace key (.table origin sub)
    | some (.tables elements) =>
      match elements.getLast? with
      | some last =>
        (Entries.within path change last).map fun last =>
          es.replace key (.tables (elements.dropLast++[last]))
      | none => none
    | some _ => none

/-- Opens a table that is new or has only been implied so far. -/
def Entries.openTable (key : String) (es : Entries) : Option Entries :=
  match es.get? key with
  | none => some (es++[(key,.table .header [])])
  | some (.table .implied sub) => some (es.replace key (.table .header sub))
  | some _ => none

def Entries.addElement (key : String) (es : Entries) : Option Entries :=
  match es.get? key with
  | none => some (es++[(key,.tables [[]])])
  | some (.tables elements) => some (es.replace key (.tables (elements++[[]])))
  | some _ => none

def Entries.carryOut (current : Path) : List Statement → Entries → Option Entries
  | [], es => some es
  | .assign path value::rest, es =>
    (es.within current (Entries.assign path value)).bind (Entries.carryOut current rest)
  | .header path::rest, es =>
    match path.getLast? with
    | none => none
    | some key =>
      (es.within path.dropLast (Entries.openTable key)).bind (Entries.carryOut path rest)
  | .element path::rest, es =>
    match path.getLast? with
    | none => none
    | some key =>
      (es.within path.dropLast (Entries.addElement key)).bind (Entries.carryOut path rest)

/-- The entries of a document. A byte order mark in front of it is ignored. -/
def read? (text : String) : Option Entries :=
  let cs := match text.toList with
    | '\ufeff' :: cs => cs
    | cs => cs
  (readStatements? cs).bind fun statements => Entries.carryOut [] statements []

end Reassembly.Toml
