import Reassembly.Toml.Scalar

/-! A TOML document as the list of its statements: headers that open a table, headers that add
an element to an array of tables, and assignments. -/
namespace Reassembly.Toml

abbrev Path := List String

inductive Statement
  | header (path : Path)
  | element (path : Path)
  | assign (path : Path) (value : Value)

/-- Adds a value under a dotted key. The last key must be new, and the table it goes into must
have been made by dotted keys, if it is not the one that is open. -/
def Entries.assign : Path → Value → Entries → Option Entries
  | [], _, _ => none
  | [key], value, es => if (es.get? key).isSome then none else some (es++[(key,value)])
  | key::path, value, es =>
    match es.get? key with
    | none => (Entries.assign path value []).map fun sub => es++[(key,.table .dotted sub)]
    | some (.table origin sub) =>
      if origin = .dotted || (origin = .implied && 1 < path.length) then
        (Entries.assign path value sub).map fun sub => es.replace key (.table origin sub)
      else none
    | some (.tables elements) =>
      match elements.getLast? with
      | some last =>
        if 1 < path.length then
          (Entries.assign path value last).map fun last =>
            es.replace key (.tables (elements.dropLast++[last]))
        else none
      | none => none
    | some _ => none

def Entries.ofPairs : List (Path × Value) → Entries → Option Entries
  | [], es => some es
  | (path,value)::pairs, es => (es.assign path value).bind (Entries.ofPairs pairs)

def isBareKeyChar (c : Char) : Bool := c.isAlphanum || c = '-' || c = '_'

def readKeyPart? (cs : List Char) : Option (String × List Char) :=
  if cs.head? = some '"' || cs.head? = some '\'' then
    (readQuotedKey? cs).map fun (text,rest) => (String.ofList text,rest)
  else
    let word := cs.takeWhile isBareKeyChar
    if word.isEmpty then none else some (String.ofList word,cs.dropWhile isBareKeyChar)

def readKey? : (parts : Nat) → List Char → Option (Path × List Char)
  | 0, _ => none
  | parts+1, cs =>
    match readKeyPart? (dropBlanks cs) with
    | none => none
    | some (part,rest) =>
      match dropBlanks rest with
      | '.' :: rest => (readKey? parts rest).map fun (path,rest) => (part::path,rest)
      | rest => some ([part],rest)

/-- The most parts that a key may have, and the most brackets or braces inside one another. -/
def nestingLimit : Nat := 79

/-- The values up to the closing bracket. A comma may stand behind the last one. -/
def readElements? (item : List Char → Option (Value × List Char)) (cs : List Char) :
    Option (List Value × List Char) :=
  let start := skipGaps false cs
  if start.head? = some ']' then some ([],start.tail)
  else
    match item start with
    | none => none
    | some (value,rest) =>
      match skipGaps false rest with
      | ',' :: rest =>
        if rest.length < cs.length then
          (readElements? item rest).map fun (values,rest) => (value::values,rest)
        else none
      | ']' :: rest => some ([value],rest)
      | _ => none
termination_by cs.length

/-- The assignments up to the closing brace, on one line and without a comma behind the last. -/
def readPairs? (item : List Char → Option (Value × List Char)) (cs : List Char) :
    Option (List (Path × Value) × List Char) :=
  match readKey? nestingLimit cs with
  | some (path,'=' :: rest) =>
    match item (dropBlanks rest) with
    | none => none
    | some (value,rest) =>
      match dropBlanks rest with
      | ',' :: rest =>
        if rest.length < cs.length then
          (readPairs? item rest).map fun (pairs,rest) => ((path,value)::pairs,rest)
        else none
      | '\x7d' :: rest => some ([(path,value)],rest)
      | _ => none
  | _ => none
termination_by cs.length

def readValue? : (depth : Nat) → List Char → Option (Value × List Char)
  | depth+1, '[' :: rest =>
    (readElements? (readValue? depth) rest).map fun (values,rest) => (.array values,rest)
  | depth+1, '\x7b' :: rest =>
    match dropBlanks rest with
    | '\x7d' :: rest => some (.table .braces [],rest)
    | rest =>
      match readPairs? (readValue? depth) rest with
      | none => none
      | some (pairs,rest) => (Entries.ofPairs pairs []).map fun es => (.table .braces es,rest)
  | _, cs => readScalar? cs

/-- A header or an assignment, without the end of its line. -/
def readStatement? : List Char → Option (Statement × List Char)
  | '[' :: '[' :: rest =>
    match readKey? nestingLimit rest with
    | some (path,']' :: ']' :: rest) => some (.element path,rest)
    | _ => none
  | '[' :: rest =>
    match readKey? nestingLimit rest with
    | some (path,']' :: rest) => some (.header path,rest)
    | _ => none
  | cs =>
    match readKey? nestingLimit cs with
    | some (path,'=' :: rest) =>
      (readValue? nestingLimit (dropBlanks rest)).map fun (value,rest) => (.assign path value,rest)
    | _ => none

def readStatements? (cs : List Char) : Option (List Statement) :=
  let start := skipGaps false cs
  if start.isEmpty then some []
  else
    match readStatement? start with
    | none => none
    | some (statement,rest) =>
      match endLine? rest with
      | none => none
      | some rest =>
        if rest.length < cs.length then (readStatements? rest).map (statement::·) else none
termination_by cs.length

end Reassembly.Toml
