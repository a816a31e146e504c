/-! Log entries and their levels, from errors, which are always kept, to the finest trace. -/
namespace Reassembly

inductive Level
  | error
  | warn
  | info
  | debug
  | trace
  deriving DecidableEq, Repr

namespace Level

def all : List Level := [.error,.warn,.info,.debug,.trace]

def rank : Level → Nat
  | .error => 1
  | .warn => 2
  | .info => 3
  | .debug => 4
  | .trace => 5

def name : Level → String
  | .error => "ERROR"
  | .warn => "WARN"
  | .info => "INFO"
  | .debug => "DEBUG"
  | .trace => "TRACE"

def isKept (threshold l : Level) : Bool := l.rank ≤ threshold.rank

/-- A level by its number, which may have a plus sign and zeros in front. -/
def ofNumber? (cs : List Char) : Option Level :=
  let digits := match cs with
    | '+' :: rest => rest
    | _ => cs
  match digits.dropWhile (· = '0') with
  | ['1'] => some .error
  | ['2'] => some .warn
  | ['3'] => some .info
  | ['4'] => some .debug
  | ['5'] => some .trace
  | _ => none

/-- A level by its name; case does not matter. -/
def ofName? (cs : List Char) : Option Level :=
  all.find? fun l => l.name.toList = cs.map Char.toUpper

def ofText? (text : String) : Option Level := (ofNumber? text.toList).or (ofName? text.toList)

theorem isKept_error (threshold : Level) : isKept threshold .error = true := by
  cases threshold <;> rfl

theorem ofText?_name (l : Level) : ofText? l.name = some l := by
  cases l <;> decide

end Level

inductive LogValue
  | text (s : String)
  | number (n : Nat)
  | flag (b : Bool)
  deriving DecidableEq, Repr

structure LogEntry where
  level : Level
  target : String
  message : String
  fields : List (String × LogValue) := []
  deriving DecidableEq, Repr

end Reassembly
