import Reassembly.Fault

/-! Why a run failed: what it was doing, and the chain of causes, as it is reported. -/
namespace Reassembly

/-- The report of a document that cannot be read breaks off where its details would follow. -/
structure Failure where
  context : String
  causes : List String := []
  breaksOff : Bool := false
  deriving DecidableEq, Repr

namespace Failure

def ofFault (context : String) (fault : Fault) : Failure :=
  {context, causes := fault.message::fault.cause?.toList, breaksOff := fault = .toml}

def ofFile (context : String) (fault : FileFault) : Failure := {context, causes := [fault.message]}

def summary (f : Failure) : String := String.intercalate ": " (f.context::f.causes)

/-- Text whose further lines stand under its first. -/
def indented (margin : String) (text : String) : String :=
  String.intercalate ("\n" ++ margin) (text.splitOn "\n")

def numbered (n : Nat) : List String → List String
  | [] => []
  | cause::causes => ("    " ++ toString n ++ ": " ++ indented "       " cause)::numbered (n+1) causes

/-- A cause that stands alone has no number. -/
def causeLines (f : Failure) : List String :=
  match f.causes with
  | [cause] => if f.breaksOff then numbered 0 [cause] else ["    " ++ indented "    " cause]
  | causes => numbered 0 causes

def report (f : Failure) : String :=
  let causes := match f.causes with
    | [] => []
    | _ => ["","Caused by:"] ++ f.causeLines
  String.intercalate "\n" (("Error: " ++ f.context)::causes) ++ if f.breaksOff then "" else "\n"

end Failure
end Reassembly
