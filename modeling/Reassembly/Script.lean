import Reassembly.Fault
import Reassembly.Receiver.Ingest
import Reassembly.Text.Blank
import Reassembly.Toml.Fields

/-! Scripts: a starting position and a list of segments and resets, written in TOML. A script is
checked as a whole before any of it is carried out. -/
namespace Reassembly

structure ScriptEntry where
  seq : Option SeqNum := none
  text : Option String := none
  hex : Option String := none
  reset : Option SeqNum := none
  deriving DecidableEq, Repr

inductive ScriptStep
  | segment (seq : SeqNum) (payload : Bytes)
  | reset (seq : SeqNum)
  deriving DecidableEq, Repr

namespace ScriptEntry

/-- The step that the entry at `index` asks for, or the first thing that is wrong with it. -/
def toStep (e : ScriptEntry) (index : Nat) : Except Fault ScriptStep :=
  match e.reset with
  | some seq =>
    if e.seq.isSome || e.text.isSome || e.hex.isSome then
      .error (.script index "reset entries take no other fields")
    else .ok (.reset seq)
  | none =>
    match e.seq with
    | none => .error (.script index "missing 'seq'")
    | some seq =>
      match e.text, e.hex with
      | some text, none => .ok (.segment seq (Text.utf8String text))
      | none, some hex =>
        match Hex.decodeText (Text.trim hex.toList) with
        | .ok payload => .ok (.segment seq payload)
        | .error cause => .error (.hex cause)
      | some _, some _ => .error (.script index "give either 'text' or 'hex', not both")
      | none, none => .error (.script index "missing 'text' or 'hex' payload")

def fieldNames : List String := ["seq","text","hex","reset"]

/-- A table may have no other fields, and an array must give all of them. -/
def isShaped : Toml.Value → Bool
  | .table _ es => es.all fun e => fieldNames.contains e.1
  | .array xs => fieldNames.length ≤ xs.length
  | _ => false

def seqOf? (v : Toml.Value) : Option SeqNum := (v.nat? 0xffffffff).map UInt32.ofNat

def ofValue? (v : Toml.Value) : Option ScriptEntry := do
  if !isShaped v then none
  let [seq,text,hex,reset] ← v.fields? fieldNames | none
  return {
    seq := ← Toml.optional seqOf? seq
    text := ← Toml.optional (·.string?) text
    hex := ← Toml.optional (·.string?) hex
    reset := ← Toml.optional seqOf? reset}

end ScriptEntry

structure Script where
  initial : SeqNum
  entries : List ScriptEntry
  deriving DecidableEq, Repr

namespace Script

def ofEntries? (es : Toml.Entries) : Option Script := do
  let initial ← ScriptEntry.seqOf? (← es.get? "initial_seq")
  let values ← (Toml.optional (·.list?) (es.get? "segment"))
  return {initial, entries := ← (values.getD []).mapM ScriptEntry.ofValue?}

def ofToml (text : String) : Except Fault Script :=
  match (Toml.read? text).bind ofEntries? with
  | some s => .ok s
  | none => .error .toml

/-- The steps of some entries, of which the first is at `index`. -/
def stepsFrom (index : Nat) : List ScriptEntry → Except Fault (List ScriptStep)
  | [] => .ok []
  | e::es =>
    match e.toStep index with
    | .error fault => .error fault
    | .ok step =>
      match stepsFrom (index+1) es with
      | .error fault => .error fault
      | .ok steps => .ok (step::steps)

def steps (s : Script) : Except Fault (List ScriptStep) := stepsFrom 0 s.entries

structure Result where
  outcomes : List Outcome
  receiver : Receiver
  events : List Event
  deriving DecidableEq, Repr

def perform (r : Receiver) : List ScriptStep → Result
  | [] => ⟨[],r,[]⟩
  | .segment seq payload::rest =>
    let (outcome,s,events) := r.ingest seq payload
    let result := perform s rest
    ⟨outcome::result.outcomes,result.receiver,events++result.events⟩
  | .reset seq::rest =>
    let (s,events) := r.reset seq
    let result := perform s rest
    ⟨result.outcomes,result.receiver,events++result.events⟩

def apply (s : Script) (r : Receiver) : Except Fault Result :=
  match s.steps with
  | .error fault => .error fault
  | .ok steps => .ok (perform r steps)

end Script
end Reassembly
