import Reassembly.CommandLine.Failure
import Reassembly.CommandLine.Output
import Reassembly.Log.Stream

/-! What a run shows of itself: its exit status, what it printed, what it noted on the side, and
the disk that it leaves. -/
namespace Reassembly

/-- What is noted on the side, in order: entries of the log, and text. -/
inductive Note
  | entry (e : LogEntry)
  | text (s : String)
  deriving DecidableEq, Repr

namespace Note

def isKept (threshold : Level) : Note → Bool
  | .entry e => threshold.isKept e.level
  | .text _ => true

def log (notes : List Note) : List LogEntry := notes.filterMap fun
  | .entry e => some e
  | .text _ => none

def texts (notes : List Note) : String := String.join (notes.filterMap fun
  | .entry _ => none
  | .text s => some s)

def ofEvents (events : List Event) : List Note := (events.filterMap Event.entry?).map .entry

def ofDumpEvents (events : List DumpEvent) : List Note :=
  (events.filterMap DumpEvent.entry?).map .entry

end Note

structure Ending where
  failure : Option Failure := none
  printed : Bytes := []
  notes : List Note := []
  disk : Disk
  deriving DecidableEq, Repr

namespace Ending

def failed (failure : Failure) (notes : List Note) (d : Disk) : Ending :=
  {failure := some failure, notes, disk := d}

def withoutOutput (output : Option String) (cause : FileFault) (notes : List Note) (d : Disk) :
    Ending :=
  failed (.ofFile ("Failed to create output file " ++ output.getD "") cause) notes d

/-- A command that has handed on a stream: its size is told once all of it is written. -/
def ofStream (target : Target) (chunks : List Bytes) (summary : Nat → List Note) (d : Disk) :
    Ending :=
  let full := target.isFull d
  let e : Ending := {printed := target.printed chunks.flatten, disk := target.store d chunks.flatten}
  match (Buffer.ofChunks full chunks).finish full with
  | .error context => {e with failure := some (.ofFile context .noSpace)}
  | .ok written => {e with notes := summary written}

def between (before after : List Note) (e : Ending) : Ending :=
  {e with notes := before ++ e.notes ++ after}

end Ending

structure Report where
  exit : Nat
  printed : Bytes
  notes : List Note
  disk : Disk
  json : Bool
  deriving DecidableEq, Repr

namespace Report

/-- A run that was over before its log began. -/
def early (exit : Nat) (printed : String) (notes : List Note) (disk : Disk) : Report :=
  ⟨exit,Text.utf8String printed,notes,disk,false⟩

/-- A failure is logged before it is reported. -/
def ofEnding (threshold : Level) (json : Bool) (e : Ending) : Report :=
  match e.failure with
  | none => ⟨0,e.printed,e.notes.filter (Note.isKept threshold),e.disk,json⟩
  | some failure =>
    let fatal := Note.entry ⟨.error,"tcpreasm","Fatal error: " ++ failure.summary,[]⟩
    let notes := e.notes ++ [fatal,.text failure.report]
    ⟨1,e.printed,notes.filter (Note.isKept threshold),e.disk,json⟩

end Report
end Reassembly
