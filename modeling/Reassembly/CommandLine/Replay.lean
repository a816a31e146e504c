import Reassembly.CommandLine.Report
import Reassembly.Script
import Reassembly.Settings

/-! Replaying a script through a receiver. -/
namespace Reassembly

namespace Replay

def entry (level : Level) (message : String) (fields : List (String × LogValue)) : Note :=
  .entry ⟨level,"tcpreasm::commands::replay",message,fields⟩

def load (d : Disk) (path : String) : Except Fault Script :=
  match d.readText path with
  | .error cause => .error (.file cause)
  | .ok text => Script.ofToml text

def loaded (s : Script) : Note :=
  entry .debug "loaded segment script"
    [("initial_seq",.seq s.initial),("entries",.number s.entries.length)]

def ingested (outcomes : List Outcome) : List Note :=
  outcomes.mapIdx fun i outcome =>
    entry .debug "segment ingested" [("index",.number i),("outcome",.text outcome.describe)]

def finished (written : Nat) (r : Receiver) (outcomes : List Outcome) : Note :=
  entry .info "replay finished"
    [("bytes",.number written),("next_seq",.seq r.nextSeq),("pending",.number r.pending.size),
      ("dropped",.number (outcomes.count .dropped))]

/-- The script is read before the output is made ready, and checked after. -/
def run (s : Settings) (path : String) (output : Option String) (stats : Bool) (d : Disk) :
    Ending :=
  match load d path with
  | .error fault => .failed (.ofFault ("Failed to load script " ++ path) fault) [] d
  | .ok script =>
    match Target.create d output with
    | .error cause => .withoutOutput output cause [loaded script] d
    | .ok (target,d) =>
      let fresh := (Receiver.start script.initial s.limits).setSink 0
      let notes := loaded script::Note.ofEvents [.opened script.initial s.limits]
      match script.apply fresh with
      | .error fault => .failed (.ofFault ("Invalid script " ++ path) fault) notes d
      | .ok result =>
        let chunks := (Event.chunks result.events).map (·.2)
        let summary (written : Nat) :=
          finished written result.receiver result.outcomes::
            if stats then [.text result.receiver.report] else []
        (Ending.ofStream target chunks summary d).between
          (notes ++ Note.ofEvents result.events ++ ingested result.outcomes)
          (Note.ofEvents result.receiver.close)

end Replay
end Reassembly
