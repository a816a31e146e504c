import Reassembly.CommandLine.Report
import Reassembly.Settings

/-! Putting one direction of a dump back together. -/
namespace Reassembly
namespace Packets

def entry (level : Level) (message : String) (fields : List (String × LogValue)) : Note :=
  .entry ⟨level,DumpEvent.logTarget,message,fields⟩

def finished (written : Nat) (f : Follower) (c : Connection) : Note :=
  entry .info "packets finished"
    [("bytes",.number written),("skipped",.number f.skipped),("finished",.flag c.finished),
      ("pending",.number c.receiver.pending.size)]

/-- What is noted when the reader of a dump is given up. -/
def closed (f : Follower) : List Note :=
  match f.connection with
  | none => []
  | some c => Note.ofDumpEvents (Follower.close c)

def summary (written : Nat) (f : Follower) (stats : Bool) : List Note :=
  match f.connection with
  | none => [entry .warn "no TCP packets found" []]
  | some c =>
    finished written f c::if stats then [.text c.receiver.report] else []

def invalidLine (path : String) (line : Nat) (cause : HexFault) : Failure :=
  {context := path ++ ":" ++ toString line ++ ": invalid hex", causes := [cause.message]}

/-- A line that is not hexadecimal ends the run; what has been handed on by then stays written. -/
def run (s : Settings) (path : String) (output : Option String) (stats : Bool) (d : Disk) :
    Ending :=
  match d.readText path with
  | .error cause => .failed (.ofFile ("Failed to read " ++ path) cause) [] d
  | .ok text =>
    match Target.create d output with
    | .error cause => .withoutOutput output cause [] d
    | .ok (target,d) =>
      let result := Dump.read s.limits s.idleTimeout text.toList
      let ending := match result.fault with
        | some (line,cause) =>
          {Ending.ofStream target result.chunks (fun _ => []) d with
            failure := some (invalidLine path line cause)}
        | none =>
          Ending.ofStream target result.chunks (summary · result.follower stats) d
      ending.between (Note.ofDumpEvents result.events) (closed result.follower)

end Packets
end Reassembly
