import Reassembly.CommandLine.Report
import Reassembly.Settings

/-! Reading, showing, making and checking the file with the settings. -/
namespace Reassembly
namespace Configuration

/-- Whatever keeps the file from being read, it counts as missing. -/
def read (d : Disk) (path : String) : Except Fault Settings :=
  match d.readText path with
  | .error _ => .error (.configNotFound path)
  | .ok text => Settings.ofToml text

def load (d : Disk) (path : String) : Except Failure Settings :=
  match read d path with
  | .error fault => .error (.ofFault ("Failed to load config from " ++ path) fault)
  | .ok s =>
    match s.check with
    | .error fault => .error (.ofFault "Configuration validation failed" fault)
    | .ok _ => .ok s

def cannotWrite (fault : Fault) (d : Disk) : Ending :=
  .failed (.ofFault "Failed to serialize config" fault) [] d

def display (s : Settings) (d : Disk) : Ending :=
  match s.toToml with
  | .error fault => cannotWrite fault d
  | .ok text => {printed := Text.utf8String (text ++ "\n"), disk := d}

def heading : String :=
  "# tcpreasm configuration\n" ++
    "# Omit max_pending_segments / max_pending_bytes for no limit.\n" ++
    "# overflow_policy: \"drop-new\" or \"evict-furthest\"\n\n"

def writeFile (path : String) (content : Bytes) (d : Disk) : Except FileFault Disk :=
  match d.locateFile path with
  | .error cause => .error cause
  | .ok here => if d.isFull here then .error .noSpace else .ok (d.write here content)

/-- Makes a file with the default settings; one that is there is replaced only by force. -/
def generate (path : String) (force : Bool) (d : Disk) : Ending :=
  if d.contains path && !force then
    .failed {context := path ++ " already exists (use --force to overwrite)"} [] d
  else
    match ({} : Settings).toToml with
    | .error fault => cannotWrite fault d
    | .ok text =>
      match writeFile path (Text.utf8String (heading ++ text)) d with
      | .error cause => .failed (.ofFile ("Failed to write config to " ++ path) cause) [] d
      | .ok disk =>
        let made : LogEntry :=
          ⟨.info,"tcpreasm::commands::config","Generated config file: " ++ path,[]⟩
        {printed := Text.utf8String ("Configuration file generated: " ++ path ++ "\n")
         notes := [.entry made], disk}

def capText : Option Nat → String
  | none => "unlimited"
  | some n => toString n

def summary (s : Settings) : String :=
  "Configuration is valid\n" ++
    "  Max pending segments: " ++ capText s.limits.maxSegments ++ "\n" ++
    "  Max pending bytes: " ++ capText s.limits.maxBytes ++ "\n" ++
    "  Overflow policy: " ++ s.limits.overflow.title ++ "\n" ++
    "  Idle timeout: " ++ toString s.idleTimeout ++ "s\n"

def validate (path : String) (d : Disk) : Ending :=
  match load d path with
  | .error failure => .failed failure [] d
  | .ok s => {printed := Text.utf8String (summary s), disk := d}

end Configuration
end Reassembly
