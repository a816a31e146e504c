import Reassembly.CommandLine.Configuration
import Reassembly.CommandLine.Invocation
import Reassembly.CommandLine.Packets
import Reassembly.CommandLine.Replay

/-! A whole run, from the words of a command line to its report. -/
namespace Reassembly
namespace Program

def version : String := "0.3.0"

/-- The commands as one word, which a question about them is answered with. -/
def title (verbs : List Verb) : String := String.intercalate "-" (verbs.map Verb.name)

/-- The texts that are made up from the commands themselves: what answers a question about some
verbs, and the script that completes words for a shell. -/
structure Manual where
  help : List Verb → String
  completions : String → String

def perform (manual : Manual) (command : Command) (s : Settings) (d : Disk) : Ending :=
  match command with
  | .replay path output stats => Replay.run s path output stats d
  | .packets path output stats => Packets.run s path output stats d
  | .display => Configuration.display s d
  | .generate path force => Configuration.generate path force d
  | .validate path => Configuration.validate path d
  | .completions shell => {printed := Text.utf8String (manual.completions shell), disk := d}

def settings (config : Option String) (d : Disk) : Except Failure Settings :=
  match config with
  | none => .ok {}
  | some path => Configuration.load d path

def badLevel (s : Settings) : Failure :=
  {context := "Invalid log level in config: " ++ Text.quote s.level}

/-- Words that ask for nothing that can be done end with status 2. -/
def stopped (manual : Manual) (d : Disk) : Stop → Report
  | .usage => .early 2 "" [] d
  | .help verbs => .early 0 (manual.help verbs) [] d
  | .version verbs => .early 0 (title verbs ++ " " ++ version ++ "\n") [] d

def runWith (manual : Manual) (environment : Option String) (ws : List String) (d : Disk) :
    Report :=
  match Invocation.ofWords environment ws with
  | .error stop => stopped manual d stop
  | .ok i =>
    match settings i.config d with
    | .error failure => .early 1 "" [.text failure.report] d
    | .ok s =>
      match i.level? s with
      | none => .early 1 "" [.text (badLevel s).report] d
      | some threshold => .ofEnding threshold (i.logsJson s) (perform manual i.command s d)

/-- A run that leaves those texts out. -/
def run : Option String → List String → Disk → Report :=
  runWith ⟨fun _ => "",fun _ => ""⟩

end Program
end Reassembly
