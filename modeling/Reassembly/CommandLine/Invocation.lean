import Reassembly.CommandLine.Arguments
import Reassembly.Log.Entry
import Reassembly.Settings

/-! What a command line asks for. -/
namespace Reassembly

inductive Command
  | replay (script : String) (output : Option String) (stats : Bool)
  | packets (dump : String) (output : Option String) (stats : Bool)
  | display
  | generate (path : String) (force : Bool)
  | validate (path : String)
  | completions (shell : String)
  deriving DecidableEq, Repr

structure Invocation where
  command : Command
  config : Option String
  verbose : Nat
  quiet : Bool
  logFormat : String
  deriving DecidableEq, Repr

namespace Command

def of? (verb : Verb) (g : Given) : Option Command :=
  match verb with
  | .replay => (g.value? .operand).map fun path =>
    .replay path (g.value? .output) (g.contains .stats)
  | .packets => (g.value? .operand).map fun path =>
    .packets path (g.value? .output) (g.contains .stats)
  | .display => some .display
  | .generate => some (.generate ((g.value? .output).getD "tcpreasm.toml") (g.contains .force))
  | .validate => (g.value? .operand).map .validate
  | .completions => (g.value? .operand).map .completions
  | .program | .config => none

def paths : Command → List String
  | .replay path output _ => path::output.toList
  | .packets path output _ => path::output.toList
  | .generate path _ => [path]
  | .validate path => [path]
  | .display | .completions _ => []

end Command

namespace Invocation

/-- An option that is common to all commands counts where it was given last, that is, nearest to
the command itself; the environment comes after all of these. -/
def ofWords (environment : Option String) (ws : List String) : Except Stop Invocation := do
  let groups ← Reading.words environment {verbs := [.program], verb := .program} ws
  let givens := (groups.map (·.2)).reverse
  let last (slot : Slot) := givens.findSome? (·.value? slot)
  let verbosity := givens.map (·.count .verbose)
  match groups.getLast?.bind fun (verb,g) => Command.of? verb g with
  | none => .error .usage
  | some command =>
    return {
      command
      config := (last .config).or environment
      verbose := (verbosity.find? (· ≠ 0)).getD 0
      quiet := givens.any (·.contains .quiet)
      logFormat := (last .logFormat).getD "text"}

def paths (i : Invocation) : List String := i.config.toList ++ i.command.paths

/-- The level in force: quiet and verbose come before the settings. -/
def level? (i : Invocation) (s : Settings) : Option Level :=
  if i.quiet then some .error
  else
    match i.verbose with
    | 0 => Level.ofText? s.level
    | 1 => some .debug
    | _ => some .trace

/-- Whether the log is written as JSON; the settings ask for it where the words do not say. -/
def logsJson (i : Invocation) (s : Settings) : Bool :=
  i.logFormat = "json" || (i.logFormat = "text" && s.jsonLog)

end Invocation
end Reassembly
