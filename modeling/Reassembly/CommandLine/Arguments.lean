/-! The words of a command line: which options and operands each command takes, and how the
words are divided among them. Options may stand before or after operands and, where a command
is a group of commands, before the next command as well. -/
namespace Reassembly

inductive Verb
  | program
  | replay
  | packets
  | config
  | display
  | generate
  | validate
  | completions
  deriving DecidableEq, Repr

inductive Slot
  | config
  | verbose
  | logFormat
  | quiet
  | help
  | version
  | output
  | stats
  | force
  | operand
  deriving DecidableEq, Repr

namespace Verb

def name : Verb → String
  | .program => "tcpreasm"
  | .replay => "replay"
  | .packets => "packets"
  | .config => "config"
  | .display => "show"
  | .generate => "generate"
  | .validate => "validate"
  | .completions => "completions"

def commands : Verb → List Verb
  | .program => [.replay,.packets,.config,.completions]
  | .config => [.display,.generate,.validate]
  | _ => []

def commonSlots : List Slot := [.config,.verbose,.logFormat,.quiet,.help,.version]

def slots : Verb → List Slot
  | .replay | .packets => commonSlots ++ [.output,.stats,.operand]
  | .generate => commonSlots ++ [.output,.force]
  | .validate | .completions => commonSlots ++ [.operand]
  | _ => commonSlots

end Verb

namespace Slot

def long : Slot → String
  | .config => "config"
  | .verbose => "verbose"
  | .logFormat => "log-format"
  | .quiet => "quiet"
  | .help => "help"
  | .version => "version"
  | .output => "output"
  | .stats => "stats"
  | .force => "force"
  | .operand => ""

def short? : Slot → Option Char
  | .config => some 'c'
  | .verbose => some 'v'
  | .quiet => some 'q'
  | .help => some 'h'
  | .version => some 'V'
  | .output => some 'o'
  | _ => none

def takesValue : Slot → Bool
  | .config | .logFormat | .output | .operand => true
  | _ => false

end Slot

def logFormats : List String := ["text","json","compact"]

def shells : List String := ["bash","elvish","fish","powershell","zsh"]

/-- Whether a command admits a value; files have to be named. -/
def Verb.admits (verb : Verb) (value : String) : Slot → Bool
  | .config | .output => value ≠ ""
  | .logFormat => logFormats.contains value
  | .operand => if verb = .completions then shells.contains value else value ≠ ""
  | _ => true

abbrev Given := List (Slot × String)

namespace Given

def contains (g : Given) (slot : Slot) : Bool := g.any fun e => e.1 = slot

def value? (g : Given) (slot : Slot) : Option String := g.lookup slot

def count (g : Given) (slot : Slot) : Nat := (g.filter fun e => e.1 = slot).length

end Given

/-- Why the words lead to no command. Questions name the commands that they were put to. -/
inductive Stop
  | usage
  | help (verbs : List Verb)
  | version (verbs : List Verb)
  deriving DecidableEq, Repr

/-- Reading the words for one command. The last slot that takes a value waits, with the value if
there is one, until the next is met or the words end; only then is the value looked at. After
`closed` every word is an operand. -/
structure Reading where
  verbs : List Verb
  verb : Verb
  given : Given := []
  waiting : Option (Slot × Option String) := none
  closed : Bool := false
  deriving DecidableEq, Repr

namespace Reading

/-- Gives a value to a slot; only `verbose` may be given twice. -/
def give (r : Reading) (slot : Slot) (value : String) : Except Stop Reading :=
  if r.verb.admits value slot && (slot = .verbose || !r.given.contains slot) then
    .ok {r with given := r.given ++ [(slot,value)]}
  else .error .usage

def settle (r : Reading) : Except Stop Reading :=
  match r.waiting with
  | none => .ok r
  | some (slot,some value) => {r with waiting := none}.give slot value
  | some (_,none) => .error .usage

def awaitsValue (r : Reading) : Bool :=
  match r.waiting with
  | some (_,none) => true
  | _ => false

def hold (r : Reading) (slot : Slot) (value : Option String) : Except Stop Reading := do
  let r ← r.settle
  return {r with waiting := some (slot,value)}

def attach (r : Reading) (slot : Slot) (value : String) : Except Stop Reading := do
  (← r.settle).give slot value

/-- Gives a slot that takes no value. The two questions are answered at once. -/
def mark (r : Reading) (slot : Slot) : Except Stop Reading := do
  let r ← r.settle
  match slot with
  | .help => .error (.help r.verbs)
  | .version => .error (.version r.verbs)
  | _ => r.give slot ""

def operand (r : Reading) (word : String) : Except Stop Reading :=
  if r.verb.slots.contains .operand then r.hold .operand (some word) else .error .usage

def longOption (r : Reading) (word : List Char) : Except Stop Reading :=
  let name := String.ofList (word.takeWhile (· ≠ '='))
  let rest := word.dropWhile (· ≠ '=')
  match r.verb.slots.find? (fun slot => slot.long = name && slot ≠ .operand) with
  | none => .error .usage
  | some slot =>
    match slot.takesValue, rest with
    | true, _::value => r.attach slot (String.ofList value)
    | true, [] => r.hold slot none
    | false, [] => r.mark slot
    | false, _ => .error .usage

/-- Short options in one word; one that takes a value takes the rest of the word. -/
def shortOptions (r : Reading) : List Char → Except Stop Reading
  | [] => .ok r
  | c::cs =>
    match r.verb.slots.find? (fun slot => slot.short? = some c) with
    | none => .error .usage
    | some slot =>
      if slot.takesValue then
        match cs with
        | [] => r.hold slot none
        | '=' :: value => r.attach slot (String.ofList value)
        | _ => r.attach slot (String.ofList cs)
      else
        match r.mark slot with
        | .error stop => .error stop
        | .ok s => s.shortOptions cs

def word (r : Reading) (w : String) : Except Stop Reading :=
  if r.closed then r.operand w
  else
    match w.toList with
    | ['-','-'] => .ok {r with closed := true}
    | '-' :: '-' :: name => r.longOption name
    | '-' :: c::cs => r.shortOptions (c::cs)
    | _ =>
      match r.waiting with
      | some (slot,none) => .ok {r with waiting := some (slot,some w)}
      | _ => r.operand w

def command? (r : Reading) (w : String) : Option Verb :=
  if r.closed || r.awaitsValue then none else r.verb.commands.find? (fun verb => verb.name = w)

def isHelp (r : Reading) (w : String) : Bool :=
  !r.closed && !r.awaitsValue && r.verb.commands ≠ [] && w = "help"

/-- What has been given, if it can stand together. A configuration file that the environment
names has to have a name, unless the words name another. -/
def finish (r : Reading) (environment : Option String) (hasCommand : Bool) : Except Stop Given := do
  let r ← r.settle
  let g := r.given
  if environment = some "" && !g.contains .config then .error .usage
  else if g.contains .quiet && g.contains .verbose then .error .usage
  else if r.verb.slots.contains .operand && !g.contains .operand then .error .usage
  else if r.verb.commands ≠ [] && !hasCommand then .error .usage
  else return g

/-- The commands that follow a word for help, each in the group of the one before. -/
def helpFor (verbs : List Verb) (verb : Verb) : List String → Stop
  | [] => .help verbs
  | w::ws =>
    match verb.commands.find? (fun v => v.name = w) with
    | some v => helpFor (verbs++[v]) v ws
    | none => if w = "help" && ws = [] && verb.commands ≠ [] then .help verbs else .usage

/-- Divides the words among the commands that they name, the outermost first. -/
def words (environment : Option String) (r : Reading) :
    List String → Except Stop (List (Verb × Given))
  | [] => do return [(r.verb,← r.finish environment false)]
  | w::ws =>
    if r.isHelp w then .error (helpFor r.verbs r.verb ws)
    else
      match r.command? w with
      | some verb => do
        let inner ← words environment {verbs := r.verbs++[verb], verb} ws
        return (r.verb,← r.finish environment true)::inner
      | none => do words environment (← r.word w) ws

end Reading
end Reassembly
