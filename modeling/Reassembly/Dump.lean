import Reassembly.Connection
import Reassembly.Text.Blank

/-! Dumps: one packet in hexadecimal on each line, blank lines and comments apart. The first
segment found chooses the flow to follow. Segments of other flows are passed over, and a SYN on
the flow starts it afresh once its connection can be given up. -/
namespace Reassembly

inductive DumpEvent
  | following (flow : Flow)
  | unreadable (line : Nat) (fault : Fault)
  | otherFlow (line : Nat) (flow : Flow)
  | restarted (line : Nat) (flow : Flow)
  | processed (line : Nat) (seq : SeqNum) (len : Nat) (outcome : Outcome)
  | connection (event : ConnectionEvent)
  deriving DecidableEq, Repr

namespace DumpEvent

def data? : DumpEvent → Option Bytes
  | .connection (.receiver event) => event.chunk?.map (·.2)
  | _ => none

def chunks (events : List DumpEvent) : List Bytes := events.filterMap data?

@[simp] theorem chunks_nil : chunks [] = [] := rfl
@[simp] theorem chunks_append (es fs : List DumpEvent) : chunks (es++fs) = chunks es ++ chunks fs :=
  List.filterMap_append

end DumpEvent

/-- The reader of a dump: the connection that it follows, if it has found one, and how many
packets it has passed over. -/
structure Follower where
  limits : Limits
  idleTimeout : Nat
  connection : Option Connection := none
  skipped : Nat := 0
  deriving DecidableEq, Repr

namespace Follower

def openConnection (f : Follower) (first : Segment) : Connection × List DumpEvent :=
  let (c,events) := Connection.start first f.limits
  (c.setSink 0,events.map .connection)

/-- The connection that is followed, which is that of the segment at hand if there was none. -/
def current (f : Follower) (s : Segment) : Connection × List DumpEvent :=
  match f.connection with
  | some c => (c,[])
  | none =>
    let (c,events) := f.openConnection s
    (c,.following s.flow::events)

def close (c : Connection) : List DumpEvent := c.receiver.close.map (.connection ∘ .receiver)

/-- The connection that a segment of its flow belongs to: a fresh one for a SYN that follows the
end of the last. No time passes between the lines of a dump. -/
def renew (f : Follower) (c : Connection) (line : Nat) (s : Segment) : Connection × List DumpEvent :=
  if s.isSyn && c.isExpired 0 f.idleTimeout then
    let (d,events) := f.openConnection s
    (d,.restarted line s.flow::events ++ close c)
  else (c,[])

def take (f : Follower) (line : Nat) (s : Segment) : Follower × List DumpEvent :=
  let (c,found) := f.current s
  if s.flow = c.flow then
    let (d,renewed) := f.renew c line s
    let (outcome,e,events) := d.process s
    ({f with connection := some e},
      found ++ renewed ++ events.map .connection ++ [.processed line s.seq s.payload.length outcome])
  else ({f with connection := some c, skipped := f.skipped+1},found++[.otherFlow line s.flow])

/-- Whether a line, without the white space around it, holds no packet. -/
def isRemark (text : List Char) : Bool := text.isEmpty || text.head? = some '#'

/-- Reads a line. One that is neither a remark nor hexadecimal is an error; a packet that holds
no segment is passed over. -/
def readLine (f : Follower) (number : Nat) (line : List Char) :
    Except HexFault (Follower × List DumpEvent) :=
  let text := Text.trim line
  if isRemark text then .ok (f,[])
  else
    match Hex.decodeText text with
    | .error fault => .error fault
    | .ok packet =>
      match Segment.decode packet with
      | .error fault => .ok ({f with skipped := f.skipped+1},[.unreadable number fault])
      | .ok s => .ok (f.take number s)

end Follower

namespace Dump

/-- The lines of a text; a line break at its end begins no further line. -/
def lines (cs : List Char) : List (List Char) :=
  cs.foldr
    (fun c ls =>
      if c = '\n' then []::ls
      else
        match ls with
        | [] => [[c]]
        | l::ls => (c::l)::ls)
    []

structure Result where
  fault : Option (Nat × HexFault)
  follower : Follower
  events : List DumpEvent
  deriving DecidableEq, Repr

def Result.chunks (r : Result) : List Bytes := DumpEvent.chunks r.events

/-- Reads lines, of which the first has the number `number`, up to one that is not hexadecimal. -/
def readFrom (f : Follower) (number : Nat) : List (List Char) → Result
  | [] => ⟨none,f,[]⟩
  | l::ls =>
    match f.readLine number l with
    | .error fault => ⟨some (number,fault),f,[]⟩
    | .ok (g,events) =>
      let r := readFrom g (number+1) ls
      {r with events := events++r.events}

/-- Reads on after a result, unless a line has ended it. -/
def Result.andThen (r : Result) (next : Follower → Result) : Result :=
  match r.fault with
  | some _ => r
  | none =>
    let s := next r.follower
    {s with events := r.events++s.events}

theorem readFrom_append (f : Follower) (number : Nat) (xs ys : List (List Char)) :
    readFrom f number (xs++ys) =
      (readFrom f number xs).andThen (readFrom · (number+xs.length) ys) := by
  induction xs generalizing f number with
  | nil => simp [readFrom,Result.andThen]
  | cons x xs ih =>
    cases h : f.readLine number x with
    | error fault => simp [readFrom,Result.andThen,h]
    | ok p =>
      simp only [List.cons_append,readFrom,h,ih,List.length_cons]
      cases hf : (readFrom p.1 (number+1) xs).fault <;>
        simp [Result.andThen,hf,Nat.add_assoc,Nat.add_comm 1]

def read (limits : Limits) (idleTimeout : Nat) (text : List Char) : Result :=
  readFrom {limits, idleTimeout} 1 (lines text)

end Dump
end Reassembly
