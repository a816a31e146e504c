import Reassembly.Packet.Segment
import Reassembly.Receiver.Ingest

/-! One direction of one connection: a receiver seeded by the first segment seen, and whether
the end of the stream has been announced. -/
namespace Reassembly

inductive ConnectionEvent
  | opened (flow : Flow) (initial : SeqNum) (syn : Bool)
  | finished (flow : Flow) (fin rst : Bool)
  | receiver (event : Event)
  deriving DecidableEq, Repr

namespace ConnectionEvent

def chunks (events : List ConnectionEvent) : List (Nat × Bytes) :=
  events.filterMap fun
    | .receiver event => event.chunk?
    | _ => none

@[simp] theorem chunks_nil : chunks [] = [] := rfl
@[simp] theorem chunks_append (es fs : List ConnectionEvent) : chunks (es++fs) = chunks es ++ chunks fs :=
  List.filterMap_append

end ConnectionEvent

structure Connection where
  flow : Flow
  receiver : Receiver
  finished : Bool := false
  deriving DecidableEq, Repr

namespace Connection

/-- The position of the first data byte of a segment; a SYN takes up one position. -/
def dataStart (s : Segment) : SeqNum := if s.isSyn then s.seq.advance 1 else s.seq

/-- A connection that expects the data of its first segment, which is not taken in. -/
def start (first : Segment) (limits : Limits) : Connection × List ConnectionEvent :=
  let initial := dataStart first
  (⟨first.flow,Receiver.start initial limits,false⟩,
    [.opened first.flow initial first.isSyn,.receiver (.opened initial limits)])

def setSink (c : Connection) (sink : Nat) : Connection := {c with receiver := c.receiver.setSink sink}

/-- Takes in a segment. A SYN moves the receiver to its own position first, and FIN or RST
mark the connection as finished; neither changes how the data is treated. -/
def process (c : Connection) (s : Segment) : Outcome × Connection × List ConnectionEvent :=
  let ends := s.isFin || s.isRst
  let noted := if ends then [ConnectionEvent.finished c.flow s.isFin s.isRst] else []
  let (moved,moves) := if s.isSyn then c.receiver.reset (dataStart s) else (c.receiver,[])
  let (outcome,receiver,events) := moved.ingest (dataStart s) s.payload
  (outcome,{c with receiver, finished := c.finished || ends},
    noted ++ (moves++events).map .receiver)

/-- Whether nothing has been seen for `timeout`, when the last segment was `idle` ago. -/
def isIdle (idle timeout : Nat) : Bool := timeout ≤ idle

def isExpired (c : Connection) (idle timeout : Nat) : Bool := c.finished || isIdle idle timeout

end Connection
end Reassembly
