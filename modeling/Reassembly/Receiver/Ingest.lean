import Reassembly.Receiver.Drain

/-! Taking segments in, moving the next position, and runs of such operations. -/
namespace Reassembly
namespace Receiver

def countSegment (r : Receiver) : Receiver :=
  {r with stats := {r.stats with segments := r.stats.segments+1}}

def countDuplicate (r : Receiver) : Receiver :=
  {r with stats := {r.stats with duplicates := r.stats.duplicates+1}}

def countTrimmed (r : Receiver) : Receiver :=
  {r with stats := {r.stats with trimmed := r.stats.trimmed+1}}

def countBuffered (r : Receiver) : Receiver :=
  {r with stats := {r.stats with buffered := r.stats.buffered+1}}

def countDropped (r : Receiver) : Receiver :=
  {r with stats := {r.stats with overflowDrops := r.stats.overflowDrops+1}}

def deliverOrStore (r : Receiver) (seq : SeqNum) (data : Bytes) (trimmed : Bool) :
    Outcome × Receiver × List Event :=
  if seq = r.nextSeq then
    let (s,events) := r.deliver data
    (.delivered trimmed,s,events)
  else
    match r.store seq data with
    | (.inserted,s,events) => (.buffered trimmed,s.countBuffered,events)
    | (.replaced,s,events) => (.buffered trimmed,s.countBuffered,events)
    | (.kept,s,events) => (.duplicate,s.countDuplicate,events)
    | (.rejected,s,events) =>
      (.dropped,s.countDropped,events++[.refused seq data.length s.pending.size s.pendingBytes])

/-- Judges a segment against the next position: wholly behind it, reaching back behind it, or
starting at or after it. -/
def place (r : Receiver) (seq : SeqNum) (data : Bytes) : Outcome × Receiver × List Event :=
  if SeqNum.compare (seq.advance data.length) r.nextSeq = .before then
    (.duplicate,r.countDuplicate,[.retransmitted seq data.length r.nextSeq])
  else if SeqNum.compare seq r.nextSeq = .before then
    let covered := SeqNum.distance seq r.nextSeq
    let rest := data.drop covered
    if rest.isEmpty then (.duplicate,r.countDuplicate,[])
    else
      let (outcome,s,events) := r.countTrimmed.deliverOrStore r.nextSeq rest true
      (outcome,s,.trimmed seq covered r.nextSeq::events)
  else r.deliverOrStore seq data false

/-- Takes in one segment; one without data is not counted. -/
def ingest (r : Receiver) (seq : SeqNum) (data : Bytes) : Outcome × Receiver × List Event :=
  if data.isEmpty then (.empty,r,[])
  else
    let (outcome,s,events) := r.countSegment.place seq data
    let (t,rest) := s.drain
    (outcome,t,events++rest)

/-- Moves the next position; what waits stays as it is. -/
def reset (r : Receiver) (seq : SeqNum) : Receiver × List Event :=
  ({r with nextSeq := seq},[.moved r.nextSeq seq r.pending.size])

def setSink (r : Receiver) (sink : Nat) : Receiver := {r with sink := some sink}

def clearSink (r : Receiver) : Receiver := {r with sink := none}

/-- What is noted when a receiver is given up with data still waiting. -/
def close (r : Receiver) : List Event :=
  if r.pending.size = 0 then [] else [.released r.pending.size r.pendingBytes]

inductive Op
  | ingest (seq : SeqNum) (data : Bytes)
  | reset (seq : SeqNum)
  | setSink (sink : Nat)
  | clearSink
  deriving DecidableEq, Repr

structure Step where
  outcome : Option Outcome
  receiver : Receiver
  events : List Event
  deriving DecidableEq, Repr

def step (r : Receiver) : Op → Step
  | .ingest seq data =>
    let (outcome,s,events) := r.ingest seq data
    ⟨some outcome,s,events⟩
  | .reset seq =>
    let (s,events) := r.reset seq
    ⟨none,s,events⟩
  | .setSink sink => ⟨none,r.setSink sink,[]⟩
  | .clearSink => ⟨none,r.clearSink,[]⟩

def steps (r : Receiver) : List Op → List Step
  | [] => []
  | op::ops => r.step op::(r.step op).receiver.steps ops

def run (r : Receiver) : List Op → Receiver
  | [] => r
  | op::ops => (r.step op).receiver.run ops

theorem run_append (r : Receiver) (xs ys : List Op) : r.run (xs++ys) = (r.run xs).run ys := by
  induction xs generalizing r with
  | nil => rfl
  | cons x xs ih => exact ih _

end Receiver
end Reassembly
