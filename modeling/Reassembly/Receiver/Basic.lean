import Reassembly.Limits
import Reassembly.Pending

/-! The receiving end of a stream: the next position to hand on, the payloads that wait for
theirs, and the counters. Every operation returns what it did as a list of events, in order. -/
namespace Reassembly

structure Stats where
  segments : Nat := 0
  duplicates : Nat := 0
  trimmed : Nat := 0
  buffered : Nat := 0
  overflowDrops : Nat := 0
  evictions : Nat := 0
  chunksDelivered : Nat := 0
  bytesDelivered : Nat := 0
  deriving DecidableEq, Repr, Inhabited

inductive Outcome
  | empty
  | duplicate
  | delivered (trimmed : Bool)
  | buffered (trimmed : Bool)
  | dropped
  deriving DecidableEq, Repr

inductive Event
  | opened (initial : SeqNum) (limits : Limits)
  | moved (source target : SeqNum) (pending : Nat)
  | retransmitted (seq : SeqNum) (len : Nat) (next : SeqNum)
  | trimmed (seq : SeqNum) (covered : Nat) (next : SeqNum)
  | refused (seq : SeqNum) (len pending pendingBytes : Nat)
  | refiled (key : SeqNum) (covered : Nat) (next : SeqNum)
  | stale (key : SeqNum) (len : Nat)
  | delivered (sink : Option Nat) (start : SeqNum) (data : Bytes)
  | evicted (key : SeqNum) (len : Nat)
  | released (segments bytes : Nat)
  deriving DecidableEq, Repr

namespace Event

def chunk? : Event → Option (Nat × Bytes)
  | .delivered (some sink) _ data => some (sink,data)
  | _ => none

def chunks (events : List Event) : List (Nat × Bytes) := events.filterMap chunk?

@[simp] theorem chunks_nil : chunks [] = [] := rfl
@[simp] theorem chunks_append (es fs : List Event) : chunks (es++fs) = chunks es ++ chunks fs :=
  List.filterMap_append

end Event

/-- The sink is known by a number; without one, chunks are counted and forgotten. -/
structure Receiver where
  nextSeq : SeqNum
  limits : Limits := {}
  pending : Pending := .empty
  pendingBytes : Nat := 0
  sink : Option Nat := none
  stats : Stats := {}
  deriving DecidableEq, Repr

namespace Receiver

def start (initial : SeqNum) (limits : Limits) : Receiver := {nextSeq := initial, limits}

def deliver (r : Receiver) (data : Bytes) : Receiver × List Event :=
  ({r with
      nextSeq := r.nextSeq.advance data.length
      stats := {r.stats with
        chunksDelivered := r.stats.chunksDelivered+1
        bytesDelivered := r.stats.bytesDelivered+data.length}},
    [.delivered r.sink r.nextSeq data])

/-- Positions are ordered from just past half the circle behind the next one, so that those
behind it come first, then itself, then those ahead. -/
def origin (r : Receiver) : SeqNum := SeqNum.halfSpace + 1 + r.nextSeq

def rank (r : Receiver) (key : SeqNum) : Nat := SeqNum.distance r.origin key

def firstKey? (r : Receiver) : Option SeqNum := r.pending.firstFrom? r.origin

def furthestKey? (r : Receiver) : Option SeqNum := r.pending.lastFrom? r.origin

def take? (r : Receiver) (key : SeqNum) : Option (Bytes × Receiver) :=
  (r.pending.get? key).map fun payload =>
    (payload,{r with
      pending := r.pending.erase key
      pendingBytes := r.pendingBytes-payload.length})

theorem take?_eq_some {r s : Receiver} {key : SeqNum} {payload : Bytes}
    (h : r.take? key = some (payload,s)) :
    r.pending.get? key = some payload ∧ s.pending = r.pending.erase key ∧ s.nextSeq = r.nextSeq := by
  unfold take? at h
  obtain ⟨p,hp,he⟩ := Option.map_eq_some_iff.1 h
  cases he
  exact ⟨hp,rfl,rfl⟩

theorem size_lt_of_take? {r s : Receiver} {key : SeqNum} {payload : Bytes}
    (h : r.take? key = some (payload,s)) : s.pending.size < r.pending.size := by
  have ⟨hp,hs,_⟩ := take?_eq_some h
  exact hs ▸ Pending.size_erase_lt hp

end Receiver
end Reassembly
