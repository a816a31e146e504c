import Reassembly.Receiver.Basic

/-! Filing a payload under its start, within the caps. A longer payload replaces a shorter one
with the same start; payloads further ahead than the newcomer may be given up for it, the
furthest first, and only if that makes it fit. -/
namespace Reassembly

inductive Filing
  | inserted
  | replaced
  | kept
  | rejected
  deriving DecidableEq, Repr

namespace Receiver

/-- Whether `growth` more bytes and `entries` more entries fit once some have been freed. -/
def fitsAfterFreeing (r : Receiver) (freedEntries freedBytes growth entries : Nat) : Bool :=
  r.limits.maxSegments.all (fun max => r.pending.size - freedEntries + entries ≤ max) &&
    r.limits.maxBytes.all (fun max => r.pendingBytes - freedBytes + growth ≤ max)

def fits (r : Receiver) (growth entries : Nat) : Bool := r.fitsAfterFreeing 0 0 growth entries

def further (r : Receiver) (seq : SeqNum) : List (SeqNum × Bytes) :=
  r.pending.entries.filter (fun e => r.rank seq < r.rank e.1)

/-- Gives up the furthest payloads until the newcomer fits, and none that is not further
ahead than the newcomer itself. -/
def evictUntilFits (r : Receiver) (seq : SeqNum) (growth entries : Nat) :
    Bool × Receiver × List Event :=
  if r.fits growth entries then (true,r,[])
  else
    match r.furthestKey? with
    | none => (false,r,[])
    | some key =>
      if r.rank key ≤ r.rank seq then (false,r,[])
      else
        match _h : r.take? key with
        | none => (false,r,[])
        | some (payload,s) =>
          let s := {s with stats := {s.stats with evictions := s.stats.evictions+1}}
          let (ok,t,events) := s.evictUntilFits seq growth entries
          (ok,t,.evicted key payload.length::events)
termination_by r.pending.size
decreasing_by exact size_lt_of_take? _h

/-- Makes room for a payload of `len` bytes at `seq`, or changes nothing. -/
def makeRoom (r : Receiver) (seq : SeqNum) (len growth entries : Nat) :
    Bool × Receiver × List Event :=
  if r.fits growth entries then (true,r,[])
  else if r.limits.maxBytes.any (fun max => max < len) then (false,r,[])
  else
    match r.limits.overflow with
    | .dropNew => (false,r,[])
    | .evictFurthest =>
      let freed := r.further seq
      if r.fitsAfterFreeing freed.length (Pending.bytesIn freed) growth entries then
        r.evictUntilFits seq growth entries
      else (false,r,[])

def file (r : Receiver) (seq : SeqNum) (payload : Bytes) (growth entries : Nat) (filing : Filing) :
    Filing × Receiver × List Event :=
  match r.makeRoom seq payload.length growth entries with
  | (true,s,events) =>
    (filing,{s with
      pending := s.pending.insert seq payload
      pendingBytes := s.pendingBytes+growth},events)
  | (false,s,events) => (.rejected,s,events)

/-- Inserts, or replaces only a strictly shorter payload. -/
def store (r : Receiver) (seq : SeqNum) (payload : Bytes) : Filing × Receiver × List Event :=
  match r.pending.get? seq with
  | none => r.file seq payload payload.length 1 .inserted
  | some held =>
    if payload.length ≤ held.length then (.kept,r,[])
    else r.file seq payload (payload.length-held.length) 0 .replaced

theorem evictUntilFits_shrinks (r : Receiver) (seq : SeqNum) (growth entries : Nat) :
    (r.evictUntilFits seq growth entries).2.1.nextSeq = r.nextSeq ∧
      ((r.evictUntilFits seq growth entries).2.1.pending = r.pending ∨
        (r.evictUntilFits seq growth entries).2.1.pending.size < r.pending.size) := by
  fun_induction evictUntilFits r seq growth entries with
  | case1 => simp
  | case2 => simp
  | case3 => simp
  | case4 => simp
  | case5 r _ key _ _ payload s h s' ok t events he ih =>
    have hlt := size_lt_of_take? h
    have hn := (take?_eq_some h).2.2
    rw [he] at ih
    refine ⟨ih.1.trans hn,.inr ?_⟩
    rcases ih.2 with ih | ih
    · exact Nat.lt_of_le_of_lt (Nat.le_of_eq (congrArg Pending.size ih)) hlt
    · exact Nat.lt_trans ih hlt

theorem makeRoom_shrinks (r : Receiver) (seq : SeqNum) (len growth entries : Nat) :
    (r.makeRoom seq len growth entries).2.1.nextSeq = r.nextSeq ∧
      ((r.makeRoom seq len growth entries).2.1.pending = r.pending ∨
        (r.makeRoom seq len growth entries).2.1.pending.size < r.pending.size) := by
  have he := evictUntilFits_shrinks r seq growth entries
  unfold makeRoom
  grind

end Receiver
end Reassembly
