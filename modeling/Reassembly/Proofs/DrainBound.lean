import Reassembly.Proofs.CapTransparency
import Reassembly.Proofs.Counters

/-! How long draining takes. A round that files a payload again leaves as many waiting as before, so
that their number does not measure the work; but what is filed again waits at the next position,
where it counts for one turn and no longer for two. So two turns for each payload are enough from
any state, and every chunk handed on is one payload less that waits. -/
namespace Reassembly
namespace Receiver

/-- Draining with a bound on its turns. A turn looks at the first payload in circular order, and
makes a round of it or stops there. There is no result if a payload is left to be looked at when
the turns are used up. -/
def drainWithin : ℕ → Receiver → Option (Receiver × List Event)
  | 0, r => if r.firstKey?.isNone then some (r,[]) else none
  | turns+1, r =>
    match r.drainRound? with
    | none => some (r,[])
    | some (s,events) => (drainWithin turns s).map fun (t,rest) => (t,events++rest)

variable {r s t : Receiver} {events : List Event}

theorem drain_of_none (h : r.drainRound? = none) : r.drain = (r,[]) := by
  rw [drain]
  split
  · rfl
  · rename_i hsome
    simp [h] at hsome

theorem drain_of_some (h : r.drainRound? = some (s,events)) :
    r.drain = (s.drain.1,events++s.drain.2) := by
  rw [drain]
  split
  · rename_i hnone
    simp [h] at hnone
  · rename_i hsome
    rw [h] at hsome
    cases hsome
    rfl

theorem firstKey?_of_no_backlog (h : r.backlog = 0) : r.firstKey? = none := by
  have hsize : r.pending.size = 0 := by
    simp only [backlog] at h
    split at h <;> omega
  cases hfirst : r.firstKey? with
  | none => rfl
  | some key =>
    have hpos := size_pos_of_contains (Pending.firstFrom?_eq_some hfirst).1
    omega

theorem backlog_le (r : Receiver) : r.backlog ≤ 2*r.pending.size := Nat.sub_le _ _

/-- As many turns as there is backlog are enough, the one that stops included. -/
theorem drainWithin_of_backlog_le {turns : ℕ} (h : r.backlog ≤ turns) :
    r.drainWithin turns = some r.drain := by
  induction turns generalizing r with
  | zero =>
    have hfirst := firstKey?_of_no_backlog (Nat.le_zero.mp h)
    have hround : r.drainRound? = none := by rw [drainRound?,hfirst]
    rw [drainWithin,hfirst,drain_of_none hround]
    rfl
  | succ turns ih =>
    rw [drainWithin]
    cases hround : r.drainRound? with
    | none => rw [drain_of_none hround]
    | some round =>
      obtain ⟨s,events⟩ := round
      have hlt := backlog_drainRound? hround
      dsimp only
      rw [ih (by omega),drain_of_some hround]
      rfl

theorem Drains.chunks_le (h : Drains r t events) :
    (Event.deliveries events).length+t.pending.size ≤ r.pending.size := by
  have htallied := h.tallied
  have hchunks := htallied.chunks
  have hdropped := htallied.dropped
  have hpieces := htallied.pieces
  have hlost := h.lost_le
  simp only [pieces,lost,List.countP_nil,List.count_nil] at hchunks hdropped hpieces hlost
  omega

/-- From any state, draining is over after two turns for each payload that waits, and hands on no
more chunks than there are payloads fewer at its end. -/
theorem drain_ends_in_time (r : Receiver) :
    r.drainWithin (2*r.pending.size) = some r.drain ∧
      (Event.deliveries r.drain.2).length+r.drain.1.pending.size ≤ r.pending.size :=
  ⟨drainWithin_of_backlog_le r.backlog_le,(drain_drains r).chunks_le⟩

/-- One payload that is cut takes both turns. -/
example :
    let r := ((start 0 {}).run [.ingest 1 [1,2,3],.reset 2])
    r.pending.size = 1 ∧ r.drainWithin 1 = none ∧ r.drainWithin 2 = some r.drain := by
  decide +kernel

end Receiver
end Reassembly
