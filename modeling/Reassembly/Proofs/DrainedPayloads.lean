import Reassembly.Proofs.DrainCoverage
import Reassembly.Proofs.PendingAhead

/-! What becomes of a payload in draining, when all that waits lies in one half of the circle. Where
the next position comes to rest it has passed the payload to its end, or it has not come to its
start and the payload waits untouched: half a payload is never left behind. -/
namespace Reassembly
namespace Receiver

variable {r t : Receiver} {base key : SeqNum} {payload : Bytes} {events : List Event}

theorem Within.short (h : Within base r) : r.pending.Short := by
  intro e he
  have ⟨hpos,hend⟩ := h.waits (Pending.get?_eq_some_iff.mpr he)
  omega

theorem FreeRound.within (h : FreeRound r t events) (hr : Within base r) : Within base t := by
  cases h with
  | handOn first held => exact (hr.without _ _).deliver (hr.waits held).2
  | discard | absorb => exact hr.without _ _
  | @refile key payload growth first behind held reaches =>
    have hrest := hr.rest_waits held behind reaches
    refine (hr.without key payload).congr rfl fun {k p} hk => ?_
    simp only [holding,Pending.get?_insert] at hk
    split at hk
    · rename_i heq
      obtain rfl := Option.some.inj hk
      exact .inl (heq ▸ hrest)
    · exact .inr hk

theorem FreeRound.distance_next (h : FreeRound r t events) (hr : Within base r) :
    SeqNum.distance base t.nextSeq =
      SeqNum.distance base r.nextSeq+Event.handedBytes events := by
  have hbound : SeqNum.distance base r.nextSeq+Event.handedBytes events ≤ 2^31 := by
    cases h with
    | handOn first held => simpa [deliver,Event.handedBytes] using (hr.waits held).2
    | discard | absorb | refile => exact hr.reach
  rw [h.next_eq,SeqNum.distance_advance_right (by omega)]

theorem FreeRound.get?_of_beyond (h : FreeRound r t events) (hr : Within base r)
    (hk : SeqNum.distance base r.nextSeq < SeqNum.distance base key) :
    t.pending.get? key = r.pending.get? key := by
  have hnext : key ≠ r.nextSeq := by
    rintro rfl
    exact lt_irrefl _ hk
  have hbehind : ∀ {k p}, r.pending.get? k = some p →
      SeqNum.compare k r.nextSeq = .before → key ≠ k := by
    rintro k p held behind rfl
    exact absurd (hr.distance_lt_of_behind held behind) hk.not_gt
  cases h with
  | handOn first held => simp [deliver,hnext]
  | discard first behind held => simp [hbehind held behind]
  | absorb first behind held => simp [hbehind held behind]
  | refile first behind held => simp [holding,hnext,hbehind held behind]

namespace FreelyDrains

theorem distance_next (h : FreelyDrains r t events) (hr : Within base r) :
    SeqNum.distance base t.nextSeq =
      SeqNum.distance base r.nextSeq+Event.handedBytes events := by
  induction h with
  | done => rfl
  | round _ first _ ih =>
    rw [ih (first.within hr),first.distance_next hr,Event.handedBytes_append,Nat.add_assoc]

theorem next_eq (h : FreelyDrains r t events) :
    t.nextSeq = r.nextSeq.advance (Event.handedBytes events) := by
  induction h with
  | done => exact (SeqNum.advance_zero _).symm
  | round _ first _ ih =>
    rw [ih,first.next_eq,SeqNum.advance_advance,Event.handedBytes_append]

theorem get?_of_beyond (h : FreelyDrains r t events) (hr : Within base r)
    (hk : SeqNum.distance base t.nextSeq < SeqNum.distance base key) :
    t.pending.get? key = r.pending.get? key := by
  induction h with
  | done => rfl
  | round _ first rest ih =>
    have hs := first.within hr
    have hfirst := first.distance_next hr
    have hrest := rest.distance_next hs
    exact (ih hs hk).trans (first.get?_of_beyond hr (by omega))

end FreelyDrains

/-- What the next position has come to is handed on to its end, and the rest waits on. -/
theorem Consistent.drain_settles (hc : Consistent r) (hr : Within base r)
    (hk : r.pending.get? key = some payload) :
    SeqNum.distance base key+payload.length ≤ SeqNum.distance base r.drain.1.nextSeq ∨
      (SeqNum.distance base r.drain.1.nextSeq < SeqNum.distance base key ∧
        r.drain.1.pending.get? key = some payload) := by
  have hdrains := drain_drains r
  have hfreely := hc.drain_freely
  have ht := hdrains.within hr
  have hend := (hr.waits hk).2
  have hnext := hfreely.distance_next hr
  refine (lt_or_ge _ _).symm.imp (fun hle => not_lt.mp fun hgt => ?_)
    fun hlt => ⟨hlt,(hfreely.get?_of_beyond hr hlt).trans hk⟩
  -- The payload would cover the position come to, which would be handed on or covered still.
  have hcovers : r.Buffers (r.nextSeq.advance (Event.handedBytes r.drain.2)) := by
    refine ⟨key,payload,hk,?_⟩
    rw [← hfreely.next_eq,SeqNum.distance_of_distance base hle]
    omega
  rcases hfreely.keeps hr.short (by omega) hcovers with hlt | ⟨k,p,hheld,hin⟩
  · exact lt_irrefl _ hlt
  · have hahead := SeqNum.compare_eq_after.mp (hdrains.ahead hheld)
    have hshort := ht.short.length_lt hheld
    rw [← hfreely.next_eq] at hin
    omega

end Receiver
end Reassembly
