import Reassembly.Proofs.Coverage

/-! Streams shorter than half the circle. Each of their slices is in the window whenever it comes,
so that runs of them need no condition; slices without data may be mixed in. -/
namespace Reassembly
namespace Slice

/-- A slice with data is a part of the stream; one without may lie anywhere. -/
def PartOf (x : Slice) (S : Bytes) : Prop := 0 < x.length → x.stop ≤ S.length

instance (x : Slice) (S : Bytes) : Decidable (x.PartOf S) :=
  inferInstanceAs (Decidable (0 < x.length → x.stop ≤ S.length))

instance (x : Slice) (j : ℕ) : Decidable (x.Covers j) := inferInstanceAs (Decidable (_ ∧ _))

theorem InStream.inWindow {x : Slice} {S : Bytes} {n : ℕ} (h : x.InStream S)
    (hS : S.length < 2^31) (hn : n ≤ S.length) : x.InWindow n := by
  have hinside := h.inside
  exact ⟨by omega,by omega⟩

def withData (xs : List Slice) : List Slice := xs.filter (0 < ·.length)

theorem withData_cons_of_pos {x : Slice} (h : 0 < x.length) (xs : List Slice) :
    withData (x::xs) = x::withData xs := List.filter_cons_of_pos (by simpa using h)

theorem withData_cons_of_zero {x : Slice} (h : x.length = 0) (xs : List Slice) :
    withData (x::xs) = withData xs := List.filter_cons_of_neg (by simp [h])

theorem covered_withData {xs : List Slice} {j : ℕ} : Covered (withData xs) j ↔ Covered xs j := by
  constructor
  · rintro ⟨x,hx,hj⟩
    exact ⟨x,List.mem_of_mem_filter hx,hj⟩
  · rintro ⟨x,hx,hstart,hstop⟩
    have hlength : 0 < x.length := by
      rw [stop] at hstop
      omega
    exact ⟨x,List.mem_filter.mpr ⟨hx,by simpa using hlength⟩,hstart,hstop⟩

end Slice

namespace Receiver

open Slice

variable {S : Bytes} {initial : SeqNum} {r t : Receiver} {x : Slice} {xs : List Slice}
  {events : List Event}

theorem trace_append (r : Receiver) (xs ys : List Op) :
    r.trace (xs++ys) = r.trace xs ++ (r.run xs).trace ys := by
  induction xs generalizing r with
  | nil => rfl
  | cons x xs ih =>
    rw [List.cons_append,trace_cons,ih,trace_cons,List.append_assoc,run]

theorem step_of_zero (r : Receiver) (S : Bytes) (initial : SeqNum) (h : x.length = 0) :
    r.step (x.op S initial) = ⟨some .empty,r,[]⟩ := by
  simp [op,step,bytes,h,ingest]

theorem run_withData (r : Receiver) (S : Bytes) (initial : SeqNum) (xs : List Slice) :
    r.run (ops S initial (withData xs)) = r.run (ops S initial xs) := by
  induction xs generalizing r with
  | nil => rfl
  | cons x xs ih =>
    rcases Nat.eq_zero_or_pos x.length with h | h
    · have hstep : r.run (ops S initial (x::xs)) =
          (r.step (x.op S initial)).receiver.run (ops S initial xs) := rfl
      rw [withData_cons_of_zero h,hstep,step_of_zero r S initial h]
      exact ih r
    · rw [withData_cons_of_pos h]
      exact ih _

theorem trace_withData (r : Receiver) (S : Bytes) (initial : SeqNum) (xs : List Slice) :
    r.trace (ops S initial (withData xs)) = r.trace (ops S initial xs) := by
  induction xs generalizing r with
  | nil => rfl
  | cons x xs ih =>
    rcases Nat.eq_zero_or_pos x.length with h | h
    · have htrace : r.trace (ops S initial (x::xs)) = (r.step (x.op S initial)).events ++
          (r.step (x.op S initial)).receiver.trace (ops S initial xs) := rfl
      rw [withData_cons_of_zero h,htrace,step_of_zero r S initial h]
      exact ih r
    · rw [withData_cons_of_pos h]
      exact congrArg ((r.step (x.op S initial)).events ++ ·) (ih _)

theorem slicesInWindow_of_short (hS : S.length < 2^31) (hxs : ∀ x ∈ xs, x.PartOf S)
    (hr : Anchored S initial r.stats.bytesDelivered r) :
    SlicesInWindow S initial r (withData xs) := by
  induction xs generalizing r with
  | nil => trivial
  | cons x xs ih =>
    have ⟨hx,hrest⟩ := List.forall_mem_cons.mp hxs
    rcases Nat.eq_zero_or_pos x.length with h | h
    · rw [withData_cons_of_zero h]
      exact ih hrest hr
    · have hin : x.InStream S := ⟨h,hx h⟩
      have hw := hin.inWindow hS hr.inside
      rw [withData_cons_of_pos h]
      exact ⟨hin,hw,ih hrest ((ingest_ingested r _ _).anchored hin hw hr).1⟩

theorem run_anchored_of_short (hS : S.length < 2^31) (hxs : ∀ x ∈ xs, x.PartOf S)
    (hr : Anchored S initial r.stats.bytesDelivered r) :
    Anchored S initial (r.run (ops S initial xs)).stats.bytesDelivered
        (r.run (ops S initial xs)) ∧
      Extends S r (r.run (ops S initial xs)) (r.trace (ops S initial xs)) := by
  have h := run_anchored (slicesInWindow_of_short hS hxs hr) hr
  rwa [run_withData,trace_withData] at h

theorem taken_of_short (limits : Limits) (sink : ℕ) (hS : S.length < 2^31)
    (hxs : ∀ x ∈ xs, x.PartOf S) :
    ((start initial limits).setSink sink).taken (ops S initial xs) =
      S.take (((start initial limits).setSink sink).run (ops S initial xs)).stats.bytesDelivered := by
  have hr := anchored_start S initial limits sink
  have h := taken_slices limits sink (slicesInWindow_of_short hS hxs hr)
  rwa [taken,trace_withData,run_withData] at h

theorem Extends.handed_le (h : Extends S r t events) (hr : r.stats.bytesDelivered ≤ S.length)
    (ht : t.stats.bytesDelivered ≤ S.length) :
    r.stats.bytesDelivered ≤ t.stats.bytesDelivered := by
  have hlength := congrArg List.length h
  rw [List.length_append,List.length_take_of_le ht,List.length_take_of_le hr] at hlength
  omega

theorem SlicePlaced.passes {outcome : Outcome} (h : SlicePlaced S initial x r outcome t events)
    (hx : x.InStream S) (hstart : x.offset ≤ r.stats.bytesDelivered) :
    x.stop ≤ t.stats.bytesDelivered := by
  cases h with
  | old stops => exact stops
  | reached starts stops still =>
    simp only [Receiver.deliver,still.handed,(hx.after stops).length_bytes]
    exact (stop_after stops.le).ge
  | ahead starts => exact absurd hstart (not_le.mpr starts)

/-- A slice that starts where the next position has been is handed on to its end. -/
theorem Ingested.passes {outcome : Outcome}
    (h : Ingested r (initial.advance x.offset) (x.bytes S) outcome t events) (hx : x.InStream S)
    (hw : x.InWindow r.stats.bytesDelivered) (hr : Anchored S initial r.stats.bytesDelivered r)
    (hstart : x.offset ≤ r.stats.bytesDelivered) : x.stop ≤ t.stats.bytesDelivered := by
  cases h with
  | empty nothing => exact absurd nothing hx.bytes_ne_nil
  | taken some placed drained =>
    have hc := hr.countSegment
    have hplaced := placed.slice hc.next hx hw
    have hs := (hplaced.anchored hx hw hc).1
    have ⟨ht,hextends⟩ := drained.anchored hs
    exact (hplaced.passes hx hstart).trans (hextends.handed_le hs.inside ht.inside)

end Receiver
end Reassembly
