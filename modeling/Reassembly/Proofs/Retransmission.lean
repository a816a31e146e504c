import Reassembly.Proofs.Counters
import Reassembly.Proofs.Coverage
import Reassembly.Proofs.DrainedPayloads
import Reassembly.Proofs.Verdicts

/-! Data that comes again changes nothing, however late it comes and whatever came in between, as
long as there are no caps. A segment that was taken in is handed on to its end, or else it has not
been reached and at least as much waits at its start. Draining takes every payload from the one
state to the other at once, and in both the segment is called a duplicate. -/
namespace Reassembly
namespace Slice

theorem exists_stream (offset : ℕ) {data : Bytes} (hd : data ≠ []) : ∃ S,
    (⟨offset,data.length⟩ : Slice).InStream S ∧ (⟨offset,data.length⟩ : Slice).bytes S = data :=
  ⟨List.replicate offset 0 ++ data,⟨List.length_pos_iff.mpr hd,by simp [stop]⟩,by simp [bytes]⟩

end Slice

namespace Receiver

/-- What a receiver is fed: data that begins at an offset of the stream, or a change of sink. -/
inductive Feed
  | segment (offset : ℕ) (data : Bytes)
  | setSink (sink : ℕ)
  | clearSink
  deriving DecidableEq, Repr

namespace Feed

def op (initial : SeqNum) : Feed → Op
  | .segment offset data => .ingest (initial.advance offset) data
  | .setSink sink => .setSink sink
  | .clearSink => .clearSink

def InWindow (n : ℕ) : Feed → Prop
  | .segment offset data => (⟨offset,data.length⟩ : Slice).InWindow n
  | .setSink _ | .clearSink => True

def slice? : Feed → Option Slice
  | .segment offset data => if data = [] then none else some ⟨offset,data.length⟩
  | .setSink _ | .clearSink => none

instance (n : ℕ) : DecidablePred (InWindow n) := fun f => by
  cases f <;> unfold InWindow <;> infer_instance

end Feed

/-- All that is fed lies in the window when its turn comes. -/
def FeedsInWindow (initial : SeqNum) : Receiver → List Feed → Prop
  | _, [] => True
  | r, f::fs => f.InWindow r.stats.bytesDelivered ∧
      FeedsInWindow initial (r.step (f.op initial)).receiver fs

instance feedsInWindowDecidable (initial : SeqNum) :
    (r : Receiver) → (fs : List Feed) → Decidable (FeedsInWindow initial r fs)
  | _, [] => .isTrue trivial
  | _, _::fs => @instDecidableAnd _ _ _ (feedsInWindowDecidable initial _ fs)

/-- There are no caps, the next position is the number of bytes handed on, and what waits lies in
the half of the circle ahead of offset `n`, which the next position has not left. -/
structure Tracks (initial : SeqNum) (n : ℕ) (r : Receiver) : Prop where
  free : r.limits.isBounded = false
  consistent : Consistent r
  next : r.nextSeq = initial.advance r.stats.bytesDelivered
  low : n ≤ r.stats.bytesDelivered
  high : r.stats.bytesDelivered ≤ n+2^31
  within : Within (initial.advance n) r

/-- At least `len` bytes wait at `key`. -/
def HoldsAtLeast (r : Receiver) (key : SeqNum) (len : ℕ) : Prop :=
  ∃ held, r.pending.get? key = some held ∧ len ≤ held.length

/-- The slice is handed on to its end, or it lies ahead of offset `n` and as much waits at its
start. -/
def Recalls (initial : SeqNum) (n : ℕ) (r : Receiver) (x : Slice) : Prop :=
  x.stop ≤ r.stats.bytesDelivered ∨
    (n < x.offset ∧ x.stop ≤ n+2^31 ∧ r.HoldsAtLeast (initial.advance x.offset) x.length)

variable {S data payload : Bytes} {initial seq key : SeqNum} {n len offset : ℕ} {r s t : Receiver}
  {x y : Slice} {filing : Filing} {outcome : Outcome} {events : List Event} {fs : List Feed}

theorem HoldsAtLeast.congr (h : r.HoldsAtLeast key len) (hp : t.pending = r.pending) :
    t.HoldsAtLeast key len := by
  rw [HoldsAtLeast,hp]
  exact h

theorem Filed.holdsAtLeast (h : Filed r seq payload filing t events)
    (hu : r.limits.isBounded = false) : t.HoldsAtLeast seq payload.length := by
  cases h with
  | kept waits short => exact ⟨_,waits,short⟩
  | rejected capped => simp [hu] at capped
  | inserted | replaced => exact ⟨payload,by simp [holding],le_rfl⟩

theorem Filed.still_holdsAtLeast (h : Filed r seq payload filing t events)
    (hu : r.limits.isBounded = false) (hk : r.HoldsAtLeast key len) : t.HoldsAtLeast key len := by
  obtain ⟨held,hheld,hle⟩ := hk
  cases h with
  | kept => exact ⟨held,hheld,hle⟩
  | rejected capped => simp [hu] at capped
  | inserted free shed =>
    cases shed.eq_of_uncapped hu
    have hne : key ≠ seq := by
      rintro rfl
      simp [free] at hheld
    exact ⟨held,by simpa [holding,hne] using hheld,hle⟩
  | replaced waits long shed =>
    cases shed.eq_of_uncapped hu
    by_cases hk : key = seq
    · subst hk
      obtain rfl := Option.some.inj (hheld.symm.trans waits)
      exact ⟨payload,by simp [holding],hle.trans long.le⟩
    · exact ⟨held,by simpa [holding,hk] using hheld,hle⟩

theorem still_countFiling (r : Receiver) (filing : Filing) : Still r (r.countFiling filing) := by
  cases filing <;> exact ⟨⟨rfl,rfl⟩,rfl,rfl⟩

theorem drain_bytesDelivered (r : Receiver) : r.drain.1.stats.bytesDelivered =
    r.stats.bytesDelivered+Event.handedBytes r.drain.2 := (drain_drains r).tallied.bytes

namespace Tracks

theorem distance_next (h : Tracks initial n r) :
    SeqNum.distance (initial.advance n) r.nextSeq = r.stats.bytesDelivered-n := by
  have hhigh := h.high
  rw [h.next]
  exact initial.distance_advance h.low (by omega)

theorem congr (h : Tracks initial n r) (hs : Still r t) (hc : Consistent t)
    (hw : Within (initial.advance n) t) : Tracks initial n t where
  free := hs.limits ▸ h.free
  consistent := hc
  next := by rw [hs.next,hs.handed]; exact h.next
  low := hs.handed ▸ h.low
  high := hs.handed ▸ h.high
  within := hw

theorem drain_next (h : Tracks initial n r) :
    r.drain.1.nextSeq = initial.advance r.drain.1.stats.bytesDelivered := by
  rw [h.consistent.drain_freely.next_eq,h.next,SeqNum.advance_advance,drain_bytesDelivered]

theorem drain_distance (h : Tracks initial n r) :
    SeqNum.distance (initial.advance n) r.drain.1.nextSeq =
      r.drain.1.stats.bytesDelivered-n := by
  have hlow := h.low
  rw [h.consistent.drain_freely.distance_next h.within,h.distance_next,drain_bytesDelivered]
  omega

theorem drain (h : Tracks initial n r) :
    Tracks initial r.drain.1.stats.bytesDelivered r.drain.1 where
  free := (drain_drains r).setup.limits ▸ h.free
  consistent := (drain_drains r).consistent h.consistent
  next := h.drain_next
  low := le_rfl
  high := Nat.le_add_right _ _
  within := h.drain_next ▸ ((drain_drains r).within h.within).rebase (drain_drains r).ahead

/-- What was recalled is so still: a payload that the next position comes to is handed on to its
end. -/
theorem drain_recalls (h : Tracks initial n r) (hx : Recalls initial n r x) :
    Recalls initial r.drain.1.stats.bytesDelivered r.drain.1 x := by
  have hcount := drain_bytesDelivered r
  rcases hx with hstop | ⟨hbeyond,hstop,held,hheld,hle⟩
  · exact .inl (by omega)
  · have hlow := h.low
    have hend : x.stop = x.offset+x.length := rfl
    have hstart : SeqNum.distance (initial.advance n) (initial.advance x.offset) = x.offset-n :=
      initial.distance_advance hbeyond.le (by omega)
    have hsettles := h.consistent.drain_settles h.within hheld
    rw [hstart,h.drain_distance] at hsettles
    rcases hsettles with hpassed | ⟨hahead,hwaits⟩
    · exact .inl (by omega)
    · exact .inr ⟨by omega,by omega,held,hwaits,hle⟩

end Tracks

namespace SlicePlaced

theorem tracks (h : SlicePlaced S initial x r outcome t events) (hx : x.InStream S)
    (hw : x.InWindow r.stats.bytesDelivered) (hr : Tracks initial r.stats.bytesDelivered r)
    (hc : Consistent t) : Tracks initial r.stats.bytesDelivered t := by
  have hnear := hw.near
  cases h with
  | old stops => exact hr.congr ⟨⟨rfl,rfl⟩,rfl,rfl⟩ hc (hr.within.congr rfl .inr)
  | @reached s notes trimmed starts stops still same =>
    have hlength := (hx.after stops).length_bytes
    have hrest : (x.after r.stats.bytesDelivered).length = x.stop-r.stats.bytesDelivered := rfl
    refine ⟨still.limits ▸ hr.free,hc,?_,?_,?_,?_⟩
    · simp only [Receiver.deliver,still.next,still.handed,hr.next,SeqNum.advance_advance]
    · simp only [Receiver.deliver,still.handed]
      omega
    · simp only [Receiver.deliver,still.handed,hlength]
      omega
    · have hs : Within (initial.advance r.stats.bytesDelivered) s :=
        hr.within.congr still.next fun hk => .inr (same ▸ hk)
      refine hs.deliver ?_
      rw [still.next,hr.distance_next,hlength]
      omega
  | @ahead filing s es starts filed =>
    have hend : x.stop = x.offset+x.length := rfl
    have hstart : SeqNum.distance (initial.advance r.stats.bytesDelivered)
        (initial.advance x.offset) = x.offset-r.stats.bytesDelivered :=
      initial.distance_advance starts.le (by omega)
    have hs : Within (initial.advance r.stats.bytesDelivered) s := by
      refine hr.within.filed filed ?_
      rw [hstart,hx.length_bytes]
      omega
    exact hr.congr (filed.still.trans (still_countFiling s filing)) hc
      (hs.congr (countFiling_nextSeq s filing) fun hk => .inr (countFiling_pending s filing ▸ hk))

theorem recalls (h : SlicePlaced S initial x r outcome t events) (hx : x.InStream S)
    (hw : x.InWindow r.stats.bytesDelivered) (hu : r.limits.isBounded = false)
    (hy : y = x ∨ Recalls initial r.stats.bytesDelivered r y) :
    Recalls initial r.stats.bytesDelivered t y := by
  cases h with
  | old stops => exact hy.elim (fun heq => .inl (heq ▸ stops)) id
  | @reached s notes trimmed starts stops still same =>
    have hcount : (s.deliver ((x.after r.stats.bytesDelivered).bytes S)).1.stats.bytesDelivered =
        x.stop := by
      simp only [Receiver.deliver,still.handed,(hx.after stops).length_bytes]
      exact Slice.stop_after stops.le
    rcases hy with rfl | hstop | ⟨hbeyond,hstop,hheld⟩
    · exact .inl hcount.ge
    · exact .inl (hcount ▸ hstop.trans stops.le)
    · exact .inr ⟨hbeyond,hstop,hheld.congr same⟩
  | @ahead filing s es starts filed =>
    have hcount : (s.countFiling filing).stats.bytesDelivered = r.stats.bytesDelivered :=
      (still_countFiling s filing).handed.trans filed.still.handed
    have hpending := countFiling_pending s filing
    rcases hy with rfl | hstop | ⟨hbeyond,hstop,hheld⟩
    · have hwaits := filed.holdsAtLeast hu
      rw [hx.length_bytes] at hwaits
      exact .inr ⟨starts,hw.near,hwaits.congr hpending⟩
    · exact .inl (hcount ▸ hstop)
    · exact .inr ⟨hbeyond,hstop,(filed.still_holdsAtLeast hu hheld).congr hpending⟩

theorem duplicate_of_recalls (h : SlicePlaced S initial x r outcome t events) (hx : x.InStream S)
    (hu : r.limits.isBounded = false) (hr : Recalls initial r.stats.bytesDelivered r x) :
    outcome = .duplicate := by
  have hlt := hx.offset_lt_stop
  cases h with
  | old => rfl
  | reached starts stops =>
    rcases hr with hstop | ⟨hbeyond,_⟩
    · exact absurd hstop stops.not_ge
    · exact absurd starts hbeyond.not_ge
  | ahead starts filed =>
    rcases hr with hstop | ⟨_,_,held,hheld,hle⟩
    · omega
    · rw [← hx.length_bytes] at hle
      cases filed with
      | kept => rfl
      | rejected capped => simp [hu] at capped
      | inserted free => simp [hheld] at free
      | replaced waits long =>
        obtain rfl := Option.some.inj (hheld.symm.trans waits)
        exact absurd hle long.not_ge

end SlicePlaced

theorem Placed.of_segment (h : Placed r (initial.advance offset) data outcome t events)
    (hn : r.nextSeq = initial.advance r.stats.bytesDelivered) (hd : data ≠ [])
    (hw : (⟨offset,data.length⟩ : Slice).InWindow r.stats.bytesDelivered) :
    ∃ S, (⟨offset,data.length⟩ : Slice).InStream S ∧
      SlicePlaced S initial ⟨offset,data.length⟩ r outcome t events := by
  obtain ⟨S,hx,hbytes⟩ := Slice.exists_stream offset hd
  refine ⟨S,hx,Placed.slice ?_ hn hx hw⟩
  rw [hbytes]
  exact h

/-- Taking in a segment in the window makes it recalled, and all that was recalled before is so
still. -/
theorem Tracks.ingest (h : Tracks initial r.stats.bytesDelivered r) (hd : data ≠ [])
    (hw : (⟨offset,data.length⟩ : Slice).InWindow r.stats.bytesDelivered) :
    let t := (r.ingest (initial.advance offset) data).2.1
    Tracks initial t.stats.bytesDelivered t ∧
      ∀ y, y = ⟨offset,data.length⟩ ∨ Recalls initial r.stats.bytesDelivered r y →
        Recalls initial t.stats.bytesDelivered t y := by
  intro t
  have hplaced := place_placed r.countSegment (initial.advance offset) data
  have hcounted : Tracks initial r.stats.bytesDelivered r.countSegment :=
    h.congr ⟨⟨rfl,rfl⟩,rfl,rfl⟩ (h.consistent.congr rfl rfl rfl) (h.within.congr rfl .inr)
  obtain ⟨S,hx,hslice⟩ := hplaced.of_segment hcounted.next hd hw
  have hs := hslice.tracks hx hw hcounted (hplaced.consistent hcounted.consistent hd)
  have hdrain : t = (r.countSegment.place (initial.advance offset) data).2.1.drain.1 := by
    simp only [t]
    rw [Receiver.ingest,if_neg (by simpa using hd)]
  rw [hdrain]
  exact ⟨hs.drain,fun y hy => hs.drain_recalls (hslice.recalls hx hw hcounted.free hy)⟩

theorem Tracks.step {f : Feed} (h : Tracks initial r.stats.bytesDelivered r)
    (hw : f.InWindow r.stats.bytesDelivered) :
    let t := (r.step (f.op initial)).receiver
    Tracks initial t.stats.bytesDelivered t ∧
      ∀ y, f.slice? = some y ∨ Recalls initial r.stats.bytesDelivered r y →
        Recalls initial t.stats.bytesDelivered t y := by
  intro t
  cases f with
  | segment offset data =>
    by_cases hd : data = []
    · have hsame : t = r := by simp [t,Feed.op,Receiver.step,Receiver.ingest,hd]
      rw [hsame]
      exact ⟨h,fun y hy => hy.resolve_left (by simp [Feed.slice?,hd])⟩
    · have hingest := h.ingest hd hw
      refine ⟨hingest.1,fun y hy => hingest.2 y (hy.imp_left fun hslice => ?_)⟩
      simpa [Feed.slice?,hd] using hslice.symm
  | setSink | clearSink =>
    exact ⟨⟨h.free,h.consistent.congr rfl rfl rfl,h.next,h.low,h.high,h.within.congr rfl .inr⟩,
      fun y hy => hy.resolve_left (by simp [Feed.slice?])⟩

theorem Tracks.run (h : Tracks initial r.stats.bytesDelivered r)
    (hfs : FeedsInWindow initial r fs) :
    let t := r.run (fs.map (Feed.op initial))
    Tracks initial t.stats.bytesDelivered t ∧
      ∀ y, y ∈ fs.filterMap Feed.slice? ∨ Recalls initial r.stats.bytesDelivered r y →
        Recalls initial t.stats.bytesDelivered t y := by
  induction fs generalizing r with
  | nil => exact ⟨h,fun y hy => hy.resolve_left (by simp)⟩
  | cons f fs ih =>
    have ⟨hw,hrest⟩ := hfs
    have ⟨htracks,hrecalls⟩ := h.step hw
    have ⟨hend,hall⟩ := ih htracks hrest
    refine ⟨hend,fun y hy => hall y ?_⟩
    rcases hy with hy | hy
    · obtain ⟨g,hg,hslice⟩ := List.mem_filterMap.mp hy
      rcases List.mem_cons.mp hg with rfl | hg
      · exact .inr (hrecalls y (.inl hslice))
      · exact .inl (List.mem_filterMap.mpr ⟨g,hg,hslice⟩)
    · exact .inr (hrecalls y (.inr hy))

theorem tracks_start (initial : SeqNum) (overflow : Overflow) :
    Tracks initial 0 (start initial {overflow}) where
  free := rfl
  consistent := consistent_start initial _
  next := (initial.advance_zero).symm
  low := le_rfl
  high := Nat.zero_le _
  within := by
    rw [initial.advance_zero]
    exact within_start initial _

theorem Tracks.atRest (h : Tracks initial r.stats.bytesDelivered r) : AtRest r := by
  intro key payload hk
  have ⟨hpos,hend⟩ := h.within.waits hk
  rw [← h.next] at hpos hend
  exact SeqNum.compare_eq_after_iff.mpr ⟨hpos,by omega⟩

theorem Tracks.ingest_again (h : Tracks initial r.stats.bytesDelivered r) (hd : data ≠ [])
    (hx : Recalls initial r.stats.bytesDelivered r ⟨offset,data.length⟩)
    (hrecent : r.stats.bytesDelivered < offset+2^31) :
    (r.ingest (initial.advance offset) data).1 = .duplicate := by
  have hw : (⟨offset,data.length⟩ : Slice).InWindow r.stats.bytesDelivered :=
    ⟨hx.elim (fun hstop => hstop.trans (Nat.le_add_right _ _)) (·.2.1),hrecent⟩
  have hplaced := place_placed r.countSegment (initial.advance offset) data
  obtain ⟨S,hin,hslice⟩ := hplaced.of_segment h.next hd hw
  rw [ingest_fst hd]
  exact hslice.duplicate_of_recalls hin h.free hx

/-- After any run without caps, moves or segments out of the window, a segment of the run that comes
again, as long as its start is less than half the circle behind, is called a duplicate if it carries
data; nothing is handed on, and the next position and all that waits are as they were. -/
theorem retransmission_is_silent (initial : SeqNum) (overflow : Overflow) (fs : List Feed)
    (h : FeedsInWindow initial (start initial {overflow}) fs) (offset : ℕ) (data : Bytes)
    (hsent : .segment offset data ∈ fs)
    (hrecent : ((start initial {overflow}).run (fs.map (Feed.op initial))).stats.bytesDelivered <
      offset+2^31) :
    let r := (start initial {overflow}).run (fs.map (Feed.op initial))
    let again := r.ingest (initial.advance offset) data
    again.1 = (if data = [] then .empty else .duplicate) ∧
      Event.deliveries again.2.2 = [] ∧ Event.chunks again.2.2 = [] ∧
      again.2.1.nextSeq = r.nextSeq ∧ again.2.1.pending = r.pending := by
  intro r again
  by_cases hd : data = []
  · have hagain : again = (.empty,r,[]) := by simp [again,Receiver.ingest,hd]
    rw [hagain,if_pos hd]
    exact ⟨rfl,rfl,rfl,rfl,rfl⟩
  · obtain ⟨htracks,hrecalls⟩ := (tracks_start initial overflow).run h
    have hx : Recalls initial r.stats.bytesDelivered r ⟨offset,data.length⟩ :=
      hrecalls _ (.inl (List.mem_filterMap.mpr ⟨_,hsent,by simp [Feed.slice?,hd]⟩))
    have hduplicate : again.1 = .duplicate := htracks.ingest_again hd hx hrecent
    obtain ⟨hstate,hsilent⟩ := ingest_refused htracks.atRest (.inl hduplicate)
    change again.2.1 = r.countSegment.countRefusal again.1 at hstate
    rw [hduplicate] at hstate
    rw [if_neg hd,hstate]
    exact ⟨hduplicate,hsilent,Event.chunks_eq_nil hsilent,rfl,rfl⟩

/-- Two segments that tell different tales of the same offset; one that reaches into them, so that
the rest of the longer is filed again; and one that waits on. -/
def tales : List Feed :=
  [.segment 4 [1,2],.setSink 7,.segment 4 [3,4,5],.segment 9 [9,9],.segment 0 [0,0,0,0,0],
    .clearSink]

def told : Receiver :=
  (start 0xfffffffc {overflow := .dropNew}).run (tales.map (Feed.op 0xfffffffc))

theorem silent_after_tales :
    FeedsInWindow 0xfffffffc (start 0xfffffffc {overflow := .dropNew}) tales ∧
      told.stats.bytesDelivered = 7 ∧
      (told.ingest (SeqNum.advance 0xfffffffc 4) [1,2]).1 = .duplicate ∧
      (told.ingest (SeqNum.advance 0xfffffffc 9) [9,9]).2.1.pending = told.pending := by
  have h : FeedsInWindow 0xfffffffc (start 0xfffffffc {overflow := .dropNew}) tales := by
    decide +kernel
  have hcount : told.stats.bytesDelivered = 7 := by decide +kernel
  have hfirst : told.stats.bytesDelivered < 4+2^31 := by rw [hcount]; decide
  have hlast : told.stats.bytesDelivered < 9+2^31 := by rw [hcount]; decide
  have hpassed := retransmission_is_silent 0xfffffffc .dropNew tales h 4 [1,2] (by decide) hfirst
  have hwaits := retransmission_is_silent 0xfffffffc .dropNew tales h 9 [9,9] (by decide) hlast
  exact ⟨h,hcount,hpassed.1,hwaits.2.2.2.2⟩

/-- A segment without data is never called a duplicate, also when it comes again. -/
theorem empty_again_not_duplicate : ¬∀ (initial : SeqNum) (overflow : Overflow) (fs : List Feed),
    FeedsInWindow initial (start initial {overflow}) fs → ∀ (offset : ℕ) (data : Bytes),
      .segment offset data ∈ fs →
      ((start initial {overflow}).run (fs.map (Feed.op initial))).stats.bytesDelivered <
        offset+2^31 →
      (((start initial {overflow}).run (fs.map (Feed.op initial))).ingest
        (initial.advance offset) data).1 = .duplicate := by
  intro h
  have hdup := h 0 .dropNew [.segment 5 []] (by decide +kernel) 5 [] (by decide) (by decide +kernel)
  revert hdup
  decide +kernel

end Receiver
end Reassembly
