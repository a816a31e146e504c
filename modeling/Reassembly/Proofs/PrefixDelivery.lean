import Reassembly.Proofs.Slices

/-! A run of slices of one stream hands on a prefix of the stream: whatever the order, the overlaps
and the caps, no byte is left out, repeated or moved. -/
namespace Reassembly
namespace Receiver

/-- The events hand on the part of the stream between the two numbers of bytes handed on. -/
def Extends (S : Bytes) (r t : Receiver) (events : List Event) : Prop :=
  S.take t.stats.bytesDelivered = S.take r.stats.bytesDelivered ++ handed events

variable {S : Bytes} {initial : SeqNum} {n₀ : ℕ} {r s t : Receiver} {events es fs : List Event}

theorem Extends.append (h : Extends S r s es) (h' : Extends S s t fs) :
    Extends S r t (es++fs) := by
  rw [Extends,handed_append,← List.append_assoc,← h]
  exact h'

theorem extends_of_still (hs : t.stats.bytesDelivered = r.stats.bytesDelivered)
    (hd : Event.deliveries events = []) : Extends S r t events := by
  simp [Extends,handed,hs,hd]

namespace Anchored

theorem congr (h : Anchored S initial n₀ r) (hs : Still r t)
    (hw : ∀ {key payload}, t.pending.get? key = some payload →
      (∃ y : Slice, y.Ahead S n₀ ∧ key = initial.advance y.offset ∧ payload = y.bytes S) ∨
        r.pending.get? key = some payload) : Anchored S initial n₀ t where
  next := by rw [hs.next,hs.handed]; exact h.next
  low := by rw [hs.handed]; exact h.low
  high := by rw [hs.handed]; exact h.high
  inside := by rw [hs.handed]; exact h.inside
  waits := fun hk => (hw hk).elim id h.waits

theorem countSegment (h : Anchored S initial n₀ r) : Anchored S initial n₀ r.countSegment :=
  h.congr ⟨⟨rfl,rfl⟩,rfl,rfl⟩ .inr

theorem without (h : Anchored S initial n₀ r) (key : SeqNum) (payload : Bytes) :
    Anchored S initial n₀ (r.without key payload) :=
  h.congr ⟨⟨rfl,rfl⟩,rfl,rfl⟩ fun hk => .inr (held_of_without hk)

theorem deliver (h : Anchored S initial n₀ r) {y : Slice} (hy : y.InStream S)
    (hstart : y.offset = r.stats.bytesDelivered) (hnear : y.stop ≤ n₀+2^31) :
    Anchored S initial n₀ (r.deliver (y.bytes S)).1 ∧
      Extends S r (r.deliver (y.bytes S)).1 (r.deliver (y.bytes S)).2 := by
  have hcount : (r.deliver (y.bytes S)).1.stats.bytesDelivered = y.stop := by
    simp [Receiver.deliver,hy.length_bytes,← hstart,Slice.stop]
  constructor
  · refine ⟨?_,?_,?_,?_,h.waits⟩
    · rw [hcount]
      simp only [Receiver.deliver,h.next,hy.length_bytes,SeqNum.advance_advance,← hstart,Slice.stop]
    · exact hcount ▸ h.low.trans (hstart ▸ hy.offset_lt_stop.le)
    · exact hcount ▸ hnear
    · exact hcount ▸ hy.inside
  · rw [Extends,hcount,Slice.take_stop,hstart]
    simp [handed,Receiver.deliver]

theorem rebase (h : Anchored S initial n₀ r)
    (ha : ∀ {key payload}, r.pending.get? key = some payload →
      SeqNum.compare key r.nextSeq = .after) :
    Anchored S initial r.stats.bytesDelivered r := by
  have hlow := h.low
  refine ⟨h.next,le_rfl,by omega,h.inside,fun {key payload} hk => ?_⟩
  obtain ⟨y,hy,rfl,rfl⟩ := h.waits hk
  have hnear := hy.near
  have hafter := ha hk
  rw [h.compare_start hy] at hafter
  have hbeyond : r.stats.bytesDelivered < y.offset := by grind
  exact ⟨y,⟨hy.toInStream,hbeyond,by omega⟩,rfl,rfl⟩

end Anchored

theorem Filed.anchored {y : Slice} {filing : Filing}
    (h : Filed r (initial.advance y.offset) (y.bytes S) filing t events)
    (hr : Anchored S initial n₀ r) (hy : y.Ahead S n₀) : Anchored S initial n₀ t := by
  refine hr.congr h.still fun {key payload} hk => ?_
  rcases h.held_before hk with ⟨rfl,rfl⟩ | hk
  · exact .inl ⟨y,hy,rfl,rfl⟩
  · exact .inr hk

theorem SliceRound.anchored (h : SliceRound S initial n₀ r t events)
    (hr : Anchored S initial n₀ r) : Anchored S initial n₀ t ∧ Extends S r t events := by
  have hlow := hr.low
  cases h with
  | handOn ahead starts held => exact (hr.without _ _).deliver ahead.toInStream starts ahead.near
  | @refile y filing t note es ahead starts stops held filed silent =>
    have hbeyond := ahead.beyond
    have hrest := ahead.after (by omega) stops
    refine ⟨filed.anchored (hr.without _ _) hrest,extends_of_still filed.still.handed ?_⟩
    rw [Event.deliveries_cons_of_none silent,filed.deliveries_eq]
  | discard ahead starts stops held silent =>
    refine ⟨hr.without _ _,extends_of_still rfl ?_⟩
    rw [Event.deliveries_cons_of_none silent,Event.deliveries_nil]

theorem Drains.anchored (h : Drains r t events) (hr : Anchored S initial n₀ r) :
    Anchored S initial n₀ t ∧ Extends S r t events := by
  induction h with
  | done => exact ⟨hr,extends_of_still rfl rfl⟩
  | round first _ ih =>
    have ⟨hs,hfirst⟩ := (first.slices hr).anchored hr
    have ⟨ht,hrest⟩ := ih hs
    exact ⟨ht,hfirst.append hrest⟩

theorem SlicePlaced.anchored {x : Slice} {outcome : Outcome}
    (h : SlicePlaced S initial x r outcome t events) (hx : x.InStream S)
    (hw : x.InWindow r.stats.bytesDelivered)
    (hr : Anchored S initial r.stats.bytesDelivered r) :
    Anchored S initial r.stats.bytesDelivered t ∧ Extends S r t events := by
  cases h with
  | old stops silent =>
    exact ⟨hr.congr ⟨⟨rfl,rfl⟩,rfl,rfl⟩ .inr,extends_of_still rfl silent⟩
  | @reached s notes trimmed starts stops still same silent =>
    have hs : Anchored S initial r.stats.bytesDelivered s :=
      hr.congr still fun hk => .inr (same ▸ hk)
    have hstop : (x.after r.stats.bytesDelivered).stop ≤ r.stats.bytesDelivered+2^31 :=
      (Slice.stop_after stops.le).le.trans hw.near
    have ⟨ht,hextends⟩ := hs.deliver (hx.after stops) still.handed.symm hstop
    exact ⟨ht,(extends_of_still still.handed silent).append hextends⟩
  | @ahead filing s es starts filed =>
    have hs := filed.anchored hr ⟨hx,starts,hw.near⟩
    have hd := Placed.deliveries_filed filed
    cases filing <;>
      exact ⟨hs.congr ⟨⟨rfl,rfl⟩,rfl,rfl⟩ .inr,extends_of_still filed.still.handed hd⟩

/-- Taking in one slice of the window hands on the next part of the stream. -/
theorem Ingested.anchored {x : Slice} {outcome : Outcome}
    (h : Ingested r (initial.advance x.offset) (x.bytes S) outcome t events) (hx : x.InStream S)
    (hw : x.InWindow r.stats.bytesDelivered)
    (hr : Anchored S initial r.stats.bytesDelivered r) :
    Anchored S initial t.stats.bytesDelivered t ∧ Extends S r t events := by
  cases h with
  | empty nothing => exact absurd nothing hx.bytes_ne_nil
  | taken some placed drained =>
    have hc := hr.countSegment
    have ⟨hs,hplaced⟩ := (placed.slice hc.next hx hw).anchored hx hw hc
    have ⟨ht,hdrained⟩ := drained.anchored hs
    exact ⟨ht.rebase drained.ahead,Extends.append hplaced hdrained⟩

theorem anchored_start (S : Bytes) (initial : SeqNum) (limits : Limits) (sink : ℕ) :
    Anchored S initial 0 ((start initial limits).setSink sink) :=
  ⟨(initial.advance_zero).symm,le_rfl,Nat.zero_le _,Nat.zero_le _,fun hk => by
    simp [start,setSink] at hk⟩

theorem run_anchored {xs : List Slice} (h : SlicesInWindow S initial r xs)
    (hr : Anchored S initial r.stats.bytesDelivered r) :
    Anchored S initial (r.run (Slice.ops S initial xs)).stats.bytesDelivered
        (r.run (Slice.ops S initial xs)) ∧
      Extends S r (r.run (Slice.ops S initial xs)) (r.trace (Slice.ops S initial xs)) := by
  induction xs generalizing r with
  | nil => exact ⟨hr,extends_of_still rfl rfl⟩
  | cons x xs ih =>
    have ⟨hx,hw,hxs⟩ := h
    have ⟨hs,hfirst⟩ := (ingest_ingested r _ _).anchored hx hw hr
    have ⟨ht,hrest⟩ := ih hxs hs
    exact ⟨ht,hfirst.append hrest⟩

theorem chunks_trace_slices (r : Receiver) (S : Bytes) (initial : SeqNum) (xs : List Slice) :
    Event.chunks (r.trace (Slice.ops S initial xs)) =
      Event.handedTo r.sink (Event.deliveries (r.trace (Slice.ops S initial xs))) := by
  induction xs generalizing r with
  | nil => exact chunks_of_nothing _ rfl
  | cons x xs ih =>
    have hfirst := ingest_ingested r (initial.advance x.offset) (x.bytes S)
    have hrest := ih (r.ingest (initial.advance x.offset) (x.bytes S)).2.1
    rw [hfirst.setup.sink] at hrest
    change Event.chunks ((r.ingest _ _).2.2 ++ _) =
      Event.handedTo r.sink (Event.deliveries ((r.ingest _ _).2.2 ++ _))
    rw [Event.chunks_append,Event.deliveries_append,Event.handedTo_append,hfirst.chunks_eq]
    exact congrArg _ hrest

theorem flatMap_handedTo (sink : ℕ) (events : List Event) :
    (Event.handedTo (some sink) (Event.deliveries events)).flatMap (·.2) = handed events := by
  simp [Event.handedTo,handed,List.flatMap_map]

def taken (r : Receiver) (ops : List Op) : Bytes := (Event.chunks (r.trace ops)).flatMap (·.2)

theorem taken_slices (limits : Limits) (sink : ℕ) {xs : List Slice}
    (h : SlicesInWindow S initial ((start initial limits).setSink sink) xs) :
    ((start initial limits).setSink sink).taken (Slice.ops S initial xs) =
      S.take (((start initial limits).setSink sink).run
        (Slice.ops S initial xs)).stats.bytesDelivered := by
  have hextends := (run_anchored h (anchored_start S initial limits sink)).2
  have hsink : ((start initial limits).setSink sink).sink = some sink := rfl
  rw [taken,chunks_trace_slices,hsink,flatMap_handedTo]
  exact hextends.symm

/-- After every slice of a run the sink has been given the part of the stream up to the next
position. -/
theorem run_hands_on_prefix (S : Bytes) (initial : SeqNum) (limits : Limits) (sink : ℕ)
    (xs : List Slice) (h : SlicesInWindow S initial ((start initial limits).setSink sink) xs) :
    ∀ done, done <+: xs →
      let r := (start initial limits).setSink sink
      let t := r.run (Slice.ops S initial done)
      r.taken (Slice.ops S initial done) = S.take t.stats.bytesDelivered ∧
        t.stats.bytesDelivered ≤ S.length ∧
        t.nextSeq = initial.advance t.stats.bytesDelivered := by
  intro done hdone r t
  have hd := h.of_prefix hdone
  have hr : Anchored S initial r.stats.bytesDelivered r := anchored_start S initial limits sink
  have ht := (run_anchored hd hr).1
  exact ⟨taken_slices limits sink hd,ht.inside,ht.next⟩

def letters : Bytes := [0,1,2,3,4,5,6,7,8,9,10,11]

/-- Slices that come out of order, overlap and repeat, across the end of the circle. -/
def jumble : List Slice :=
  [⟨6,4⟩,⟨3,4⟩,⟨9,3⟩,⟨0,2⟩,⟨3,2⟩,⟨1,4⟩,⟨0,5⟩,⟨8,1⟩,⟨5,5⟩]

/-- A receiver at which one of them is given up and one refused. -/
def cramped : Receiver :=
  (start 0xfffffffc
    {maxSegments := some 1, maxBytes := some 4, overflow := .evictFurthest}).setSink 7

theorem prefix_of_jumble :
    SlicesInWindow letters 0xfffffffc cramped jumble ∧
      cramped.taken (Slice.ops letters 0xfffffffc jumble) = letters.take 10 := by
  have h : SlicesInWindow letters 0xfffffffc cramped jumble := by decide +kernel
  have hcount : (cramped.run (Slice.ops letters 0xfffffffc jumble)).stats.bytesDelivered = 10 := by
    decide +kernel
  have ⟨htaken,_,_⟩ := run_hands_on_prefix letters 0xfffffffc _ 7 jumble h jumble
    (List.prefix_refl jumble)
  exact ⟨h,hcount ▸ htaken⟩

end Receiver
end Reassembly
