import Reassembly.Proofs.Ingesting

/-! Nothing that could be handed on is left waiting. Whatever was moved, all that waits after a
segment lies ahead of the next position; and as long as nothing is moved, it also ends within the
half of the circle that counts as ahead. -/
namespace Reassembly
namespace SeqNum

theorem compare_of_distance (base : SeqNum) {a b : SeqNum} (hpos : 0 < distance base a)
    (ha : distance base a ≤ 2^31) (hb : distance base b ≤ 2^31) :
    compare a b = if distance base a < distance base b then .before
      else if distance base a = distance base b then .equal else .after := by
  have h := compare_advance base (x:=distance base a) (y:=distance base b) (by omega) (by omega)
  rwa [advance_distance,advance_distance] at h

theorem distance_of_distance (base : SeqNum) {a b : SeqNum}
    (h : distance base a ≤ distance base b) : distance a b = distance base b-distance base a := by
  have hlt : distance base b < 2^32 := (b-base).toNat_lt
  have hd := base.distance_advance h (by omega)
  rwa [advance_distance,advance_distance] at hd

/-- Data shorter than half the circle that starts ahead of a position and does not end behind it
ends within the half of the circle ahead. -/
theorem distance_add_le {a b : SeqNum} {n : ℕ} (hstart : compare b a = .after) (hn : n < 2^31)
    (hend : compare (b.advance n) a ≠ .before) :
    0 < distance a b ∧ distance a b+n ≤ 2^31 := by
  have ha := a.toNat_lt
  have hb := b.toNat_lt
  rw [compare_eq_after,distance_eq] at hstart
  rw [Ne,compare_eq_before,distance_eq,toNat_advance] at hend
  rw [distance_eq]
  omega

end SeqNum

namespace Receiver

/-- All that waits lies in the half of the circle ahead of `base`, and so does the next position if
it has gone on from there. -/
structure Within (base : SeqNum) (r : Receiver) : Prop where
  reach : SeqNum.distance base r.nextSeq ≤ 2^31
  waits : ∀ {key payload}, r.pending.get? key = some payload →
    0 < SeqNum.distance base key ∧ SeqNum.distance base key+payload.length ≤ 2^31

variable {base seq key : SeqNum} {payload data : Bytes} {filing : Filing} {outcome : Outcome}
  {r t : Receiver} {events : List Event}

theorem within_start (initial : SeqNum) (limits : Limits) :
    Within initial (start initial limits) where
  reach := by simp [start]
  waits := by simp [start]

namespace Within

theorem congr (h : Within base r) (hnext : t.nextSeq = r.nextSeq)
    (hw : ∀ {key payload}, t.pending.get? key = some payload →
      (0 < SeqNum.distance base key ∧ SeqNum.distance base key+payload.length ≤ 2^31) ∨
        r.pending.get? key = some payload) : Within base t where
  reach := hnext ▸ h.reach
  waits := fun hk => (hw hk).elim id h.waits

theorem without (h : Within base r) (key : SeqNum) (payload : Bytes) :
    Within base (r.without key payload) :=
  h.congr rfl fun hk => .inr (held_of_without hk)

theorem filed (h : Within base r) (hf : Filed r seq payload filing t events)
    (hseq : 0 < SeqNum.distance base seq ∧ SeqNum.distance base seq+payload.length ≤ 2^31) :
    Within base t := by
  refine h.congr hf.still.next fun hk => ?_
  rcases hf.held_before hk with ⟨rfl,rfl⟩ | hk
  · exact .inl hseq
  · exact .inr hk

theorem deliver (h : Within base r)
    (hend : SeqNum.distance base r.nextSeq+data.length ≤ 2^31) :
    Within base (r.deliver data).1 where
  reach := by
    have hnext : (r.deliver data).1.nextSeq =
        base.advance (SeqNum.distance base r.nextSeq+data.length) := by
      rw [← SeqNum.advance_advance,SeqNum.advance_distance]
      rfl
    rw [hnext,SeqNum.distance_advance_self base (by omega)]
    exact hend
  waits := h.waits

theorem compare_next (h : Within base r) (hk : r.pending.get? key = some payload) :
    SeqNum.compare key r.nextSeq =
      if SeqNum.distance base key < SeqNum.distance base r.nextSeq then .before
      else if SeqNum.distance base key = SeqNum.distance base r.nextSeq then .equal
      else .after := by
  have ⟨hpos,hend⟩ := h.waits hk
  exact SeqNum.compare_of_distance base hpos (by omega) h.reach

theorem distance_lt_of_behind (h : Within base r) (hk : r.pending.get? key = some payload)
    (behind : SeqNum.compare key r.nextSeq = .before) :
    SeqNum.distance base key < SeqNum.distance base r.nextSeq := by
  rw [h.compare_next hk] at behind
  grind

theorem rest_waits (h : Within base r) (hk : r.pending.get? key = some payload)
    (behind : SeqNum.compare key r.nextSeq = .before)
    (reaches : SeqNum.compare (key.advance payload.length) r.nextSeq = .after) :
    0 < SeqNum.distance base r.nextSeq ∧ SeqNum.distance base r.nextSeq+
      (payload.drop (SeqNum.distance key r.nextSeq)).length ≤ 2^31 := by
  have ⟨hpos,hend⟩ := h.waits hk
  have hlong := SeqNum.distance_lt_of_reaches behind reaches
  have hlt := h.distance_lt_of_behind hk behind
  have hcovered := SeqNum.distance_of_distance base hlt.le
  rw [List.length_drop]
  omega

/-- Once everything that waits lies ahead, the next position may take the place of the base. -/
theorem rebase (h : Within base r)
    (ha : ∀ {key payload}, r.pending.get? key = some payload →
      SeqNum.compare key r.nextSeq = .after) : Within r.nextSeq r where
  reach := by simp
  waits := fun {key payload} hk => by
    have ⟨hpos,hend⟩ := h.waits hk
    have hafter := ha hk
    rw [h.compare_next hk] at hafter
    have hlt : SeqNum.distance base r.nextSeq < SeqNum.distance base key := by grind
    rw [SeqNum.distance_of_distance base hlt.le]
    omega

end Within

theorem Round.within (h : Round r t events) (hr : Within base r) : Within base t := by
  cases h with
  | handOn first held => exact (hr.without _ _).deliver (hr.waits held).2
  | @refile key payload filing t es first behind held reaches filed =>
    exact (hr.without key payload).filed filed (hr.rest_waits held behind reaches)
  | discard => exact hr.without _ _

theorem Drains.within (h : Drains r t events) (hr : Within base r) : Within base t := by
  induction h with
  | done => exact hr
  | round first _ ih => exact ih (first.within hr)

/-- Seen from the next position, a segment shorter than half the circle moves it within the half
ahead, or is filed there. -/
theorem Placed.within (h : Placed r seq data outcome t events) (hd : data.length < 2^31)
    (hr : Within r.nextSeq r) : Within r.nextSeq t := by
  cases h with
  | behind | covered => exact hr.congr rfl .inr
  | cut =>
    refine Within.deliver (hr.congr rfl .inr) ?_
    rw [List.length_drop]
    simp only [countTrimmed,SeqNum.distance_self]
    omega
  | next =>
    refine hr.deliver ?_
    rw [SeqNum.distance_self]
    omega
  | @ahead filing s es starts ends filed =>
    have hs := hr.filed filed (SeqNum.distance_add_le starts hd ends)
    cases filing <;> exact hs.congr rfl .inr

theorem Ingested.within (h : Ingested r seq data outcome t events) (hd : data.length < 2^31)
    (hr : Within r.nextSeq r) : Within t.nextSeq t := by
  cases h with
  | empty => exact hr
  | taken _ placed drained =>
    have hcounted : Within r.nextSeq r.countSegment := hr.congr rfl .inr
    exact (drained.within (placed.within hd hcounted)).rebase drained.ahead

/-- The operation moves nothing, and what it takes in is shorter than half the circle. -/
def Op.GoesOn : Op → Prop
  | .ingest _ data => data.length < 2^31
  | .reset _ => False
  | .setSink _ | .clearSink => True

instance : DecidablePred Op.GoesOn := fun op => by
  cases op <;> unfold Op.GoesOn <;> infer_instance

theorem step_within {op : Op} (hop : op.GoesOn) (hr : Within r.nextSeq r) :
    Within (r.step op).receiver.nextSeq (r.step op).receiver := by
  cases op with
  | ingest seq data => exact (ingest_ingested r seq data).within hop hr
  | reset => exact hop.elim
  | setSink | clearSink => exact hr.congr rfl .inr

theorem run_within {ops : List Op} (hops : ∀ op ∈ ops, op.GoesOn) (hr : Within r.nextSeq r) :
    Within (r.run ops).nextSeq (r.run ops) := by
  induction ops generalizing r with
  | nil => exact hr
  | cons op ops ih =>
    have ⟨hop,hrest⟩ := List.forall_mem_cons.mp hops
    exact ih hrest (step_within hop hr)

theorem Ingested.ahead (h : Ingested r seq data outcome t events) (hd : data ≠ [])
    (hk : t.pending.get? key = some payload) : SeqNum.compare key t.nextSeq = .after := by
  cases h with
  | empty nothing => exact absurd nothing hd
  | taken _ _ drained => exact drained.ahead hk

/-- After any run, a further segment with data leaves only what lies ahead of the next position; and
if the run moved nothing and its segments were short, what waits also ends within the half ahead. -/
theorem run_leaves_ahead (initial : SeqNum) (limits : Limits) (ops : List Op) :
    let r := (start initial limits).run ops
    (∀ seq data, data ≠ [] → ∀ e ∈ (r.step (.ingest seq data)).receiver.pending.entries,
        SeqNum.compare e.1 (r.step (.ingest seq data)).receiver.nextSeq = .after) ∧
      ((∀ op ∈ ops, op.GoesOn) → ∀ e ∈ r.pending.entries,
        1 ≤ SeqNum.distance r.nextSeq e.1 ∧ SeqNum.distance r.nextSeq e.1+e.2.length ≤ 2^31) := by
  intro r
  refine ⟨fun seq data hd e he => ?_,fun hops e he => ?_⟩
  · exact (ingest_ingested r seq data).ahead hd (Pending.get?_eq_some_iff.mpr he)
  · exact (run_within hops (within_start initial limits)).waits (Pending.get?_eq_some_iff.mpr he)

/-- Across the end of the circle, a payload is handed on in part and another one stays. -/
def stretch : List Op :=
  [.setSink 1,.ingest 0xfffffffe [1,2,3],.ingest 5 [4,5],.ingest 0xfffffff8 [0,0,0,0,0,0,0]]

theorem ahead_of_stretch :
    (∀ op ∈ stretch, op.GoesOn) ∧
      ((start 0xfffffff8 {}).run stretch).pending.entries = [(5,[4,5])] ∧
      SeqNum.distance ((start 0xfffffff8 {}).run stretch).nextSeq 5+[4,5].length ≤ 2^31 ∧
      SeqNum.compare 5 (((start 0xfffffff8 {}).run (stretch ++ [.reset 0x80000010])).step
        (.ingest 0x80000010 [6])).receiver.nextSeq = .after := by
  have hops : ∀ op ∈ stretch, op.GoesOn := by decide
  have hr : ((start 0xfffffff8 {}).run stretch).pending.entries = [(5,[4,5])] := by
    decide +kernel
  have ht : (((start 0xfffffff8 {}).run (stretch ++ [.reset 0x80000010])).step
      (.ingest 0x80000010 [6])).receiver.pending.entries = [(5,[4,5])] := by decide +kernel
  have hends := (run_leaves_ahead 0xfffffff8 {} stretch).2 hops
  have hahead := (run_leaves_ahead 0xfffffff8 {} (stretch ++ [.reset 0x80000010])).1 0x80000010 [6]
    (by decide)
  rw [hr] at hends
  rw [ht] at hahead
  exact ⟨hops,hr,(hends _ (List.mem_singleton_self _)).2,hahead _ (List.mem_singleton_self _)⟩

end Receiver
end Reassembly
