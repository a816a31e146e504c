import Reassembly.Proofs.Draining
import Reassembly.Proofs.Duplicates

/-! Draining loses nothing. Whatever the caps and wherever the next position was moved to, no round
gives anything up or is refused room; and each position ahead that a payload covers is handed on or
stays covered. A payload that is cut keeps what lies beyond the next position, and one that is
dropped has nothing there that another does not cover. -/
namespace Reassembly

def Event.handedBytes (events : List Event) : ℕ := ((deliveries events).map (·.2.length)).sum

@[simp] theorem Event.handedBytes_append (es fs : List Event) :
    handedBytes (es++fs) = handedBytes es+handedBytes fs := by
  simp [handedBytes]

namespace Receiver

variable {r s t : Receiver} {seq key : SeqNum} {payload : Bytes} {events : List Event} {x : ℕ}

def Leads (r s : Receiver) : Prop := ∃ events, r.drainRound? = some (s,events)

/-- In each round that files a payload again, the store takes it or has one as long. -/
def Refiles (r : Receiver) : Prop :=
  ∀ key payload, r.firstKey? = some key → SeqNum.compare key r.nextSeq = .before →
    r.pending.get? key = some payload →
    SeqNum.compare (key.advance payload.length) r.nextSeq = .after →
    ((r.without key payload).store r.nextSeq
      (payload.drop (SeqNum.distance key r.nextSeq))).1 ≠ .rejected

theorem storeFreely_ne_rejected (r : Receiver) (seq : SeqNum) (payload : Bytes) :
    (r.storeFreely seq payload).1 ≠ .rejected := by
  rw [storeFreely]
  split
  · simp
  · split <;> simp

theorem Consistent.refiles (hr : Consistent r) : Refiles r := by
  intro key payload _ _ held _
  rw [store_of_fits (hr.refile_fits held _)]
  exact storeFreely_ne_rejected _ _ _

theorem Consistent.passes (hr : Consistent r) (h : Relation.ReflTransGen Leads r s) :
    Consistent s := by
  induction h with
  | refl => exact hr
  | tail _ leads ih =>
    obtain ⟨events,hround⟩ := leads
    exact (drainRound?_eq_some hround).consistent ih

theorem FreeRound.evictions_eq (h : FreeRound r t events) :
    t.stats.evictions = r.stats.evictions := by
  cases h with
  | handOn | discard | absorb | refile => rfl

theorem FreelyDrains.evictions_eq (h : FreelyDrains r t events) :
    t.stats.evictions = r.stats.evictions := by
  induction h with
  | done => rfl
  | round _ first _ ih => exact ih.trans first.evictions_eq

theorem FreeRound.next_eq (h : FreeRound r t events) :
    t.nextSeq = r.nextSeq.advance (Event.handedBytes events) := by
  cases h with
  | handOn => simp [deliver,Event.handedBytes]
  | discard | absorb | refile => exact (SeqNum.advance_zero _).symm

theorem lt_length_drop (hbehind : SeqNum.compare key r.nextSeq = .before) (hx : x < 2^31)
    (h : SeqNum.distance key (r.nextSeq.advance x) < payload.length) :
    x < (payload.drop (SeqNum.distance key r.nextSeq)).length := by
  have hd := (SeqNum.compare_eq_before.mp hbehind).2
  rw [SeqNum.distance_advance_right (by omega)] at h
  rw [List.length_drop]
  omega

theorem buffers_next (h : r.pending.get? r.nextSeq = some payload) (hx : x < 2^31)
    (hlt : x < payload.length) : r.Buffers (r.nextSeq.advance x) :=
  ⟨r.nextSeq,payload,h,by rwa [SeqNum.distance_advance_self _ (by omega)]⟩

theorem buffers_without {pos : SeqNum} (hb : r.Buffers pos)
    (held : r.pending.get? key = some payload) (hout : payload.length ≤ SeqNum.distance key pos) :
    (r.without key payload).Buffers pos := by
  obtain ⟨k,p,hheld,hlt⟩ := hb
  have hne : k ≠ key := by
    rintro rfl
    obtain rfl : payload = p := Option.some.inj (held.symm.trans hheld)
    omega
  exact ⟨k,p,by simpa [hne] using hheld,hlt⟩

/-- A round hands on a position that is covered, or leaves it covered. -/
theorem FreeRound.keeps (h : FreeRound r t events) (hs : r.pending.Short) (hx : x < 2^31)
    (hb : r.Buffers (r.nextSeq.advance x)) :
    x < Event.handedBytes events ∨ t.Buffers (r.nextSeq.advance x) := by
  cases h with
  | @handOn payload first held =>
    have hbytes : Event.handedBytes
        ((r.without r.nextSeq payload).deliver payload).2 = payload.length := by
      simp [deliver,Event.handedBytes]
    rw [hbytes]
    refine or_iff_not_imp_left.mpr fun hout => ?_
    have hout' : payload.length ≤ SeqNum.distance r.nextSeq (r.nextSeq.advance x) := by
      rw [SeqNum.distance_advance_self _ (by omega)]
      exact not_lt.mp hout
    exact buffers_without hb held hout'
  | @discard key payload first behind held ends =>
    refine .inr (buffers_without hb held (not_lt.mp fun hin => ?_))
    have hrest := lt_length_drop behind hx hin
    rw [List.length_drop] at hrest
    exact ends ((SeqNum.reaches_iff (by simp [behind]) (hs.length_lt held)).mpr (by omega))
  | @absorb key payload longer first behind held reaches waits short =>
    right
    by_cases hin : SeqNum.distance key (r.nextSeq.advance x) < payload.length
    · have hwaits : (r.without key payload).pending.get? r.nextSeq = some longer := by
        simpa [(ne_next_of_behind behind).symm] using waits
      exact buffers_next hwaits hx ((lt_length_drop behind hx hin).trans_le short)
    · exact buffers_without hb held (not_lt.mp hin)
  | @refile key payload growth first behind held reaches long =>
    right
    have hrest : x < (payload.drop (SeqNum.distance key r.nextSeq)).length →
        ((r.without key payload).holding r.nextSeq
          (payload.drop (SeqNum.distance key r.nextSeq)) growth).Buffers (r.nextSeq.advance x) :=
      buffers_next (by simp [holding]) hx
    by_cases hin : SeqNum.distance key (r.nextSeq.advance x) < payload.length
    · exact hrest (lt_length_drop behind hx hin)
    · obtain ⟨k,p,hheld,hlt⟩ := buffers_without hb held (not_lt.mp hin)
      by_cases hk : k = r.nextSeq
      · -- What waited at the next position was shorter than what now waits there.
        subst hk
        rw [SeqNum.distance_advance_self _ (by omega)] at hlt
        exact hrest (hlt.trans (long p (held_of_without hheld)))
      · exact ⟨k,p,by simpa [holding,hk] using hheld,hlt⟩

theorem FreelyDrains.keeps (h : FreelyDrains r t events) (hs : r.pending.Short) (hx : x < 2^31)
    (hb : r.Buffers (r.nextSeq.advance x)) :
    x < Event.handedBytes events ∨ t.Buffers (r.nextSeq.advance x) := by
  induction h generalizing x with
  | done => exact .inr hb
  | @round r s t es fs _ first _ ih =>
    rw [Event.handedBytes_append]
    rcases first.keeps hs hx hb with hlt | hb
    · exact .inl (Nat.lt_add_right _ hlt)
    · rcases lt_or_ge x (Event.handedBytes es) with hlt | hle
      · exact .inl (Nat.lt_add_right _ hlt)
      · -- Seen from the position reached by now, the same one is that much less far ahead.
        have hpos : r.nextSeq.advance x = s.nextSeq.advance (x-Event.handedBytes es) := by
          rw [first.next_eq,SeqNum.advance_advance,Nat.add_sub_cancel' hle]
        rw [hpos] at hb ⊢
        rcases ih (first.short hs) (by omega) hb with hlt | hb
        · exact .inl (by omega)
        · exact .inr hb

/-- Draining a consistent receiver gives nothing up and files again whatever it cuts; and each
position ahead that was covered is either among the bytes handed on or covered still. -/
theorem drain_loses_nothing (hr : Consistent r) (hs : r.pending.Short) :
    r.drain.1.stats.evictions = r.stats.evictions ∧
      (∀ s, Relation.ReflTransGen Leads r s → Refiles s) ∧
      ∀ x < 2^31, r.Buffers (r.nextSeq.advance x) →
        x < Event.handedBytes r.drain.2 ∨ r.drain.1.Buffers (r.nextSeq.advance x) := by
  have h := hr.drain_freely
  exact ⟨h.evictions_eq,fun s passes => (hr.passes passes).refiles,fun x hx hb => h.keeps hs hx hb⟩

/-- Both caps are full when the next position is moved into the first of two payloads. -/
def overtaken : List Op := [.ingest 0xfffffffe [1,2,3,4],.ingest 4 [5,6],.reset 0]

theorem kept_of_overtaken :
    ((start 0xfffffff0 brimLimits).run overtaken).pendingBytes = 6 ∧
      ((start 0xfffffff0 brimLimits).run overtaken).drain.1.stats.evictions = 0 ∧
      Event.handedBytes ((start 0xfffffff0 brimLimits).run overtaken).drain.2 = 2 ∧
      ((start 0xfffffff0 brimLimits).run overtaken).drain.1.Buffers 5 := by
  have hr : Consistent ((start 0xfffffff0 brimLimits).run overtaken) :=
    run_consistent overtaken (consistent_start _ _)
  have hs : ((start 0xfffffff0 brimLimits).run overtaken).pending.Short := by
    rw [Pending.Short]
    decide +kernel
  have hbytes : Event.handedBytes ((start 0xfffffff0 brimLimits).run overtaken).drain.2 = 2 := by
    decide +kernel
  have hcovered : ((start 0xfffffff0 brimLimits).run overtaken).Buffers (SeqNum.advance 0 5) :=
    ⟨4,[5,6],by decide +kernel,by decide⟩
  have ⟨hevictions,_,hkeeps⟩ := drain_loses_nothing hr hs
  refine ⟨by decide +kernel,hevictions.trans (by decide +kernel),hbytes,?_⟩
  rcases hkeeps 5 (by decide) hcovered with hlt | hb
  · rw [hbytes] at hlt
    omega
  · exact hb

end Receiver
end Reassembly
