import Reassembly.Proofs.Ingesting

/-! What the verdict on a duplicate is worth. Every byte of the segment is behind the next position
or waits, unless the segment runs over the far side of the circle: then its end counts as behind
the next position although its start lies ahead, and it is given up whatever it carries. -/
namespace Reassembly
namespace SeqNum

theorem lt_distance_of_stops {a b : SeqNum} {n : ℕ} (h : compare a b = .before) (hn : n < 2^31)
    (hstop : compare (a.advance n) b = .before) : n < distance a b := by
  have hd := (compare_eq_before.mp h).2
  have hc := compare_advance a (x:=n) (y:=distance a b) (by omega) (by omega)
  rw [advance_distance,hstop] at hc
  by_contra hle
  grind

theorem compare_advance_self_ne_before (a : SeqNum) {n : ℕ} (hn : n < 2^31) :
    compare (a.advance n) a ≠ .before := by
  have hc := compare_advance a (x:=n) (y:=0) (by omega) (by omega)
  rw [advance_zero] at hc
  grind

end SeqNum

namespace Receiver

/-- The position lies in a payload that waits. -/
def Buffers (r : Receiver) (pos : SeqNum) : Prop :=
  ∃ key payload, r.pending.get? key = some payload ∧ SeqNum.distance key pos < payload.length

/-- The position lies behind the next one, or what is there waits. -/
def Seen (r : Receiver) (pos : SeqNum) : Prop :=
  SeqNum.compare pos r.nextSeq = .before ∨ r.Buffers pos

/-- The segment starts ahead of the next position and ends behind it. -/
def RunsOver (r : Receiver) (seq : SeqNum) (len : ℕ) : Prop :=
  SeqNum.compare seq r.nextSeq = .after ∧ SeqNum.compare (seq.advance len) r.nextSeq = .before

variable {r t : Receiver} {seq : SeqNum} {data : Bytes} {outcome : Outcome} {events : List Event}

theorem seen_of_lt_distance (h : SeqNum.compare seq r.nextSeq = .before) {j : ℕ}
    (hj : j < SeqNum.distance seq r.nextSeq) : r.Seen (seq.advance j) :=
  .inl (SeqNum.compare_of_lt_distance h hj)

theorem seen_of_waits {held : Bytes} (h : r.pending.get? seq = some held) {j : ℕ}
    (hj : j < held.length) (hlt : j < 2^32) : r.Seen (seq.advance j) :=
  .inr ⟨seq,held,h,by rwa [SeqNum.distance_advance_self seq hlt]⟩

theorem Placed.seen (h : Placed r seq data outcome t events) (ho : outcome = .duplicate)
    (hl : data.length < 2^31) (hr : ¬r.RunsOver seq data.length) :
    ∀ j < data.length, r.Seen (seq.advance j) := by
  intro j hj
  cases h with
  | behind ends =>
    have hstarts : SeqNum.compare seq r.nextSeq = .before := by
      cases hc : SeqNum.compare seq r.nextSeq with
      | before => rfl
      | after => exact absurd ⟨hc,ends⟩ hr
      | equal =>
        rw [← SeqNum.compare_eq_equal.mp hc] at ends
        exact absurd ends (SeqNum.compare_advance_self_ne_before seq hl)
    exact seen_of_lt_distance hstarts (hj.trans (SeqNum.lt_distance_of_stops hstarts hl ends))
  | covered starts short => exact seen_of_lt_distance starts (hj.trans_le short)
  | cut | next => cases ho
  | ahead starts ends filed =>
    cases filed with
    | kept waits short => exact seen_of_waits waits (hj.trans_le short) (by omega)
    | rejected | inserted | replaced => cases ho

theorem Ingested.seen (h : Ingested r seq data outcome t events) (ho : outcome = .duplicate)
    (hl : data.length < 2^31) (hr : ¬r.RunsOver seq data.length) :
    ∀ j < data.length, r.Seen (seq.advance j) := by
  cases h with
  | empty => cases ho
  | taken some placed => exact placed.seen ho hl hr

theorem Placed.duplicate_of_runsOver (h : Placed r seq data outcome t events)
    (hr : r.RunsOver seq data.length) : outcome = .duplicate := by
  obtain ⟨hstarts,hends⟩ := hr
  cases h with
  | behind => rfl
  | covered => rfl
  | cut _ ends => exact absurd hends ends
  | next _ ends => exact absurd hends ends
  | ahead _ ends => exact absurd hends ends

theorem Ingested.duplicate_of_runsOver (h : Ingested r seq data outcome t events)
    (hd : data ≠ []) (hr : r.RunsOver seq data.length) : outcome = .duplicate := by
  cases h with
  | empty nothing => exact absurd nothing hd
  | taken _ placed => exact placed.duplicate_of_runsOver hr

/-- After any run, a segment that is called a duplicate and does not run over the far side of the
circle holds nothing new; one that does is called a duplicate in any case. -/
theorem duplicate_seen_unless_runsOver (initial : SeqNum) (limits : Limits) (ops : List Op)
    (seq : SeqNum) (data : Bytes) (hd : data ≠ []) (hl : data.length < 2^31) :
    let r := (start initial limits).run ops
    ((r.ingest seq data).1 = .duplicate → ¬r.RunsOver seq data.length →
        ∀ j < data.length, r.Seen (seq.advance j)) ∧
      (r.RunsOver seq data.length → (r.ingest seq data).1 = .duplicate) := by
  intro r
  have h := ingest_ingested r seq data
  exact ⟨fun ho hr => h.seen ho hl hr,fun hr => h.duplicate_of_runsOver hd hr⟩

/-- A payload that waits across the end of the circle, and one in front of it. -/
def gap : List Op := [.ingest 0xfffffffe [1,2,3,4],.ingest 0xfffffff0 [5]]

theorem seen_of_gap :
    ((start 0xfffffff0 {}).run gap).pending.get? 0xfffffffe = some [1,2,3,4] ∧
      (((start 0xfffffff0 {}).run gap).ingest 0xfffffffe [7,8,9]).1 = .duplicate ∧
      ∀ j < 3, ((start 0xfffffff0 {}).run gap).Seen (SeqNum.advance 0xfffffffe j) := by
  have hdup : (((start 0xfffffff0 {}).run gap).ingest 0xfffffffe [7,8,9]).1 = .duplicate := by
    decide +kernel
  have hstays : ¬((start 0xfffffff0 {}).run gap).RunsOver 0xfffffffe 3 := by
    rw [RunsOver]
    decide +kernel
  have h := duplicate_seen_unless_runsOver 0xfffffff0 {} gap 0xfffffffe [7,8,9] (by decide)
    (by decide)
  exact ⟨by decide +kernel,hdup,h.1 hdup hstays⟩

/-- Two bytes that lie ahead of the next position and do not wait make a duplicate, because the
segment ends on the far side of the circle. -/
theorem duplicate_unseen : ¬∀ (initial : SeqNum) (limits : Limits) (ops : List Op) (seq : SeqNum)
    (data : Bytes), data ≠ [] → data.length < 2^31 →
      (((start initial limits).run ops).ingest seq data).1 = .duplicate →
      ∀ j < data.length, ((start initial limits).run ops).Seen (seq.advance j) := by
  intro h
  have hseen := h 0 {} [] 0x7fffffff [1,2] (by decide) (by decide) (by decide +kernel) 0 (by decide)
  rcases hseen with hbehind | ⟨key,payload,hheld,_⟩
  · revert hbehind
    decide +kernel
  · simp [run,start] at hheld

end Receiver
end Reassembly
