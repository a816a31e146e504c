import Reassembly.Proofs.Filing

/-! What draining and taking in a segment can do, in the manner of the relations for filing. -/
namespace Reassembly

def Filing.outcome : Filing → Outcome
  | .inserted | .replaced => .buffered false
  | .kept => .duplicate
  | .rejected => .dropped

namespace Receiver

def countFiling (r : Receiver) : Filing → Receiver
  | .inserted | .replaced => r.countBuffered
  | .kept => r.countDuplicate
  | .rejected => r.countDropped

@[simp] theorem countFiling_nextSeq (r : Receiver) (filing : Filing) :
    (r.countFiling filing).nextSeq = r.nextSeq := by
  cases filing <;> rfl
@[simp] theorem countFiling_pending (r : Receiver) (filing : Filing) :
    (r.countFiling filing).pending = r.pending := by
  cases filing <;> rfl
@[simp] theorem countFiling_evictions (r : Receiver) (filing : Filing) :
    (r.countFiling filing).stats.evictions = r.stats.evictions := by
  cases filing <;> rfl

def refusal (r : Receiver) (seq : SeqNum) (data : Bytes) : Filing → List Event
  | .rejected => [.refused seq data.length r.pending.size r.pendingBytes]
  | _ => []

/-- One round of draining. -/
inductive Round (r : Receiver) : Receiver → List Event → Prop
  | handOn {payload} (first : r.firstKey? = some r.nextSeq)
      (held : r.pending.get? r.nextSeq = some payload) :
      Round r ((r.without r.nextSeq payload).deliver payload).1
        ((r.without r.nextSeq payload).deliver payload).2
  | refile {key payload filing t events} (first : r.firstKey? = some key)
      (behind : SeqNum.compare key r.nextSeq = .before)
      (held : r.pending.get? key = some payload)
      (reaches : SeqNum.compare (key.advance payload.length) r.nextSeq = .after)
      (filed : Filed (r.without key payload) r.nextSeq
        (payload.drop (SeqNum.distance key r.nextSeq)) filing t events) :
      Round r t (.refiled key (SeqNum.distance key r.nextSeq) r.nextSeq::events)
  | discard {key payload} (first : r.firstKey? = some key)
      (behind : SeqNum.compare key r.nextSeq = .before)
      (held : r.pending.get? key = some payload)
      (ends : SeqNum.compare (key.advance payload.length) r.nextSeq ≠ .after) :
      Round r (r.without key payload) [.stale key payload.length]

theorem drainRound?_eq_some {r t : Receiver} {events : List Event}
    (h : r.drainRound? = some (t,events)) : Round r t events := by
  unfold drainRound? at h
  split at h
  · simp at h
  · rename_i key hfirst
    split at h
    · simp at h
    · rename_i hk
      have hkey : key = r.nextSeq := SeqNum.compare_eq_equal.mp hk
      subst hkey
      obtain ⟨⟨payload,s⟩,ht,he⟩ := Option.map_eq_some_iff.mp h
      obtain ⟨hheld,rfl⟩ := take?_eq_some_iff.mp ht
      cases he
      exact .handOn hfirst hheld
    · rename_i hk
      obtain ⟨⟨payload,s⟩,ht,he⟩ := Option.map_eq_some_iff.mp h
      obtain ⟨hheld,rfl⟩ := take?_eq_some_iff.mp ht
      dsimp only at he
      split at he
      · rename_i hreaches
        cases he
        exact .refile hfirst hk hheld hreaches (store_filed _ _ _)
      · rename_i hends
        cases he
        exact .discard hfirst hk hheld hends

theorem drainRound?_eq_none {r : Receiver} (h : r.drainRound? = none) {key : SeqNum}
    {payload : Bytes} (hk : r.pending.get? key = some payload) :
    SeqNum.compare key r.nextSeq = .after := by
  unfold drainRound? at h
  split at h
  · rename_i hfirst
    simp [Pending.firstFrom?_eq_none hfirst] at hk
  · rename_i first hfirst
    obtain ⟨hheld,hleast⟩ := Pending.firstFrom?_eq_some hfirst
    obtain ⟨p,hp⟩ := Option.isSome_iff_exists.mp hheld
    have htake : r.take? first = some (p,r.without first p) := take?_eq_some_iff.mpr ⟨hp,rfl⟩
    split at h
    · rename_i hc
      have hle : r.rank first ≤ r.rank key := hleast key payload hk
      rw [compare_eq_rank] at hc ⊢
      grind
    · simp [htake] at h
    · simp [htake] at h

theorem chunks_deliver (r : Receiver) (data : Bytes) :
    Event.chunks (r.deliver data).2 =
      Event.handedTo r.sink (Event.deliveries (r.deliver data).2) := by
  cases h : r.sink <;> simp [deliver,h,Event.chunks,Event.chunk?,Event.handedTo]

theorem chunks_of_nothing {es : List Event} (sink : Option ℕ) (h : Event.deliveries es = []) :
    Event.chunks es = Event.handedTo sink (Event.deliveries es) := by
  rw [h,Event.handedTo_nil,Event.chunks_eq_nil h]

theorem Round.chunks_eq {r t : Receiver} {events : List Event} (h : Round r t events) :
    Event.chunks events = Event.handedTo r.sink (Event.deliveries events) := by
  cases h with
  | handOn => exact chunks_deliver _ _
  | refile _ _ _ _ filed =>
    apply chunks_of_nothing
    rw [Event.deliveries_cons_of_none rfl,filed.deliveries_eq]
  | discard => exact chunks_of_nothing _ rfl

theorem Round.setup {r t : Receiver} {events : List Event} (h : Round r t events) :
    SameSetup r t := by
  cases h with
  | handOn => exact ⟨rfl,rfl⟩
  | refile _ _ _ _ filed => exact ⟨filed.still.limits,filed.still.sink⟩
  | discard => exact ⟨rfl,rfl⟩

/-- Rounds until none is left. -/
inductive Drains : Receiver → Receiver → List Event → Prop
  | done {r} (rest : r.drainRound? = none) : Drains r r []
  | round {r s t es fs} (first : Round r s es) (rest : Drains s t fs) : Drains r t (es++fs)

theorem drain_drains (r : Receiver) : Drains r r.drain.1 r.drain.2 := by
  fun_induction drain r with
  | case1 r h => exact .done h
  | case2 r s events h t rest he ih =>
    rw [he] at ih
    exact .round (drainRound?_eq_some h) ih

theorem Drains.setup {r t : Receiver} {events : List Event} (h : Drains r t events) :
    SameSetup r t := by
  induction h with
  | done => exact ⟨rfl,rfl⟩
  | round first _ ih => exact first.setup.trans ih

theorem Drains.chunks_eq {r t : Receiver} {events : List Event} (h : Drains r t events) :
    Event.chunks events = Event.handedTo r.sink (Event.deliveries events) := by
  induction h with
  | done => exact chunks_of_nothing _ rfl
  | round first _ ih =>
    rw [Event.chunks_append,Event.deliveries_append,Event.handedTo_append,first.chunks_eq,ih,
      first.setup.sink]

theorem Drains.ahead {r t : Receiver} {events : List Event} (h : Drains r t events) {key : SeqNum}
    {payload : Bytes} (hk : t.pending.get? key = some payload) :
    SeqNum.compare key t.nextSeq = .after := by
  induction h with
  | done rest => exact drainRound?_eq_none rest hk
  | round _ _ ih => exact ih hk

/-- Judging a segment with data. -/
inductive Placed (r : Receiver) (seq : SeqNum) (data : Bytes) :
    Outcome → Receiver → List Event → Prop
  | behind (ends : SeqNum.compare (seq.advance data.length) r.nextSeq = .before) :
      Placed r seq data .duplicate r.countDuplicate [.retransmitted seq data.length r.nextSeq]
  | covered (starts : SeqNum.compare seq r.nextSeq = .before)
      (short : data.length ≤ SeqNum.distance seq r.nextSeq) :
      Placed r seq data .duplicate r.countDuplicate []
  | cut (starts : SeqNum.compare seq r.nextSeq = .before)
      (ends : SeqNum.compare (seq.advance data.length) r.nextSeq ≠ .before)
      (long : SeqNum.distance seq r.nextSeq < data.length) :
      Placed r seq data (.delivered true)
        (r.countTrimmed.deliver (data.drop (SeqNum.distance seq r.nextSeq))).1
        (.trimmed seq (SeqNum.distance seq r.nextSeq) r.nextSeq::
          (r.countTrimmed.deliver (data.drop (SeqNum.distance seq r.nextSeq))).2)
  | next (starts : seq = r.nextSeq)
      (ends : SeqNum.compare (seq.advance data.length) r.nextSeq ≠ .before) :
      Placed r seq data (.delivered false) (r.deliver data).1 (r.deliver data).2
  | ahead {filing t events} (starts : SeqNum.compare seq r.nextSeq = .after)
      (ends : SeqNum.compare (seq.advance data.length) r.nextSeq ≠ .before)
      (filed : Filed r seq data filing t events) :
      Placed r seq data filing.outcome (t.countFiling filing) (events ++ t.refusal seq data filing)

theorem place_placed (r : Receiver) (seq : SeqNum) (data : Bytes) :
    Placed r seq data (r.place seq data).1 (r.place seq data).2.1 (r.place seq data).2.2 := by
  rw [place]
  split
  · rename_i hends
    exact .behind hends
  · rename_i hends
    split
    · rename_i hstarts
      dsimp only
      split
      · rename_i hrest
        exact .covered hstarts (by simpa using hrest)
      · rename_i hrest
        have hcut := Placed.cut hstarts hends (by simpa using hrest)
        simpa [deliverOrStore,countTrimmed] using hcut
    · rename_i hstarts
      rw [deliverOrStore]
      split
      · rename_i heq
        exact .next heq hends
      · rename_i hne
        have hahead : SeqNum.compare seq r.nextSeq = .after := by
          cases hc : SeqNum.compare seq r.nextSeq with
          | equal => exact absurd (SeqNum.compare_eq_equal.mp hc) hne
          | before => exact absurd hc hstarts
          | after => rfl
        have hfiled := store_filed r seq data
        split <;> rename_i s events hstored <;> rw [hstored] at hfiled <;>
          simpa [Filing.outcome,countFiling,refusal] using Placed.ahead hahead hends hfiled

theorem Placed.setup {r t : Receiver} {seq : SeqNum} {data : Bytes} {outcome : Outcome}
    {events : List Event} (h : Placed r seq data outcome t events) : SameSetup r t := by
  cases h with
  | behind => exact ⟨rfl,rfl⟩
  | covered => exact ⟨rfl,rfl⟩
  | cut => exact ⟨rfl,rfl⟩
  | next => exact ⟨rfl,rfl⟩
  | @ahead filing s es _ _ filed =>
    have hs := filed.still.toSameSetup
    cases filing <;> exact ⟨hs.limits,hs.sink⟩

theorem Placed.deliveries_filed {r t : Receiver} {seq : SeqNum} {data : Bytes} {filing : Filing}
    {events : List Event} (h : Filed r seq data filing t events) :
    Event.deliveries (events ++ t.refusal seq data filing) = [] := by
  rw [Event.deliveries_append,h.deliveries_eq]
  cases filing <;> rfl

theorem Placed.chunks_eq {r t : Receiver} {seq : SeqNum} {data : Bytes} {outcome : Outcome}
    {events : List Event} (h : Placed r seq data outcome t events) :
    Event.chunks events = Event.handedTo r.sink (Event.deliveries events) := by
  cases h with
  | behind => exact chunks_of_nothing _ rfl
  | covered => exact chunks_of_nothing _ rfl
  | cut => exact chunks_deliver r.countTrimmed _
  | next => exact chunks_deliver _ _
  | ahead _ _ filed => exact chunks_of_nothing _ (deliveries_filed filed)

inductive Ingested (r : Receiver) (seq : SeqNum) (data : Bytes) :
    Outcome → Receiver → List Event → Prop
  | empty (nothing : data = []) : Ingested r seq data .empty r []
  | taken {outcome s t es fs} (some : data ≠ [])
      (placed : Placed r.countSegment seq data outcome s es) (drained : Drains s t fs) :
      Ingested r seq data outcome t (es++fs)

theorem ingest_ingested (r : Receiver) (seq : SeqNum) (data : Bytes) :
    Ingested r seq data (r.ingest seq data).1 (r.ingest seq data).2.1 (r.ingest seq data).2.2 := by
  rw [ingest]
  split
  · rename_i h
    exact .empty (by simpa using h)
  · rename_i h
    exact .taken (by simpa using h) (place_placed _ _ _) (drain_drains _)

theorem Ingested.setup {r t : Receiver} {seq : SeqNum} {data : Bytes} {outcome : Outcome}
    {events : List Event} (h : Ingested r seq data outcome t events) : SameSetup r t := by
  cases h with
  | empty => exact ⟨rfl,rfl⟩
  | taken _ placed drained =>
    have h := placed.setup.trans drained.setup
    exact ⟨h.limits,h.sink⟩

theorem Ingested.chunks_eq {r t : Receiver} {seq : SeqNum} {data : Bytes} {outcome : Outcome}
    {events : List Event} (h : Ingested r seq data outcome t events) :
    Event.chunks events = Event.handedTo r.sink (Event.deliveries events) := by
  cases h with
  | empty => exact chunks_of_nothing _ rfl
  | taken _ placed drained =>
    rw [Event.chunks_append,Event.deliveries_append,Event.handedTo_append,placed.chunks_eq,
      drained.chunks_eq,placed.setup.sink]
    rfl

def trace (r : Receiver) (ops : List Op) : List Event := (r.steps ops).flatMap (·.events)

@[simp] theorem trace_nil (r : Receiver) : r.trace [] = [] := rfl
@[simp] theorem trace_cons (r : Receiver) (op : Op) (ops : List Op) :
    r.trace (op::ops) = (r.step op).events ++ (r.step op).receiver.trace ops := rfl

theorem step_limits (r : Receiver) (op : Op) : (r.step op).receiver.limits = r.limits := by
  cases op with
  | ingest seq data => exact (ingest_ingested r seq data).setup.limits
  | reset | setSink | clearSink => rfl

theorem run_limits (r : Receiver) (ops : List Op) : (r.run ops).limits = r.limits := by
  induction ops generalizing r with
  | nil => rfl
  | cons op ops ih => exact (ih _).trans (step_limits r op)

end Receiver
end Reassembly
