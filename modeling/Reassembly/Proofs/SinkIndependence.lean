import Reassembly.Proofs.Indifference

/-! The sink has no say in how a stream is put together. Wherever in a run sinks are registered and
removed, every verdict, position, payload and counter is the same; and each sink is given the data
that is handed on while it is registered. -/
namespace Reassembly

def Event.toSink (sink : Option ℕ) : Event → Event
  | .delivered _ start data => .delivered sink start data
  | e => e

theorem Event.deliveries_map_toSink (sink : Option ℕ) (events : List Event) :
    deliveries (events.map (toSink sink)) = deliveries events := by
  have hdelivery : delivery? ∘ toSink sink = delivery? := by
    funext e
    cases e <;> rfl
  rw [deliveries,List.filterMap_map,hdelivery,deliveries]

namespace Receiver

def withSink (sink : Option ℕ) (r : Receiver) : Receiver := {r with sink}

/-- The operation brings data or moves the next position; the others only change the sink. -/
def Op.onStream : Op → Bool
  | .ingest _ _ | .reset _ => true
  | .setSink _ | .clearSink => false

/-- The steps of a run at which something is done to the stream. -/
def streamSteps (r : Receiver) : List Op → List Step
  | [] => []
  | op::ops =>
    let rest := (r.step op).receiver.streamSteps ops
    if op.onStream then r.step op::rest else rest

/-- What the sinks are given in a run at whose steps on the stream `parts` are handed on, each to
the sink that is registered by then. -/
def dealt : Option ℕ → List Op → List (List (SeqNum × Bytes)) → List (ℕ × Bytes)
  | _, [], _ => []
  | _, .setSink sink::ops, parts => dealt (some sink) ops parts
  | _, .clearSink::ops, parts => dealt none ops parts
  | sink, .ingest _ _::ops, part::parts => Event.handedTo sink part ++ dealt sink ops parts
  | sink, .reset _::ops, part::parts => Event.handedTo sink part ++ dealt sink ops parts
  | _, _::_, [] => []

def Step.withSink (sink : Option ℕ) (s : Step) : Step :=
  ⟨s.outcome,s.receiver.withSink sink,s.events.map (Event.toSink sink)⟩

structure Step.SameStream (s t : Step) : Prop where
  outcome : t.outcome = s.outcome
  handed : Event.deliveries t.events = Event.deliveries s.events
  next : t.receiver.nextSeq = s.receiver.nextSeq
  pending : t.receiver.pending = s.receiver.pending
  pendingBytes : t.receiver.pendingBytes = s.receiver.pendingBytes
  stats : t.receiver.stats = s.receiver.stats

theorem Step.SameStream.of_withSink {sink : Option ℕ} {s t : Step}
    (h : t.withSink sink = s.withSink sink) : Step.SameStream s t where
  outcome := congrArg (fun x => x.outcome) h
  handed := by
    rw [← Event.deliveries_map_toSink sink,← Event.deliveries_map_toSink sink s.events]
    exact congrArg (fun x => Event.deliveries x.events) h
  next := congrArg (fun x => x.receiver.nextSeq) h
  pending := congrArg (fun x => x.receiver.pending) h
  pendingBytes := congrArg (fun x => x.receiver.pendingBytes) h
  stats := congrArg (fun x => x.receiver.stats) h

variable (sink : Option ℕ) (r : Receiver)

theorem unheeded_withSink : Unheeded (withSink sink) (Event.toSink sink) where
  next _ := rfl
  pending _ := rfl
  pendingBytes _ := rfl
  without _ _ _ := rfl
  deliver _ _ := rfl
  segment _ := rfl
  trimmed _ := rfl
  filing _ f := by cases f <;> rfl
  note {e} h := by
    cases e with
    | delivered => cases h
    | _ => rfl

theorem sparesLimits_withSink : SparesLimits (withSink sink) :=
  ⟨fun _ => rfl,fun _ => rfl,fun _ _ _ _ => rfl⟩

theorem step_withSink {op : Op} (h : op.onStream = true) :
    (r.withSink sink).step op = (r.step op).withSink sink := by
  cases op with
  | ingest seq data =>
    have hlimits := sparesLimits_withSink sink
    have hingest := (unheeded_withSink sink).ingest_of_limits r seq data hlimits
    rw [step,hingest]
    rfl
  | reset => rfl
  | setSink | clearSink => cases h

theorem withSink_step {op : Op} (h : op.onStream = false) :
    (r.step op).receiver.withSink sink = r.withSink sink := by
  cases op with
  | ingest | reset => cases h
  | setSink | clearSink => rfl

/-- Without its changes of the sink, a run of a receiver with any sink goes as before. -/
theorem steps_withSink (ops : List Op) :
    (r.withSink sink).steps (ops.filter Op.onStream) =
      (r.streamSteps ops).map (Step.withSink sink) := by
  induction ops generalizing r with
  | nil => rfl
  | cons op ops ih =>
    by_cases h : op.onStream = true
    · have hnext : ((r.step op).withSink sink).receiver = (r.step op).receiver.withSink sink := rfl
      rw [List.filter_cons_of_pos h,steps,step_withSink sink r h,hnext,ih,streamSteps,if_pos h,
        List.map_cons]
    · rw [Bool.not_eq_true] at h
      rw [List.filter_cons_of_neg (by simp [h]),← withSink_step sink r h,ih,streamSteps,
        if_neg (by simp [h])]

theorem run_withSink (ops : List Op) :
    (r.withSink sink).run (ops.filter Op.onStream) = (r.run ops).withSink sink := by
  induction ops generalizing r with
  | nil => rfl
  | cons op ops ih =>
    by_cases h : op.onStream = true
    · have hnext : ((r.step op).withSink sink).receiver = (r.step op).receiver.withSink sink := rfl
      rw [List.filter_cons_of_pos h,run,step_withSink sink r h,hnext,ih,run]
    · rw [Bool.not_eq_true] at h
      rw [List.filter_cons_of_neg (by simp [h]),← withSink_step sink r h,ih,run]

/-- The data of each step on the stream goes to the sink registered by then. -/
theorem chunks_trace (ops : List Op) : Event.chunks (r.trace ops) =
    dealt r.sink ops ((r.streamSteps ops).map fun s => Event.deliveries s.events) := by
  induction ops generalizing r with
  | nil => rfl
  | cons op ops ih =>
    rw [trace_cons,Event.chunks_append,ih]
    cases op with
    | ingest seq data =>
      have h := ingest_ingested r seq data
      have hchunks : Event.chunks (r.step (.ingest seq data)).events = _ := h.chunks_eq
      have hsink : (r.step (.ingest seq data)).receiver.sink = r.sink := h.setup.sink
      rw [hchunks,hsink]
      rfl
    | reset => exact congrArg (· ++ _) (Event.handedTo_nil r.sink).symm
    | setSink | clearSink => rfl

/-- Two runs that differ only in when sinks are registered and removed do the same to the stream at
every step; and in both the sinks are given the same data, each what is handed on in its time. -/
theorem runs_alike_whatever_sinks (initial : SeqNum) (limits : Limits) (xs ys : List Op)
    (h : xs.filter Op.onStream = ys.filter Op.onStream) :
    let r := start initial limits
    let parts := (r.streamSteps xs).map fun s => Event.deliveries s.events
    List.Forall₂ Step.SameStream (r.streamSteps xs) (r.streamSteps ys) ∧
      (r.run ys).withSink none = (r.run xs).withSink none ∧
      Event.chunks (r.trace xs) = dealt none xs parts ∧
      Event.chunks (r.trace ys) = dealt none ys parts := by
  intro r parts
  have hsteps : (r.streamSteps xs).map (Step.withSink none) =
      (r.streamSteps ys).map (Step.withSink none) := by
    rw [← steps_withSink,← steps_withSink,h]
  have hsame : List.Forall₂ Step.SameStream (r.streamSteps xs) (r.streamSteps ys) := by
    rw [← List.forall₂_eq_eq_eq,List.forall₂_map_left_iff,List.forall₂_map_right_iff] at hsteps
    exact hsteps.imp fun _ _ heq => .of_withSink heq.symm
  refine ⟨hsame,?_,chunks_trace r xs,?_⟩
  · rw [← run_withSink,← run_withSink,h]
  · have hparts : parts = (r.streamSteps ys).map fun s => Event.deliveries s.events := by
      rw [← List.forall₂_eq_eq_eq,List.forall₂_map_left_iff,List.forall₂_map_right_iff]
      exact hsame.imp fun _ _ hs => hs.handed.symm
    rw [hparts]
    exact chunks_trace r ys

/-- Two sinks take turns, the second while a segment is handed on that releases what waits. -/
def turns : List Op :=
  [.setSink 1,.ingest 3 [4,5],.ingest 0xfffffffe [1,2],.setSink 2,.ingest 0 [3,3,3,4],.clearSink,
    .ingest 5 [6],.setSink 1,.reset 9,.ingest 9 [7]]

def lateSink : List Op :=
  [.ingest 3 [4,5],.ingest 0xfffffffe [1,2],.ingest 0 [3,3,3,4],.setSink 5,.ingest 5 [6],.reset 9,
    .clearSink,.ingest 9 [7]]

theorem same_in_turns :
    turns.filter Op.onStream = lateSink.filter Op.onStream ∧
      ((start 0xfffffffe {}).run lateSink).withSink none =
        ((start 0xfffffffe {}).run turns).withSink none ∧
      Event.chunks ((start 0xfffffffe {}).trace turns) =
        [(1,[1,2]),(2,[3,3,3,4]),(2,[5]),(1,[7])] ∧
      Event.chunks ((start 0xfffffffe {}).trace lateSink) = [(5,[6])] := by
  have h : turns.filter Op.onStream = lateSink.filter Op.onStream := by decide
  have ⟨_,hrun,hturns,hlate⟩ := runs_alike_whatever_sinks 0xfffffffe {} turns lateSink h
  refine ⟨h,hrun,?_,?_⟩
  · rw [hturns]
    decide +kernel
  · rw [hlate]
    decide +kernel

end Receiver
end Reassembly
