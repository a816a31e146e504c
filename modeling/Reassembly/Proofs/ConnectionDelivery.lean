import Reassembly.Connection
import Reassembly.Proofs.Pickup

/-! A connection puts the stream of its segments together. To its receiver a segment is a few
operations, which depend on the position, the payload and the SYN alone; a SYN that finds nothing
handed on moves the receiver to where it is. -/
namespace Reassembly
namespace Segment

/-- What of a segment its data depends on. -/
def essence (s : Segment) : Bool × SeqNum × Bytes := (s.isSyn,s.seq,s.payload)

/-- What a segment does to the receiver of its connection. -/
def ops (s : Segment) : List Receiver.Op :=
  let taken := [Receiver.Op.ingest (Connection.dataStart s) s.payload]
  if s.isSyn then .reset (Connection.dataStart s)::taken else taken

def slice (first : SeqNum) (s : Segment) : Slice :=
  ⟨SeqNum.distance first (Connection.dataStart s),s.payload.length⟩

def TakenFrom (S : Bytes) (first : SeqNum) (s : Segment) : Prop :=
  s.payload = (s.slice first).bytes S

instance (S : Bytes) (first : SeqNum) (s : Segment) : Decidable (s.TakenFrom S first) :=
  inferInstanceAs (Decidable (s.payload = (s.slice first).bytes S))

variable {S : Bytes} {first : SeqNum} {s : Segment}

theorem ops_of_syn (h : s.isSyn = true) :
    s.ops = [.reset (Connection.dataStart s),.ingest (Connection.dataStart s) s.payload] :=
  if_pos h

theorem ops_of_not_syn (h : s.isSyn = false) : s.ops = [.ingest s.seq s.payload] := by
  have hsyn : ¬s.isSyn = true := by simp [h]
  rw [ops,if_neg hsyn,Connection.dataStart,if_neg hsyn]

theorem ops_congr {t : Segment} (h : t.essence = s.essence) : t.ops = s.ops := by
  simp only [essence,Prod.mk.injEq] at h
  simp only [ops,Connection.dataStart,h]

theorem ops_of_essence {ss ts : List Segment} (h : ts.map essence = ss.map essence) :
    ts.flatMap ops = ss.flatMap ops := by
  induction ts generalizing ss with
  | nil =>
    cases ss with
    | nil => rfl
    | cons s ss => simp at h
  | cons t ts ih =>
    cases ss with
    | nil => simp at h
    | cons s ss =>
      obtain ⟨hfirst,hrest⟩ := List.cons.inj h
      rw [List.flatMap_cons,List.flatMap_cons,ops_congr hfirst,ih hrest]

theorem TakenFrom.partOf (h : s.TakenFrom S first) : (s.slice first).PartOf S := by
  intro hsome
  have hlength := congrArg List.length h
  simp only [slice,Slice.bytes,List.length_take,List.length_drop] at hlength
  simp only [slice,Slice.stop] at hsome ⊢
  omega

theorem TakenFrom.op_eq (h : s.TakenFrom S first) :
    Receiver.Op.ingest (Connection.dataStart s) s.payload = (s.slice first).op S first := by
  have hstart : first.advance (s.slice first).offset = Connection.dataStart s :=
    SeqNum.advance_distance first _
  rw [Slice.op,hstart,← h]

end Segment

namespace Receiver

def LeadAlike (r : Receiver) (xs ys : List Op) : Prop :=
  r.run xs = r.run ys ∧ r.taken xs = r.taken ys

theorem taken_append (r : Receiver) (xs ys : List Op) :
    r.taken (xs++ys) = r.taken xs ++ (r.run xs).taken ys := by
  simp [taken,trace_append]

theorem LeadAlike.append {r : Receiver} {xs xs' ys ys' : List Op} (hx : r.LeadAlike xs xs')
    (hy : (r.run xs).LeadAlike ys ys') : r.LeadAlike (xs++ys) (xs'++ys') := by
  constructor
  · rw [run_append,run_append,hy.1,hx.1]
  · rw [taken_append,taken_append,hx.2,hy.2,hx.1]

end Receiver

theorem ConnectionEvent.chunks_receiver (events : List Event) :
    chunks (events.map .receiver) = Event.chunks events := by
  rw [chunks,List.filterMap_map]
  rfl

namespace Connection

open Receiver (uncapped Reaches picked_up letters)

def run (c : Connection) : List Segment → Connection
  | [] => c
  | s::ss => (c.process s).2.1.run ss

def trace (c : Connection) : List Segment → List ConnectionEvent
  | [] => []
  | s::ss => (c.process s).2.2 ++ (c.process s).2.1.trace ss

def taken (c : Connection) (ss : List Segment) : Bytes :=
  (ConnectionEvent.chunks (c.trace ss)).flatMap (·.2)

variable (c : Connection) (s : Segment) (ss : List Segment)

theorem process_flow : (c.process s).2.1.flow = c.flow := rfl

theorem process_finished :
    (c.process s).2.1.finished = (c.finished || (s.isFin || s.isRst)) := rfl

theorem process_receiver : (c.process s).2.1.receiver = c.receiver.run s.ops := by
  rw [process,Segment.ops]
  cases s.isSyn <;> rfl

theorem chunks_process :
    ConnectionEvent.chunks (c.process s).2.2 = Event.chunks (c.receiver.trace s.ops) := by
  have hnoted : ∀ ends : Bool, ConnectionEvent.chunks
      (if ends = true then [ConnectionEvent.finished c.flow s.isFin s.isRst] else []) = [] := by
    intro ends
    cases ends <;> rfl
  simp only [process,ConnectionEvent.chunks_append,hnoted,List.nil_append,
    ConnectionEvent.chunks_receiver,Segment.ops]
  cases s.isSyn <;> simp [Receiver.step,Receiver.reset]

theorem run_flow : (c.run ss).flow = c.flow := by
  induction ss generalizing c with
  | nil => rfl
  | cons s ss ih => rw [run,ih,process_flow]

theorem run_finished :
    (c.run ss).finished = true ↔ c.finished = true ∨ ∃ s ∈ ss, s.isFin = true ∨ s.isRst = true := by
  induction ss generalizing c with
  | nil => simp [run]
  | cons s ss ih => simp [run,ih,process_finished,or_assoc]

theorem run_receiver : (c.run ss).receiver = c.receiver.run (ss.flatMap Segment.ops) := by
  induction ss generalizing c with
  | nil => rfl
  | cons s ss ih => rw [run,ih,process_receiver,List.flatMap_cons,Receiver.run_append]

theorem taken_eq : c.taken ss = c.receiver.taken (ss.flatMap Segment.ops) := by
  have hchunks : ConnectionEvent.chunks (c.trace ss) =
      Event.chunks (c.receiver.trace (ss.flatMap Segment.ops)) := by
    induction ss generalizing c with
    | nil => rfl
    | cons s ss ih =>
      rw [trace,ConnectionEvent.chunks_append,ih,chunks_process,process_receiver,List.flatMap_cons,
        Receiver.trace_append,Event.chunks_append]
  rw [taken,hchunks,Receiver.taken]

theorem taken_cons :
    c.taken (s::ss) = c.taken [s] ++ (c.process s).2.1.taken ss := by
  simp [taken,trace,ConnectionEvent.chunks_append]

/-- The segments carry the stream that follows a SYN at `isn`. A SYN stands before the byte `n`
that the connection expects first, and comes while nothing was handed on. -/
def Brings (S : Bytes) (isn : SeqNum) (n : ℕ) : Connection → List Segment → Prop
  | _, [] => True
  | c, s::ss => s.TakenFrom S (isn.advance 1) ∧
      (s.isSyn = true → s.seq = isn.advance n ∧ c.receiver.stats.bytesDelivered = 0) ∧
      Brings S isn n (c.process s).2.1 ss

instance bringsDecidable (S : Bytes) (isn : SeqNum) (n : ℕ) :
    (c : Connection) → (ss : List Segment) → Decidable (Brings S isn n c ss)
  | _, [] => .isTrue trivial
  | _, _::ss => @instDecidableAnd _ _ _ (@instDecidableAnd _ _ _ (bringsDecidable S isn n _ ss))

variable {c s ss} {S : Bytes} {isn first : SeqNum} {n sink : ℕ} {overflow : Overflow}
  {done : List Slice}

/-- A SYN that stands at the next position moves nothing. -/
theorem ops_of_unmoved {r : Receiver} (h : s.isSyn = true → r.nextSeq = dataStart s) :
    r.LeadAlike s.ops [.ingest (dataStart s) s.payload] := by
  rw [Segment.ops]
  split
  · rename_i hsyn
    have hreset : (r.reset (dataStart s)).1 = r := by rw [← h hsyn]; rfl
    have hstep : (r.step (.reset (dataStart s))).receiver = r := hreset
    have hsilent : Event.chunks (r.step (.reset (dataStart s))).events = [] := rfl
    constructor
    · rw [Receiver.run,hstep]
    · rw [Receiver.taken,Receiver.trace_cons,Event.chunks_append,hsilent,hstep]
      rfl
  · exact ⟨rfl,rfl⟩

theorem Brings.slices (h : Brings S isn n c ss) (hS : S.length < 2^31) (hn : n ≤ S.length)
    (hdone : ∀ x ∈ done, x.PartOf S)
    (hc : c.receiver = (uncapped ((isn.advance 1).advance n) overflow sink).run
      (Slice.ops S (isn.advance 1) done)) :
    c.receiver.LeadAlike (ss.flatMap Segment.ops)
      (Slice.ops S (isn.advance 1) (ss.map (Segment.slice (isn.advance 1)))) := by
  induction ss generalizing c done with
  | nil => exact ⟨rfl,rfl⟩
  | cons s ss ih =>
    obtain ⟨hbytes,hsyn,hrest⟩ := h
    -- While nothing was handed on the next position is still the first, where a SYN stands.
    have hunmoved : s.isSyn = true → c.receiver.nextSeq = dataStart s := by
      intro hs
      have ⟨_,_,hnext⟩ := picked_up (isn.advance 1) hS hn overflow sink hdone
      rw [← hc,(hsyn hs).2,Nat.add_zero] at hnext
      rw [hnext,dataStart,if_pos hs,(hsyn hs).1,SeqNum.advance_advance,SeqNum.advance_advance,
        Nat.add_comm]
    have hfirst := ops_of_unmoved hunmoved
    rw [hbytes.op_eq] at hfirst
    have hnext : (c.process s).2.1.receiver =
        (uncapped ((isn.advance 1).advance n) overflow sink).run
          (Slice.ops S (isn.advance 1) (done ++ [s.slice (isn.advance 1)])) := by
      rw [process_receiver,hfirst.1,hc,← Receiver.run_append]
      simp [Slice.ops]
    have hdone' : ∀ x ∈ done ++ [s.slice (isn.advance 1)], x.PartOf S := by
      intro x hx
      rcases List.mem_append.mp hx with hx | hx
      · exact hdone x hx
      · exact List.mem_singleton.mp hx ▸ hbytes.partOf
    have hall := ih hrest hdone' hnext
    rw [process_receiver] at hall
    exact hfirst.append hall

theorem Brings.partOf (h : Brings S isn n c ss) :
    ∀ x ∈ ss.map (Segment.slice (isn.advance 1)), x.PartOf S := by
  induction ss generalizing c with
  | nil => simp
  | cons s ss ih =>
    obtain ⟨hbytes,_,hrest⟩ := h
    exact List.forall_mem_cons.mpr ⟨hbytes.partOf,ih hrest⟩

/-- Without a SYN only the bytes matter. -/
theorem brings_of_not_syn (h : ∀ s ∈ ss, s.isSyn = false ∧ s.TakenFrom S (isn.advance 1)) :
    Brings S isn n c ss := by
  induction ss generalizing c with
  | nil => trivial
  | cons s ss ih =>
    have ⟨⟨hsyn,hbytes⟩,hrest⟩ := List.forall_mem_cons.mp h
    exact ⟨hbytes,fun hs => absurd (hsyn.symm.trans hs) (by decide),ih hrest⟩

/-- The stream is handed on from the byte that was expected first to where the segments cease to
cover it. -/
theorem Brings.hands_on (h : Brings S isn n c ss) (hS : S.length < 2^31) (hn : n ≤ S.length)
    (hc : c.receiver = uncapped ((isn.advance 1).advance n) overflow sink) :
    ∃ m, Reaches S n (fun j => ∃ s ∈ ss, (s.slice (isn.advance 1)).Covers j) m ∧
      c.taken ss = (S.take m).drop n ∧ (c.run ss).receiver.nextSeq = isn.advance (1+m) := by
  have hdone : ∀ x ∈ ([] : List Slice), x.PartOf S := by simp
  have hcovered : Slice.Covered (ss.map (Segment.slice (isn.advance 1))) =
      fun j => ∃ s ∈ ss, (s.slice (isn.advance 1)).Covers j := by
    funext j
    simp [Slice.Covered]
  have ⟨hrun,htaken⟩ := h.slices hS hn hdone hc
  have ⟨hreach,hdata,hnext⟩ := picked_up (isn.advance 1) hS hn overflow sink h.partOf
  rw [← hc,← hrun,← run_receiver] at hreach hdata hnext
  refine ⟨n+(c.run ss).receiver.stats.bytesDelivered,?_,?_,?_⟩
  · exact hcovered ▸ hreach
  · rw [taken_eq,htaken,hdata]
  · rw [hnext,SeqNum.advance_advance]

/-- The first segment is the SYN of the stream, or picks the stream up at offset `n`. -/
def PicksUp (isn : SeqNum) (n : ℕ) (first : Segment) : Prop :=
  if first.isSyn then first.seq = isn ∧ n = 0 else first.seq = isn.advance (1+n)

instance (isn : SeqNum) (n : ℕ) (first : Segment) : Decidable (PicksUp isn n first) :=
  inferInstanceAs (Decidable (ite _ _ _))

theorem PicksUp.dataStart_eq {f : Segment} (h : PicksUp isn n f) :
    dataStart f = (isn.advance 1).advance n := by
  rw [PicksUp] at h
  rw [SeqNum.advance_advance,dataStart]
  split at h
  · rename_i hsyn
    rw [if_pos hsyn,h.1,h.2]
  · rename_i hsyn
    rw [if_neg hsyn,h]

def opened (first : Segment) (overflow : Overflow) (sink : ℕ) : Connection :=
  (start first {overflow}).1.setSink sink

/-- From its first segment on a connection hands on the stream as far as the segments cover it, in
whatever order they come. It is finished by FIN or RST, which leave no trace in the data. -/
theorem run_hands_on_stream (S : Bytes) (hS : S.length < 2^31) (isn : SeqNum) (n : ℕ)
    (hn : n ≤ S.length) (overflow : Overflow) (sink : ℕ) (first : Segment)
    (hfirst : PicksUp isn n first) (ss : List Segment)
    (hss : Brings S isn n (opened first overflow sink) ss) :
    let c := opened first overflow sink
    let t := c.run ss
    (∃ m, Reaches S n (fun j => ∃ s ∈ ss, (s.slice (isn.advance 1)).Covers j) m ∧
        c.taken ss = (S.take m).drop n ∧ t.receiver.nextSeq = isn.advance (1+m)) ∧
      (t.finished = true ↔ ∃ s ∈ ss, s.isFin = true ∨ s.isRst = true) ∧
      ∀ ss', ss'.map Segment.essence = ss.map Segment.essence → c.taken ss' = c.taken ss := by
  intro c t
  have hc : c.receiver = uncapped ((isn.advance 1).advance n) overflow sink := by
    rw [← hfirst.dataStart_eq]
    rfl
  have hfinished : t.finished = true ↔ ∃ s ∈ ss, s.isFin = true ∨ s.isRst = true := by
    rw [run_finished]
    simp [c,opened,start,setSink]
  refine ⟨hss.hands_on hS hn hc,hfinished,fun ss' hsame => ?_⟩
  rw [taken_eq,taken_eq,Segment.ops_of_essence hsame]

def segment (flags : Flags) (seq : SeqNum) (payload : Bytes) : Segment :=
  ⟨⟨⟨.unspecified,0⟩,⟨.unspecified,0⟩⟩,seq,0,flags,0,payload⟩

/-- A stream whose end is announced first, and whose SYN is repeated, with data, once some of it
waits. -/
def jumbled : List Segment :=
  [segment Flags.syn 0xfffffffb [],segment Flags.fin 5 [9,10,11],
    segment Flags.ack 0xfffffffe [2,3,4],segment Flags.syn 0xfffffffb [0],
    segment Flags.rst 77 [],segment Flags.psh 0xfffffffd [1,2],segment Flags.ack 2 [6,7]]

/-- The same stream from offset 4 on, of which a slice reaches back. -/
def belated : List Segment :=
  [segment Flags.ack 0 [4],segment Flags.ack 3 [7,8],segment Flags.ack 0xfffffffe [2,3,4,5,6]]

theorem letters_of_jumbled :
    let syn := segment Flags.syn 0xfffffffb []
    let midway := segment Flags.ack 0 [4]
    (PicksUp 0xfffffffb 0 syn ∧ Brings letters 0xfffffffb 0 (opened syn .dropNew 0) jumbled ∧
      (opened syn .dropNew 0).taken jumbled = letters.take 5 ∧
      ((opened syn .dropNew 0).run jumbled).finished = true) ∧
    PicksUp 0xfffffffb 4 midway ∧ Brings letters 0xfffffffb 4 (opened midway .dropNew 0) belated ∧
      Reaches letters 4 (fun j => ∃ s ∈ belated, (s.slice 0xfffffffc).Covers j) 9 ∧
      (opened midway .dropNew 0).taken belated = [4,5,6,7,8] := by
  intro syn midway
  have hsyn : PicksUp 0xfffffffb 0 syn := by decide
  have hmidway : PicksUp 0xfffffffb 4 midway := by decide
  have hjumbled : Brings letters 0xfffffffb 0 (opened syn .dropNew 0) jumbled := by decide +kernel
  have hbelated : Brings letters 0xfffffffb 4 (opened midway .dropNew 0) belated := by
    decide +kernel
  have ⟨⟨m,hm,htaken,_⟩,hfinished,_⟩ := run_hands_on_stream letters (by decide) 0xfffffffb 0
    (by decide) .dropNew 0 syn hsyn jumbled hjumbled
  have ⟨⟨k,hk,htaken',_⟩,_⟩ := run_hands_on_stream letters (by decide) 0xfffffffb 4
    (by decide) .dropNew 0 midway hmidway belated hbelated
  have hcount : (letters.take m).length = 5 := by
    rw [← List.drop_zero (l := letters.take m),← htaken]
    decide +kernel
  have hcount' : ((letters.take k).drop 4).length = 5 := by
    rw [← htaken']
    decide +kernel
  rw [List.length_take_of_le hm.1.2.1] at hcount
  rw [List.length_drop,List.length_take_of_le hk.1.2.1] at hcount'
  obtain rfl : k = 9 := by omega
  refine ⟨⟨hsyn,hjumbled,hcount ▸ htaken,hfinished.mpr (by decide)⟩,hmidway,hbelated,hk,?_⟩
  exact htaken'

end Connection
end Reassembly
