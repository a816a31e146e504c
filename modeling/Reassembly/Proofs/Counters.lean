import Reassembly.Proofs.Ingesting

/-! What the counters count. Most of them follow from the verdicts alone, two from what is handed
on. Every chunk, every payload that waits and every one given up is a piece of the data taken in;
each segment pays for one piece, and draining makes no new ones. -/
namespace Reassembly

def Outcome.isDelivered : Outcome → Bool
  | .delivered _ => true
  | _ => false

namespace Receiver

/-- The chunks handed on, the payloads that wait, and those given up. -/
def pieces (r : Receiver) : ℕ := r.stats.chunksDelivered+r.pending.size+r.stats.evictions

/-- What the counters have gained from some verdicts and events. No verdict tells of a segment that
was filed after being cut. -/
structure Tallied (outcomes : List Outcome) (events : List Event) (r t : Receiver) : Prop where
  segments : t.stats.segments = r.stats.segments + (outcomes.count .duplicate +
    outcomes.count (.buffered false) + outcomes.count .dropped + outcomes.countP Outcome.isDelivered)
  duplicates : t.stats.duplicates = r.stats.duplicates + outcomes.count .duplicate
  buffered : t.stats.buffered = r.stats.buffered + outcomes.count (.buffered false)
  dropped : t.stats.overflowDrops = r.stats.overflowDrops + outcomes.count .dropped
  trimmed : t.stats.trimmed = r.stats.trimmed + outcomes.count (.delivered true)
  chunks : t.stats.chunksDelivered = r.stats.chunksDelivered + (Event.deliveries events).length
  bytes : t.stats.bytesDelivered =
    r.stats.bytesDelivered + ((Event.deliveries events).map (·.2.length)).sum
  pieces : t.pieces ≤
    r.pieces + (outcomes.countP Outcome.isDelivered + outcomes.count (.buffered false))
  whole : .buffered true ∉ outcomes

variable {seq : SeqNum} {payload data : Bytes} {filing : Filing} {outcome : Outcome}
  {xs ys : List Outcome} {r s t : Receiver} {events es fs : List Event}

theorem Tallied.append (h : Tallied xs es r s) (h' : Tallied ys fs s t) :
    Tallied (xs++ys) (es++fs) r t where
  segments := by
    rw [h'.segments,h.segments]
    simp only [List.count_append,List.countP_append]
    omega
  duplicates := by rw [h'.duplicates,h.duplicates,List.count_append,Nat.add_assoc]
  buffered := by rw [h'.buffered,h.buffered,List.count_append,Nat.add_assoc]
  dropped := by rw [h'.dropped,h.dropped,List.count_append,Nat.add_assoc]
  trimmed := by rw [h'.trimmed,h.trimmed,List.count_append,Nat.add_assoc]
  chunks := by
    rw [h'.chunks,h.chunks,Event.deliveries_append,List.length_append,Nat.add_assoc]
  bytes := by
    rw [h'.bytes,h.bytes,Event.deliveries_append,List.map_append,List.sum_append,Nat.add_assoc]
  pieces := by
    have hfirst := h.pieces
    have hrest := h'.pieces
    simp only [List.count_append,List.countP_append]
    omega
  whole := by simp [h.whole,h'.whole]

theorem tallied_of_stats {n : ℕ} (hs : t.stats = {r.stats with
      evictions := n
      chunksDelivered := r.stats.chunksDelivered+(Event.deliveries events).length
      bytesDelivered :=
        r.stats.bytesDelivered+((Event.deliveries events).map (·.2.length)).sum})
    (hp : t.pieces ≤ r.pieces) : Tallied [] events r t where
  segments := by rw [hs]; rfl
  duplicates := by rw [hs]; rfl
  buffered := by rw [hs]; rfl
  dropped := by rw [hs]; rfl
  trimmed := by rw [hs]; rfl
  chunks := by rw [hs]
  bytes := by rw [hs]
  pieces := hp
  whole := by simp

theorem Sheds.stats_eq (h : Sheds seq r t events) :
    t.stats = {r.stats with evictions := r.stats.evictions+events.length} := by
  induction h with
  | done r => rfl
  | evict _ _ _ _ ih =>
    rw [ih,List.length_cons,Nat.add_comm _ 1,← Nat.add_assoc]
    rfl

theorem Sheds.pieces_eq (h : Sheds seq r t events) : t.pieces = r.pieces := by
  induction h with
  | done r => rfl
  | @evict r t key payload events capped further held rest ih =>
    have hsize := Pending.size_eq_of_get? held
    have hevict : (r.without key payload).countEvicted.pieces =
      r.stats.chunksDelivered+(r.pending.erase key).size+(r.stats.evictions+1) := rfl
    rw [ih,hevict,pieces]
    omega

theorem Filed.stats_eq (h : Filed r seq payload filing t events) :
    t.stats = {r.stats with evictions := r.stats.evictions+events.length} := by
  cases h with
  | kept => rfl
  | rejected _ shed => exact shed.stats_eq
  | inserted _ shed => exact shed.stats_eq
  | replaced _ _ shed => exact shed.stats_eq

theorem pieces_holding (r : Receiver) (growth : ℕ) : (r.holding seq payload growth).pieces =
    r.stats.chunksDelivered+((r.pending.erase seq).size+1)+r.stats.evictions := by
  rw [← Pending.size_insert r.pending seq payload]
  rfl

/-- Filing makes a piece only of a payload that is held beside all others. -/
theorem Filed.pieces_eq (h : Filed r seq payload filing t events) :
    t.pieces = r.pieces + if filing = .inserted then 1 else 0 := by
  cases h with
  | kept => rfl
  | rejected _ shed => exact shed.pieces_eq
  | inserted free shed =>
    have hfree := (shed.get?_eq le_rfl).trans free
    rw [pieces_holding,Pending.erase_of_get?_eq_none hfree,← shed.pieces_eq,pieces,if_pos rfl]
    omega
  | replaced waits _ shed =>
    have hwaits := (shed.get?_eq le_rfl).trans waits
    rw [pieces_holding,← Pending.size_eq_of_get? hwaits]
    exact shed.pieces_eq

theorem pieces_without {key : SeqNum} (h : r.pending.get? key = some payload) :
    (r.without key payload).pieces+1 = r.pieces := by
  have hsize := Pending.size_eq_of_get? h
  simp only [pieces,without_pending,without_stats]
  omega

theorem Round.tallied (h : Round r t events) : Tallied [] events r t := by
  cases h with
  | handOn first held =>
    refine tallied_of_stats rfl ?_
    have hpieces := pieces_without held
    simp only [deliver,pieces] at hpieces ⊢
    omega
  | @refile key payload filing t es _ _ held _ filed =>
    have hpieces := pieces_without held
    have hfiled := filed.pieces_eq
    have hle : t.pieces ≤ r.pieces := by split at hfiled <;> omega
    refine tallied_of_stats (n := r.stats.evictions+es.length) ?_ hle
    rw [Event.deliveries_cons_of_none rfl,filed.deliveries_eq]
    exact filed.stats_eq
  | discard _ _ held =>
    have hpieces := pieces_without held
    exact tallied_of_stats rfl (by omega)

theorem Drains.tallied (h : Drains r t events) : Tallied [] events r t := by
  induction h with
  | done => exact tallied_of_stats rfl le_rfl
  | round first _ ih => exact first.tallied.append ih

theorem pieces_deliver (r : Receiver) (data : Bytes) :
    (r.deliver data).1.pieces = r.pieces+1 := by
  simp only [deliver,pieces]
  omega

theorem Placed.tallied (h : Placed r.countSegment seq data outcome t events) :
    Tallied [outcome] events r t := by
  cases h with
  | behind => exact ⟨rfl,rfl,rfl,rfl,rfl,rfl,rfl,le_rfl,by simp⟩
  | covered => exact ⟨rfl,rfl,rfl,rfl,rfl,rfl,rfl,le_rfl,by simp⟩
  | cut => exact ⟨rfl,rfl,rfl,rfl,rfl,rfl,rfl,(pieces_deliver _ _).le,by simp⟩
  | next => exact ⟨rfl,rfl,rfl,rfl,rfl,rfl,rfl,(pieces_deliver _ _).le,by simp⟩
  | @ahead filing s es _ _ filed =>
    have hstats := filed.stats_eq
    have hpieces : s.pieces = r.pieces + if filing = .inserted then 1 else 0 := filed.pieces_eq
    have hdeliveries := Placed.deliveries_filed filed
    constructor
    case whole => cases filing <;> simp [Filing.outcome]
    case pieces =>
      have hcounted : (s.countFiling filing).pieces = s.pieces := by cases filing <;> rfl
      rw [hcounted,hpieces]
      cases filing <;> simp [Filing.outcome]
    all_goals
      cases filing <;>
        simp only [countFiling,countBuffered,countDuplicate,countDropped,hstats,hdeliveries] <;> rfl

theorem Ingested.tallied (h : Ingested r seq data outcome t events) :
    Tallied [outcome] events r t := by
  cases h with
  | empty => exact ⟨rfl,rfl,rfl,rfl,rfl,rfl,rfl,le_rfl,by simp⟩
  | taken some placed drained => exact placed.tallied.append drained.tallied

def verdicts (r : Receiver) (ops : List Op) : List Outcome := (r.steps ops).filterMap (·.outcome)

theorem step_tallied (r : Receiver) (op : Op) :
    Tallied (r.step op).outcome.toList (r.step op).events r (r.step op).receiver := by
  cases op with
  | ingest seq data => exact (ingest_ingested r seq data).tallied
  | reset => exact tallied_of_stats rfl le_rfl
  | setSink | clearSink => exact tallied_of_stats rfl le_rfl

theorem verdicts_cons (r : Receiver) (op : Op) (ops : List Op) :
    r.verdicts (op::ops) = (r.step op).outcome.toList ++ (r.step op).receiver.verdicts ops := by
  rw [verdicts,steps,List.filterMap_cons]
  cases (r.step op).outcome <;> rfl

theorem run_tallied (r : Receiver) (ops : List Op) :
    Tallied (r.verdicts ops) (r.trace ops) r (r.run ops) := by
  induction ops generalizing r with
  | nil => exact tallied_of_stats rfl le_rfl
  | cons op ops ih =>
    rw [verdicts_cons,trace_cons]
    exact (step_tallied r op).append (ih _)

/-- After any run from the start, each segment with data is counted under its verdict, the chunks and
their bytes are those handed on, and a segment pays for each piece. -/
theorem run_counts (initial : SeqNum) (limits : Limits) (ops : List Op) :
    let r := (start initial limits).run ops
    let outcomes := (start initial limits).verdicts ops
    let chunks := Event.deliveries ((start initial limits).trace ops)
    r.stats.segments = r.stats.duplicates+r.stats.buffered+r.stats.overflowDrops +
        outcomes.countP Outcome.isDelivered ∧
      r.stats.trimmed = outcomes.count (.delivered true) ∧
      .buffered true ∉ outcomes ∧
      r.stats.bytesDelivered = (chunks.map (·.2.length)).sum ∧
      r.stats.chunksDelivered = chunks.length ∧
      r.stats.chunksDelivered+r.pending.size+r.stats.evictions+r.stats.duplicates +
        r.stats.overflowDrops ≤ r.stats.segments := by
  intro r outcomes chunks
  have h : Tallied outcomes _ _ r := run_tallied (start initial limits) ops
  have hpieces : r.stats.chunksDelivered+r.pending.size+r.stats.evictions ≤
      0 + (outcomes.countP Outcome.isDelivered + outcomes.count (.buffered false)) := h.pieces
  have hsegments := h.segments
  have hduplicates := h.duplicates
  have hbuffered := h.buffered
  have hdropped := h.dropped
  have htrimmed := h.trimmed
  have hchunks := h.chunks
  have hbytes := h.bytes
  simp only [start,Nat.zero_add] at *
  refine ⟨by omega,htrimmed,h.whole,hbytes,hchunks,by omega⟩

/-- A payload takes the place of a shorter one, and what is left of it is handed on when the gap in
front closes: three segments make two pieces. -/
example : ((start 0 {}).run [.ingest 2 [1],.ingest 2 [1,2],.ingest 0 [7,8,9]]).pieces = 2 := by
  decide +kernel

end Receiver
end Reassembly
