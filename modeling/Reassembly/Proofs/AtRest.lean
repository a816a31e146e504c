import Mathlib.Data.List.DropRight
import Reassembly.Proofs.PendingAhead

/-! A receiver at rest: all that waits lies ahead of the next position, so that there is nothing to
drain. Taking in data brings a receiver to rest and only a move can end it; and at rest, taking in a
segment that lies ahead is no more than filing it. -/
namespace Reassembly
namespace SeqNum

theorem compare_eq_after_iff {a b : SeqNum} :
    compare b a = .after ↔ 0 < distance a b ∧ distance a b ≤ 2^31 := by
  have ha := a.toNat_lt
  have hb := b.toNat_lt
  rw [compare_eq_after,distance_eq,distance_eq]
  omega

theorem compare_advance_ne_before {a b : SeqNum} {n : ℕ} (hpos : 0 < distance a b)
    (hend : distance a b+n ≤ 2^31) : compare (b.advance n) a ≠ .before := by
  have hafter : compare (b.advance n) a = .after := by
    rw [compare_eq_after_iff,distance_advance_right (by omega)]
    omega
  simp [hafter]

end SeqNum

namespace Receiver

/-- All that waits lies ahead of the next position. -/
def AtRest (r : Receiver) : Prop :=
  ∀ key payload, r.pending.get? key = some payload → SeqNum.compare key r.nextSeq = .after

def Op.bringsData : Op → Bool
  | .ingest _ data => !data.isEmpty
  | _ => false

def Op.moves : Op → Bool
  | .reset _ => true
  | _ => false

/-- No data was taken in yet, or nothing was moved since data was last taken in. -/
def Undisturbed (ops : List Op) : Prop :=
  (∀ op ∈ ops, op.bringsData = false) ∨
    ∀ op ∈ ops.rtakeWhile (!·.bringsData), op.moves = false

instance : DecidablePred Undisturbed := fun _ => inferInstanceAs (Decidable (_ ∨ _))

variable {r s t : Receiver} {seq : SeqNum} {data : Bytes} {filing : Filing} {outcome : Outcome}
  {events : List Event}

theorem atRest_start (initial : SeqNum) (limits : Limits) : AtRest (start initial limits) := by
  intro key payload hk
  simp [start] at hk

theorem AtRest.congr (h : AtRest r) (hnext : t.nextSeq = r.nextSeq) (hp : t.pending = r.pending) :
    AtRest t := by
  rw [AtRest,hnext,hp]
  exact h

theorem Drains.eq_of_atRest (h : Drains r t events) (hr : AtRest r) : t = r ∧ events = [] := by
  cases h with
  | done => exact ⟨rfl,rfl⟩
  | round first rest =>
    cases first with
    | handOn _ held => exact absurd (hr _ _ held) (by simp)
    | refile _ behind held => exact absurd (hr _ _ held) (by simp [behind])
    | discard _ behind held => exact absurd (hr _ _ held) (by simp [behind])

theorem drain_of_atRest (hr : AtRest r) : r.drain = (r,[]) := by
  have ⟨hstate,hevents⟩ := (drain_drains r).eq_of_atRest hr
  exact Prod.ext hstate hevents

theorem Op.exists_of_bringsData {op : Op} (h : op.bringsData = true) :
    ∃ seq data, op = .ingest seq data ∧ data ≠ [] := by
  cases op with
  | ingest seq data => exact ⟨seq,data,rfl,by simpa [Op.bringsData] using h⟩
  | reset | setSink | clearSink => cases h

theorem pending_of_no_data {op : Op} (h : op.bringsData = false) :
    (r.step op).receiver.pending = r.pending := by
  cases op with
  | ingest seq data =>
    have hnone : data.isEmpty = true := by simpa [Op.bringsData] using h
    simp [step,ingest,hnone]
  | reset | setSink | clearSink => rfl

theorem run_pending_of_no_data {ops : List Op} (h : ∀ op ∈ ops, op.bringsData = false) :
    (r.run ops).pending = r.pending := by
  induction ops generalizing r with
  | nil => rfl
  | cons op ops ih =>
    have ⟨hop,hrest⟩ := List.forall_mem_cons.mp h
    exact (ih hrest).trans (pending_of_no_data hop)

/-- Taking in data brings a receiver to rest, wherever it was moved before. -/
theorem step_atRest_of_data {op : Op} (h : op.bringsData = true) : AtRest (r.step op).receiver := by
  obtain ⟨seq,data,rfl,hd⟩ := Op.exists_of_bringsData h
  exact fun key payload hk => (ingest_ingested r seq data).ahead hd hk

/-- Only a move can end the rest. -/
theorem step_atRest {op : Op} (h : op.moves = false) (hr : AtRest r) :
    AtRest (r.step op).receiver := by
  cases hb : op.bringsData with
  | true => exact step_atRest_of_data hb
  | false =>
    refine hr.congr ?_ (pending_of_no_data hb)
    cases op with
    | ingest seq data =>
      have hnone : data.isEmpty = true := by simpa [Op.bringsData] using hb
      simp [step,ingest,hnone]
    | reset => cases h
    | setSink | clearSink => rfl

theorem run_atRest_of_unmoved {ops : List Op} (h : ∀ op ∈ ops, op.moves = false)
    (hr : AtRest r) : AtRest (r.run ops) := by
  induction ops generalizing r with
  | nil => exact hr
  | cons op ops ih =>
    have ⟨hop,hrest⟩ := List.forall_mem_cons.mp h
    exact ih hrest (step_atRest hop hr)

theorem run_atRest_of_last {ops : List Op} (hne : ops ≠ [])
    (hlast : (ops.getLast hne).bringsData = true) : AtRest (r.run ops) := by
  rw [← List.dropLast_append_getLast hne,run_append]
  exact step_atRest_of_data hlast

theorem run_atRest (initial : SeqNum) (limits : Limits) {ops : List Op} (h : Undisturbed ops) :
    AtRest ((start initial limits).run ops) := by
  rcases h with hnone | hsince
  · intro key payload hk
    rw [run_pending_of_no_data hnone] at hk
    simp [start] at hk
  · rw [← List.rdropWhile_append_rtakeWhile (p := (!·.bringsData)) (l := ops),run_append]
    refine run_atRest_of_unmoved hsince ?_
    by_cases hne : ops.rdropWhile (!·.bringsData) = []
    · rw [hne]
      exact atRest_start initial limits
    · have hlast := List.rdropWhile_last_not _ _ hne
      exact run_atRest_of_last hne (by simpa using hlast)

/-- Filing a segment, with the verdict and the count that go with it. -/
def fileAhead (r : Receiver) (seq : SeqNum) (data : Bytes) : Outcome × Receiver × List Event :=
  let filed := r.store seq data
  (filed.1.outcome,filed.2.1.countFiling filed.1,
    filed.2.2 ++ filed.2.1.refusal seq data filed.1)

@[simp] theorem fileAhead_nextSeq (r : Receiver) (seq : SeqNum) (data : Bytes) :
    (r.fileAhead seq data).2.1.nextSeq = r.nextSeq := by
  rw [fileAhead,countFiling_nextSeq,(store_filed r seq data).still.next]
@[simp] theorem fileAhead_pending (r : Receiver) (seq : SeqNum) (data : Bytes) :
    (r.fileAhead seq data).2.1.pending = (r.store seq data).2.1.pending :=
  countFiling_pending _ _

theorem deliverOrStore_of_ne (h : seq ≠ r.nextSeq) :
    r.deliverOrStore seq data false = r.fileAhead seq data := by
  rw [deliverOrStore,if_neg h,fileAhead]
  obtain ⟨filing,s,events⟩ := r.store seq data
  cases filing <;> simp [Filing.outcome,countFiling,refusal]

theorem place_eq_fileAhead (starts : SeqNum.compare seq r.nextSeq = .after)
    (ends : SeqNum.compare (seq.advance data.length) r.nextSeq ≠ .before) :
    r.place seq data = r.fileAhead seq data := by
  have hne : seq ≠ r.nextSeq := by
    rintro rfl
    simp at starts
  rw [place,if_neg ends,if_neg (by simp [starts]),deliverOrStore_of_ne hne]

theorem place_of_ahead (hpos : 0 < SeqNum.distance r.nextSeq seq)
    (hend : SeqNum.distance r.nextSeq seq+data.length ≤ 2^31) :
    r.place seq data = r.fileAhead seq data :=
  place_eq_fileAhead (SeqNum.compare_eq_after_iff.mpr ⟨hpos,by omega⟩)
    (SeqNum.compare_advance_ne_before hpos hend)

theorem fileAhead_atRest (hr : AtRest r) (hseq : SeqNum.compare seq r.nextSeq = .after) :
    AtRest (r.fileAhead seq data).2.1 := by
  intro key payload hk
  rw [fileAhead_pending] at hk
  rw [fileAhead_nextSeq]
  rcases (store_filed r seq data).held_before hk with ⟨rfl,rfl⟩ | hk
  · exact hseq
  · exact hr _ _ hk

/-- At rest, taking in a segment that lies ahead is filing it. -/
theorem ingest_of_ahead (hr : AtRest r) (hd : data ≠ [])
    (hpos : 0 < SeqNum.distance r.nextSeq seq)
    (hend : SeqNum.distance r.nextSeq seq+data.length ≤ 2^31) :
    r.ingest seq data = r.countSegment.fileAhead seq data := by
  have hplace : r.countSegment.place seq data = r.countSegment.fileAhead seq data :=
    place_of_ahead hpos hend
  have hstarts : SeqNum.compare seq r.nextSeq = .after :=
    SeqNum.compare_eq_after_iff.mpr ⟨hpos,by omega⟩
  have hcounted : AtRest r.countSegment := hr.congr rfl rfl
  have hfiled : AtRest (r.countSegment.fileAhead seq data).2.1 :=
    fileAhead_atRest hcounted hstarts
  have hdrain := drain_of_atRest hfiled
  rw [ingest,if_neg (by simpa using hd),hplace]
  simp only [hdrain,List.append_nil]

end Receiver
end Reassembly
