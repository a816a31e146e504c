import Reassembly.Proofs.AtRest
import Reassembly.Proofs.CapTransparency
import Reassembly.Proofs.Eviction

/-! A segment that is refused leaves no trace but in the counters. Making room gives nothing up
unless that is enough, so a segment that is dropped has cost nothing; and a receiver at rest has
nothing to drain when the segment has brought nothing. -/
namespace Reassembly
namespace Receiver

/-- There is room for the payload under the caps, if need be once payloads further ahead are given
up. -/
def HasRoom (r : Receiver) (seq : SeqNum) (payload : Bytes) : Prop :=
  r.fits (r.growth seq payload) (r.newEntries seq) = true ∨
    MayEvict r seq payload.length (r.growth seq payload) (r.newEntries seq)

def countRefusal (r : Receiver) : Outcome → Receiver
  | .duplicate => r.countDuplicate
  | .dropped => r.countDropped
  | _ => r

variable {r : Receiver} {seq : SeqNum} {payload data : Bytes} {filing : Filing}

theorem makeRoom_of_hasRoom (h : r.HasRoom seq payload) :
    (r.makeRoom seq payload.length (r.growth seq payload) (r.newEntries seq)).1 = true := by
  by_cases hfits : r.fits (r.growth seq payload) (r.newEntries seq) = true
  · rw [makeRoom_of_fits hfits]
  · have hmay := h.resolve_left hfits
    obtain ⟨m,_,hrun,_⟩ := (furthestFirst_spec r seq).evictUntilFits_eq hmay.enough
    rw [makeRoom_of_mayEvict hfits hmay,hrun]

theorem makeRoom_of_not_hasRoom (h : ¬r.HasRoom seq payload) :
    r.makeRoom seq payload.length (r.growth seq payload) (r.newEntries seq) = (false,r,[]) := by
  obtain ⟨hfits,hmay⟩ := not_or.mp h
  exact makeRoom_of_not_mayEvict hfits hmay

theorem store_of_wants (hw : r.Wants seq payload) :
    ∃ filing, (filing = .inserted ∨ filing = .replaced) ∧ r.store seq payload =
      r.file seq payload (r.growth seq payload) (r.newEntries seq) filing := by
  rw [store]
  cases hheld : r.pending.get? seq with
  | none => exact ⟨.inserted,.inl rfl,by simp [growth,newEntries,Pending.contains,hheld]⟩
  | some held =>
    refine ⟨.replaced,.inr rfl,?_⟩
    dsimp only
    rw [if_neg (not_le.mpr (hw held hheld))]
    simp [growth,newEntries,Pending.contains,hheld]

theorem store_of_not_wants (h : ¬r.Wants seq payload) : r.store seq payload = (.kept,r,[]) := by
  simp only [Wants,not_forall,not_lt] at h
  obtain ⟨held,hheld,hle⟩ := h
  simp [store,hheld,hle]

theorem store_of_not_hasRoom (hw : r.Wants seq payload) (h : ¬r.HasRoom seq payload) :
    r.store seq payload = (.rejected,r,[]) := by
  obtain ⟨filing,_,hstore⟩ := store_of_wants hw
  rw [hstore,file,makeRoom_of_not_hasRoom h]

theorem store_of_hasRoom (hw : r.Wants seq payload) (h : r.HasRoom seq payload) :
    ((r.store seq payload).1 = .inserted ∨ (r.store seq payload).1 = .replaced) ∧
      (r.store seq payload).2.1.pending.get? seq = some payload := by
  obtain ⟨filing,hfiling,hstore⟩ := store_of_wants hw
  have hmade := makeRoom_of_hasRoom h
  rw [hstore,file]
  generalize r.makeRoom seq payload.length (r.growth seq payload) (r.newEntries seq) = made
    at hmade ⊢
  obtain ⟨ok,s,events⟩ := made
  obtain rfl : ok = true := hmade
  exact ⟨hfiling,by simp⟩

theorem fileAhead_of_not_wants (h : ¬r.Wants seq data) :
    r.fileAhead seq data = (.duplicate,r.countDuplicate,[]) := by
  rw [fileAhead,store_of_not_wants h]
  rfl

theorem fileAhead_of_not_hasRoom (hw : r.Wants seq data) (h : ¬r.HasRoom seq data) :
    r.fileAhead seq data = (.dropped,r.countDropped,
      [.refused seq data.length r.pending.size r.pendingBytes]) := by
  rw [fileAhead,store_of_not_hasRoom hw h]
  rfl

theorem fileAhead_of_hasRoom (hw : r.Wants seq data) (h : r.HasRoom seq data) :
    (r.fileAhead seq data).1 = .buffered false ∧
      (r.fileAhead seq data).2.1.pending.get? seq = some data := by
  have ⟨hfiling,hheld⟩ := store_of_hasRoom hw h
  rw [fileAhead_pending]
  refine ⟨?_,hheld⟩
  rw [fileAhead]
  rcases hfiling with hf | hf <;> rw [hf] <;> rfl

theorem place_refused (h : (r.place seq data).1 = .duplicate ∨ (r.place seq data).1 = .dropped) :
    (r.place seq data).2.1 = r.countRefusal (r.place seq data).1 ∧
      Event.deliveries (r.place seq data).2.2 = [] := by
  by_cases hbehind : SeqNum.compare (seq.advance data.length) r.nextSeq = .before
  · rw [place,if_pos hbehind]
    exact ⟨rfl,rfl⟩
  · by_cases hstarts : SeqNum.compare seq r.nextSeq = .before
    · rw [place,if_neg hbehind,if_pos hstarts] at h ⊢
      dsimp only at h ⊢
      split at h
      · rename_i hrest
        rw [if_pos hrest]
        exact ⟨rfl,rfl⟩
      · simp [deliverOrStore,countTrimmed] at h
    · rw [place,if_neg hbehind,if_neg hstarts] at h ⊢
      by_cases hnext : seq = r.nextSeq
      · simp [deliverOrStore,hnext] at h
      · rw [deliverOrStore_of_ne hnext] at h ⊢
        by_cases hw : r.Wants seq data
        · by_cases hroom : r.HasRoom seq data
          · simp [(fileAhead_of_hasRoom hw hroom).1] at h
          · rw [fileAhead_of_not_hasRoom hw hroom]
            exact ⟨rfl,rfl⟩
        · rw [fileAhead_of_not_wants hw]
          exact ⟨rfl,rfl⟩

theorem ingest_refused (hr : AtRest r)
    (h : (r.ingest seq data).1 = .duplicate ∨ (r.ingest seq data).1 = .dropped) :
    (r.ingest seq data).2.1 = r.countSegment.countRefusal (r.ingest seq data).1 ∧
      Event.deliveries (r.ingest seq data).2.2 = [] := by
  by_cases hd : data.isEmpty = true
  · simp [ingest,hd] at h
  · rw [ingest,if_neg hd] at h ⊢
    obtain ⟨hstate,hsilent⟩ := place_refused h
    have hrest : AtRest (r.countSegment.place seq data).2.1 := by
      rw [hstate]
      rcases h with h | h <;> rw [h] <;> exact hr.congr rfl rfl
    simp only [drain_of_atRest hrest,List.append_nil]
    exact ⟨hstate,hsilent⟩

/-- After any run that ends undisturbed, a segment that is called a duplicate or dropped changes the
two counts that say so and nothing else, and nothing is handed on. -/
theorem refusal_leaves_no_trace (initial : SeqNum) (limits : Limits) (ops : List Op)
    (h : Undisturbed ops) (seq : SeqNum) (data : Bytes) :
    let r := (start initial limits).run ops
    let taken := r.ingest seq data
    (taken.1 = .duplicate → taken.2.1 = {r with stats := {r.stats with
        segments := r.stats.segments+1, duplicates := r.stats.duplicates+1}}) ∧
      (taken.1 = .dropped → taken.2.1 = {r with stats := {r.stats with
        segments := r.stats.segments+1, overflowDrops := r.stats.overflowDrops+1}}) ∧
      (taken.1 = .duplicate ∨ taken.1 = .dropped →
        Event.deliveries taken.2.2 = [] ∧ Event.chunks taken.2.2 = []) := by
  intro r taken
  have hr : AtRest r := run_atRest initial limits h
  refine ⟨fun hdup => ?_,fun hdrop => ?_,fun hrefused => ?_⟩
  · have hstate := (ingest_refused hr (.inl hdup)).1
    rwa [hdup] at hstate
  · have hstate := (ingest_refused hr (.inr hdrop)).1
    rwa [hdrop] at hstate
  · have hsilent := (ingest_refused hr hrefused).2
    exact ⟨hsilent,Event.chunks_eq_nil hsilent⟩

def refilled : List Op :=
  [.setSink 1,.ingest 7 [8],.reset 0xfffffffc,.ingest 0xfffffffc [0],.ingest 2 [1,2,3],
    .ingest 9 [4,5,6],.clearSink]

/-- The segment at 5 is dropped, since to give up the payload at 9 would not be enough; the one at 2
is no longer than what waits there. -/
theorem no_trace_in_refilled :
    Undisturbed refilled ∧
      (((start 7 brimLimits).run refilled).ingest 5 [7,8,9,10]).1 = .dropped ∧
      (((start 7 brimLimits).run refilled).ingest 5 [7,8,9,10]).2.1.pending =
        ((start 7 brimLimits).run refilled).pending ∧
      (((start 7 brimLimits).run refilled).ingest 5 [7,8,9,10]).2.1.stats.evictions =
        ((start 7 brimLimits).run refilled).stats.evictions ∧
      (((start 7 brimLimits).run refilled).ingest 2 [3,2]).1 = .duplicate ∧
      (((start 7 brimLimits).run refilled).ingest 2 [3,2]).2.1.pending =
        ((start 7 brimLimits).run refilled).pending := by
  have h : Undisturbed refilled := by decide
  have hdrop : (((start 7 brimLimits).run refilled).ingest 5 [7,8,9,10]).1 = .dropped := by
    decide +kernel
  have hdup : (((start 7 brimLimits).run refilled).ingest 2 [3,2]).1 = .duplicate := by
    decide +kernel
  have hdropped := (refusal_leaves_no_trace 7 brimLimits refilled h 5 [7,8,9,10]).2.1 hdrop
  have hheld := (refusal_leaves_no_trace 7 brimLimits refilled h 2 [3,2]).1 hdup
  exact ⟨h,hdrop,by rw [hdropped],by rw [hdropped],hdup,by rw [hheld]⟩

end Receiver
end Reassembly
