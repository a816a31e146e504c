import Reassembly.Proofs.Indifference
import Reassembly.Proofs.StoreInvariant

/-! Caps show only when they bite. As long as nothing was refused or given up, a receiver with caps
goes step by step as one without. What draining files again needs no attention: it takes up less
room than what was taken out for it. -/
namespace Reassembly
namespace Receiver

/-- The number of payloads that were refused or given up. -/
def lost (r : Receiver) : ℕ := r.stats.overflowDrops+r.stats.evictions

/-- The same receiver without caps. -/
def uncap (overflow : Overflow) (r : Receiver) : Receiver := {r with limits := {overflow}}

def storeFreely (r : Receiver) (seq : SeqNum) (payload : Bytes) :
    Filing × Receiver × List Event :=
  match r.pending.get? seq with
  | none => (.inserted,r.holding seq payload payload.length,[])
  | some held =>
    if payload.length ≤ held.length then (.kept,r,[])
    else (.replaced,r.holding seq payload (payload.length-held.length),[])

variable {r s t : Receiver} {seq key : SeqNum} {payload data : Bytes} {filing : Filing}
  {outcome : Outcome} {events : List Event} (overflow : Overflow)

theorem Sheds.lost_eq (h : Sheds seq r t events) : t.lost = r.lost+events.length := by
  induction h with
  | done => rfl
  | @evict r t key payload events capped further held rest ih =>
    have hevict : (r.without key payload).countEvicted.lost = r.lost+1 := rfl
    rw [ih,hevict,List.length_cons]
    omega

theorem Filed.lost_le (h : Filed r seq payload filing t events) : r.lost ≤ t.lost := by
  cases h with
  | kept => exact le_rfl
  | rejected _ shed => exact shed.lost_eq ▸ Nat.le_add_right _ _
  | inserted _ shed => exact shed.lost_eq ▸ Nat.le_add_right _ _
  | replaced _ _ shed => exact shed.lost_eq ▸ Nat.le_add_right _ _

theorem Filed.eq_storeFreely (h : Filed r seq payload filing t events) (hf : filing ≠ .rejected)
    (hl : t.lost = r.lost) : (filing,t,events) = r.storeFreely seq payload := by
  have stays : ∀ {s es}, Sheds seq r s es → s.lost = r.lost → s = r ∧ es = [] := by
    intro s es shed hs
    have hlost := shed.lost_eq
    cases shed with
    | done => exact ⟨rfl,rfl⟩
    | evict =>
      rw [List.length_cons] at hlost
      omega
  cases h with
  | kept waits short => simp [storeFreely,waits,short]
  | rejected => exact absurd rfl hf
  | inserted free shed fits =>
    obtain ⟨rfl,rfl⟩ := stays shed hl
    simp [storeFreely,free]
  | replaced waits long shed fits =>
    obtain ⟨rfl,rfl⟩ := stays shed hl
    simp [storeFreely,waits,long]

theorem Round.lost_le (h : Round r t events) : r.lost ≤ t.lost := by
  cases h with
  | handOn => exact le_rfl
  | refile _ _ _ _ filed => exact filed.lost_le
  | discard => exact le_rfl

theorem Drains.lost_le (h : Drains r t events) : r.lost ≤ t.lost := by
  induction h with
  | done => exact le_rfl
  | round first _ ih => exact first.lost_le.trans ih

theorem lost_countFiling (r : Receiver) (filing : Filing) :
    (r.countFiling filing).lost = r.lost + if filing = .rejected then 1 else 0 := by
  cases filing <;> simp [countFiling,countBuffered,countDuplicate,countDropped,lost,Nat.add_right_comm]

theorem Placed.lost_le (h : Placed r seq data outcome t events) : r.lost ≤ t.lost := by
  cases h with
  | behind | covered | cut | next => exact le_rfl
  | @ahead filing s es _ _ filed =>
    rw [lost_countFiling]
    exact filed.lost_le.trans (Nat.le_add_right _ _)

theorem Ingested.lost_le (h : Ingested r seq data outcome t events) : r.lost ≤ t.lost := by
  cases h with
  | empty => exact le_rfl
  | @taken _ s _ _ _ _ placed drained =>
    have hcount : r.countSegment.lost = r.lost := rfl
    exact hcount ▸ placed.lost_le.trans drained.lost_le

theorem step_lost_le (r : Receiver) (op : Op) : r.lost ≤ (r.step op).receiver.lost := by
  cases op with
  | ingest seq data => exact (ingest_ingested r seq data).lost_le
  | reset | setSink | clearSink => exact le_rfl

theorem run_lost_le (r : Receiver) (ops : List Op) : r.lost ≤ (r.run ops).lost := by
  induction ops generalizing r with
  | nil => exact le_rfl
  | cons op ops ih => exact (step_lost_le r op).trans (ih _)

theorem file_of_fits {growth entries : ℕ} (h : r.fits growth entries = true) :
    r.file seq payload growth entries filing = (filing,r.holding seq payload growth,[]) := by
  simp [file,makeRoom,h,holding]

/-- Room for the whole payload as a new entry is room enough in any case. -/
theorem store_of_fits (h : r.fits payload.length 1 = true) :
    r.store seq payload = r.storeFreely seq payload := by
  have ⟨hsegments,hbytes⟩ := fits_iff.mp h
  rw [store,storeFreely]
  cases r.pending.get? seq with
  | none => exact file_of_fits h
  | some held =>
    have hgrowth : r.fits (payload.length-held.length) 0 = true := by
      refine fits_iff.mpr ⟨fun max hmax => ?_,fun max hmax => ?_⟩
      · have hle := hsegments max hmax
        omega
      · have hle := hbytes max hmax
        omega
    dsimp only
    rw [file_of_fits hgrowth]

theorem Consistent.refile_fits (hr : Consistent r) (hheld : r.pending.get? key = some payload)
    (covered : ℕ) : (r.without key payload).fits (payload.drop covered).length 1 = true := by
  have hsize := Pending.size_eq_of_get? hheld
  have hbytes := Pending.bytes_eq_of_get? hheld
  have hcounted := hr.counted
  refine fits_iff.mpr ⟨fun max hmax => ?_,fun max hmax => ?_⟩
  · have hle := hr.segments hmax
    rw [without_pending]
    omega
  · have hle := hr.bytes hmax
    simp only [List.length_drop,Receiver.without]
    omega

theorem unnoticed_uncap : Unnoticed (uncap overflow) where
  next _ := rfl
  pending _ := rfl
  pendingBytes _ := rfl
  without _ _ _ := rfl
  deliver _ _ := rfl
  segment _ := rfl
  trimmed _ := rfl
  filing _ f := by cases f <;> rfl

theorem filesAlike_uncap (h : r.store seq payload = r.storeFreely seq payload) :
    FilesAlike (uncap overflow) r seq payload := by
  have hfits : (r.uncap overflow).fits payload.length 1 = true := by simp [fits_iff,uncap]
  have hpending : (r.uncap overflow).pending = r.pending := rfl
  rw [FilesAlike,store_of_fits hfits,h,storeFreely,storeFreely,hpending]
  cases r.pending.get? seq with
  | none => rfl
  | some held =>
    dsimp only
    split <;> rfl

theorem Consistent.refilesAlike_uncap (hr : Consistent r) : RefilesAlike (uncap overflow) r :=
  fun hheld _ _ => filesAlike_uncap overflow (store_of_fits (hr.refile_fits hheld _))

/-- A segment that lies ahead is filed where there is room if nothing is lost by it. -/
theorem store_of_place (hstarts : SeqNum.compare seq r.nextSeq = .after)
    (hends : SeqNum.compare (seq.advance data.length) r.nextSeq ≠ .before)
    (hl : (r.place seq data).2.1.lost = r.lost) :
    r.store seq data = r.storeFreely seq data := by
  have hne : seq ≠ r.nextSeq := by
    rintro rfl
    simp at hstarts
  have hplace : (r.place seq data).2.1 = (r.store seq data).2.1.countFiling (r.store seq data).1 := by
    have hbefore : SeqNum.compare seq r.nextSeq ≠ .before := by simp [hstarts]
    rw [place,if_neg hends,if_neg hbefore,deliverOrStore,if_neg hne]
    generalize r.store seq data = stored
    obtain ⟨f,s,es⟩ := stored
    cases f <;> rfl
  have hfiled := store_filed r seq data
  have hle := hfiled.lost_le
  rw [hplace,lost_countFiling] at hl
  refine hfiled.eq_storeFreely (fun hf => ?_) (by omega)
  rw [if_pos hf] at hl
  omega

theorem ingest_uncap (hr : Consistent r) (hl : (r.ingest seq data).2.1.lost = r.lost) :
    (r.uncap overflow).ingest seq data = changeAll (uncap overflow) (r.ingest seq data) := by
  have hcounted : Consistent r.countSegment := hr.congr rfl rfl rfl
  refine (unnoticed_uncap overflow).ingest (P := Consistent) r seq data
    (fun hd => (place_placed _ seq data).consistent hcounted hd)
    (fun hc round => round.consistent hc) (fun hc => hc.refilesAlike_uncap overflow)
    fun hstarts hends hd => ?_
  have hplaced := (place_placed r.countSegment seq data).lost_le
  have hdrained := (drain_drains (r.countSegment.place seq data).2.1).lost_le
  have hingest : (r.ingest seq data).2.1 = (r.countSegment.place seq data).2.1.drain.1 := by
    rw [Receiver.ingest,if_neg (by simpa using hd)]
  have hcount : r.countSegment.lost = r.lost := rfl
  rw [hingest] at hl
  exact filesAlike_uncap overflow (store_of_place hstarts hends (by omega))

def Step.uncap (overflow : Overflow) (s : Step) : Step :=
  {s with receiver := s.receiver.uncap overflow}

theorem step_uncap (op : Op) (hr : Consistent r) (hl : (r.step op).receiver.lost = r.lost) :
    (r.uncap overflow).step op = (r.step op).uncap overflow := by
  cases op with
  | ingest seq data =>
    rw [step,ingest_uncap overflow hr hl]
    rfl
  | reset | setSink | clearSink => rfl

theorem steps_uncap (ops : List Op) (hr : Consistent r) (hl : (r.run ops).lost = r.lost) :
    (r.uncap overflow).steps ops = (r.steps ops).map (Step.uncap overflow) := by
  induction ops generalizing r with
  | nil => rfl
  | cons op ops ih =>
    -- Losses never shrink, so a run that ends with none has none at its first step or after it.
    have hfirst := step_lost_le r op
    have hrest := run_lost_le (r.step op).receiver ops
    have hrun : (r.run (op::ops)).lost = ((r.step op).receiver.run ops).lost := rfl
    have hstep := step_uncap overflow op hr (by omega)
    have hnext : ((r.step op).uncap overflow).receiver = (r.step op).receiver.uncap overflow := rfl
    rw [steps,hstep,hnext,ih (step_consistent op hr) (by omega),steps,List.map_cons]

structure Step.Alike (s t : Step) : Prop where
  outcome : t.outcome = s.outcome
  events : t.events = s.events
  chunks : Event.chunks t.events = Event.chunks s.events
  next : t.receiver.nextSeq = s.receiver.nextSeq
  pending : t.receiver.pending = s.receiver.pending
  pendingBytes : t.receiver.pendingBytes = s.receiver.pendingBytes
  sink : t.receiver.sink = s.receiver.sink
  stats : t.receiver.stats = s.receiver.stats

/-- A run at whose end nothing was refused or given up goes, at each of its steps, as it would
without caps. -/
theorem steps_alike_without_caps (initial : SeqNum) (limits : Limits) (overflow : Overflow)
    (ops : List Op) (hdrops : ((start initial limits).run ops).stats.overflowDrops = 0)
    (hevictions : ((start initial limits).run ops).stats.evictions = 0) :
    List.Forall₂ Step.Alike ((start initial limits).steps ops)
      ((start initial {overflow}).steps ops) := by
  have huncap : start initial {overflow} = (start initial limits).uncap overflow := rfl
  have hlost : ((start initial limits).run ops).lost = (start initial limits).lost := by
    rw [lost,hdrops,hevictions]
    rfl
  rw [huncap,steps_uncap overflow ops (consistent_start initial limits) hlost,
    List.forall₂_map_right_iff]
  exact List.forall₂_same.mpr fun s _ => ⟨rfl,rfl,rfl,rfl,rfl,rfl,rfl,rfl⟩

def brimLimits : Limits := {maxSegments := some 2, maxBytes := some 6, overflow := .evictFurthest}

/-- Segments that fill both caps; later on a part of each is filed again, once after a move. -/
def brim : List Op :=
  [.setSink 3,.ingest 3 [1,2,3],.ingest 8 [4,5,6],.ingest 0xfffffffe [0,0,0,0,0,0],.reset 9,
    .ingest 9 [7],.clearSink]

theorem alike_of_brim :
    ((start 0xfffffffe brimLimits).run (brim.take 3)).pendingBytes = 6 ∧
      ((start 0xfffffffe brimLimits).run brim).stats.overflowDrops = 0 ∧
      ((start 0xfffffffe brimLimits).run brim).stats.evictions = 0 ∧
      List.Forall₂ Step.Alike ((start 0xfffffffe brimLimits).steps brim)
        ((start 0xfffffffe {overflow := .dropNew}).steps brim) := by
  have hdrops : ((start 0xfffffffe brimLimits).run brim).stats.overflowDrops = 0 := by
    decide +kernel
  have hevictions : ((start 0xfffffffe brimLimits).run brim).stats.evictions = 0 := by
    decide +kernel
  have halike := steps_alike_without_caps 0xfffffffe brimLimits .dropNew brim hdrops hevictions
  exact ⟨by decide +kernel,hdrops,hevictions,halike⟩

end Receiver
end Reassembly
