import Reassembly.Proofs.Ingesting

/-! Changes of a receiver that its operations do not heed. The limits are looked at only while a
payload is filed, the sink only while data is handed on, and the counters never: whatever is changed
there is carried through draining and taking in, as long as filing at one receiver is filing at the
other. -/
namespace Reassembly
namespace Receiver

/-- A change of limits or counters; an operation counts on top of it. -/
structure Unnoticed (φ : Receiver → Receiver) : Prop where
  next : ∀ r, (φ r).nextSeq = r.nextSeq
  pending : ∀ r, (φ r).pending = r.pending
  pendingBytes : ∀ r, (φ r).pendingBytes = r.pendingBytes
  without : ∀ r key payload, (φ r).without key payload = φ (r.without key payload)
  deliver : ∀ r data, (φ r).deliver data = (φ (r.deliver data).1,(r.deliver data).2)
  segment : ∀ r, (φ r).countSegment = φ r.countSegment
  trimmed : ∀ r, (φ r).countTrimmed = φ r.countTrimmed
  filing : ∀ r f, (φ r).countFiling f = φ (r.countFiling f)

/-- A change that may also show in the events at which data is handed on, and in no others. -/
structure Unheeded (φ : Receiver → Receiver) (ψ : Event → Event) : Prop where
  next : ∀ r, (φ r).nextSeq = r.nextSeq
  pending : ∀ r, (φ r).pending = r.pending
  pendingBytes : ∀ r, (φ r).pendingBytes = r.pendingBytes
  without : ∀ r key payload, (φ r).without key payload = φ (r.without key payload)
  deliver : ∀ r data, (φ r).deliver data = (φ (r.deliver data).1,(r.deliver data).2.map ψ)
  segment : ∀ r, (φ r).countSegment = φ r.countSegment
  trimmed : ∀ r, (φ r).countTrimmed = φ r.countTrimmed
  filing : ∀ r f, (φ r).countFiling f = φ (r.countFiling f)
  note : ∀ {e}, Event.delivery? e = none → ψ e = e

structure SparesLimits (φ : Receiver → Receiver) : Prop where
  limits : ∀ r, (φ r).limits = r.limits
  evicted : ∀ r, (φ r).countEvicted = φ r.countEvicted
  holding : ∀ r key payload growth,
    (φ r).holding key payload growth = φ (r.holding key payload growth)

/-- The change of what an operation returns beside its verdict. -/
def changeBoth (φ : Receiver → Receiver) (x : Receiver × List Event) : Receiver × List Event :=
  (φ x.1,x.2)

def changeAll {α : Type} (φ : Receiver → Receiver) (x : α × Receiver × List Event) :
    α × Receiver × List Event := (x.1,changeBoth φ x.2)

def retellBoth (φ : Receiver → Receiver) (ψ : Event → Event) (x : Receiver × List Event) :
    Receiver × List Event := (φ x.1,x.2.map ψ)

def retellAll {α : Type} (φ : Receiver → Receiver) (ψ : Event → Event)
    (x : α × Receiver × List Event) : α × Receiver × List Event := (x.1,retellBoth φ ψ x.2)

/-- Filing the payload does not notice the change. -/
def FilesAlike (φ : Receiver → Receiver) (r : Receiver) (seq : SeqNum) (payload : Bytes) : Prop :=
  (φ r).store seq payload = changeAll φ (r.store seq payload)

/-- Filing what is left of a waiting payload at the next position does not notice the change. -/
def RefilesAlike (φ : Receiver → Receiver) (r : Receiver) : Prop :=
  ∀ {key payload}, r.pending.get? key = some payload →
    SeqNum.compare key r.nextSeq = .before →
    SeqNum.compare (key.advance payload.length) r.nextSeq = .after →
    FilesAlike φ (r.without key payload) r.nextSeq (payload.drop (SeqNum.distance key r.nextSeq))

namespace Unheeded

variable {φ : Receiver → Receiver} {ψ : Event → Event} (hφ : Unheeded φ ψ) (r : Receiver)
  (key seq : SeqNum) (payload data : Bytes)
include hφ

theorem notes {events : List Event} (h : Event.deliveries events = []) :
    events.map ψ = events := by
  refine (List.map_congr_left fun e he => ?_).trans (List.map_id events)
  exact hφ.note (List.filterMap_eq_nil_iff.mp h e he)

theorem take? : (φ r).take? key = (r.take? key).map (Prod.map id φ) := by
  have htake : ∀ s : Receiver, s.take? key =
      (s.pending.get? key).map fun payload => (payload,s.without key payload) := fun _ => rfl
  rw [htake,htake,hφ.pending]
  cases r.pending.get? key with
  | none => rfl
  | some payload => exact congrArg (fun s => some (payload,s)) (hφ.without r key payload)

theorem firstKey? : (φ r).firstKey? = r.firstKey? := by
  rw [Receiver.firstKey?,Receiver.firstKey?,origin,origin,hφ.pending,hφ.next]

theorem drainRound? (hrefile : RefilesAlike φ r) :
    (φ r).drainRound? = r.drainRound?.map (retellBoth φ ψ) := by
  rw [Receiver.drainRound?,Receiver.drainRound?,hφ.firstKey?,hφ.next]
  cases r.firstKey? with
  | none => rfl
  | some key =>
    dsimp only
    rw [hφ.take?]
    cases hc : SeqNum.compare key r.nextSeq with
    | after => rfl
    | equal =>
      cases r.take? key with
      | none => rfl
      | some taken => exact congrArg some (hφ.deliver taken.2 taken.1)
    | before =>
      cases htake : r.take? key with
      | none => rfl
      | some taken =>
        obtain ⟨payload,s⟩ := taken
        obtain ⟨hheld,rfl⟩ := take?_eq_some_iff.mp htake
        simp only [Option.map_some,Prod.map_apply,id,hφ.next,without_nextSeq]
        by_cases hreaches : SeqNum.compare (key.advance payload.length) r.nextSeq = .after
        · have hsame := hrefile hheld hc hreaches
          have hnote : ψ (.refiled key (SeqNum.distance key r.nextSeq) r.nextSeq) = _ :=
            hφ.note rfl
          have hnotes := hφ.notes (store_filed (r.without key payload) r.nextSeq
            (payload.drop (SeqNum.distance key r.nextSeq))).deliveries_eq
          rw [FilesAlike] at hsame
          simp only [hreaches,if_true,hsame,retellBoth,List.map_cons,hnote,hnotes,changeAll,
            changeBoth]
        · have hnote : ψ (.stale key payload.length) = _ := hφ.note rfl
          simp only [hreaches,if_false,retellBoth,List.map_cons,List.map_nil,hnote]

/-- Draining does not heed the change if no round that it comes to does. -/
theorem drain {P : Receiver → Prop} (hr : P r)
    (hkeep : ∀ {r t events}, P r → Round r t events → P t)
    (hrefile : ∀ {r}, P r → RefilesAlike φ r) : (φ r).drain = retellBoth φ ψ r.drain := by
  fun_induction Receiver.drain r with
  | case1 r hround =>
    rw [Receiver.drain]
    split
    · rfl
    · rename_i hchanged
      simp [hφ.drainRound? r (hrefile hr),hround] at hchanged
  | case2 r s events hround t rest he ih =>
    have hs := ih (hkeep hr (drainRound?_eq_some hround))
    rw [Receiver.drain]
    split
    · rename_i hchanged
      simp [hφ.drainRound? r (hrefile hr),hround] at hchanged
    · rename_i hchanged
      rw [hφ.drainRound? r (hrefile hr),hround] at hchanged
      cases hchanged
      simp only [retellBoth,hs,he,List.map_append]

theorem deliverOrStore (trimmed : Bool) (hstore : seq ≠ r.nextSeq → FilesAlike φ r seq data) :
    (φ r).deliverOrStore seq data trimmed = retellAll φ ψ (r.deliverOrStore seq data trimmed) := by
  rw [Receiver.deliverOrStore,Receiver.deliverOrStore,hφ.next]
  split
  · rw [hφ.deliver]
    rfl
  · rename_i hne
    rw [hstore hne]
    have hf := hφ.filing (r.store seq data).2.1
    have hp := hφ.pending (r.store seq data).2.1
    have hb := hφ.pendingBytes (r.store seq data).2.1
    have hn := hφ.notes (store_filed r seq data).deliveries_eq
    generalize r.store seq data = stored at hf hp hb hn
    obtain ⟨f,s,events⟩ := stored
    dsimp only at hn
    simp only [changeAll,changeBoth,retellAll,retellBoth]
    cases f with
    | inserted =>
      rw [hn]
      exact congrArg (fun t => (Outcome.buffered trimmed,t,events)) (hf .inserted)
    | replaced =>
      rw [hn]
      exact congrArg (fun t => (Outcome.buffered trimmed,t,events)) (hf .replaced)
    | kept =>
      rw [hn]
      exact congrArg (fun t => (Outcome.duplicate,t,events)) (hf .kept)
    | rejected =>
      have hcount : (φ s).countDropped = φ s.countDropped := hf .rejected
      have hnote : ψ (.refused seq data.length s.pending.size s.pendingBytes) = _ := hφ.note rfl
      simp only [hcount,hp,hb,List.map_append,hn,List.map_cons,List.map_nil,hnote]

theorem place (hstore : SeqNum.compare seq r.nextSeq = .after →
    SeqNum.compare (seq.advance data.length) r.nextSeq ≠ .before → FilesAlike φ r seq data) :
    (φ r).place seq data = retellAll φ ψ (r.place seq data) := by
  have hduplicate : (φ r).countDuplicate = φ r.countDuplicate := hφ.filing r .kept
  rw [Receiver.place,Receiver.place,hφ.next]
  split
  · have hnote : ψ (.retransmitted seq data.length r.nextSeq) = _ := hφ.note rfl
    simp only [hduplicate,retellAll,retellBoth,List.map_cons,List.map_nil,hnote]
  · rename_i hends
    split
    · dsimp only
      split
      · rw [hduplicate]
        rfl
      · have htrimmed := hφ.deliverOrStore r.countTrimmed r.nextSeq
          (data.drop (SeqNum.distance seq r.nextSeq)) true fun hne => absurd rfl hne
        have hnote : ψ (.trimmed seq (SeqNum.distance seq r.nextSeq) r.nextSeq) = _ := hφ.note rfl
        simp only [hφ.trimmed,htrimmed,retellAll,retellBoth,List.map_cons,hnote]
    · rename_i hstarts
      refine hφ.deliverOrStore r seq data false fun hne => hstore ?_ hends
      cases hc : SeqNum.compare seq r.nextSeq with
      | equal => exact absurd (SeqNum.compare_eq_equal.mp hc) hne
      | before => exact absurd hc hstarts
      | after => rfl

/-- Taking in a segment does not heed the change if filing does not notice it. -/
theorem ingest {P : Receiver → Prop}
    (hplaced : data ≠ [] → P (r.countSegment.place seq data).2.1)
    (hkeep : ∀ {r t events}, P r → Round r t events → P t)
    (hrefile : ∀ {r}, P r → RefilesAlike φ r)
    (hstore : SeqNum.compare seq r.nextSeq = .after →
      SeqNum.compare (seq.advance data.length) r.nextSeq ≠ .before → data ≠ [] →
      FilesAlike φ r.countSegment seq data) :
    (φ r).ingest seq data = retellAll φ ψ (r.ingest seq data) := by
  rw [Receiver.ingest,Receiver.ingest]
  split
  · rfl
  · rename_i hdata
    have hsome : data ≠ [] := by simpa using hdata
    have hplace := hφ.place r.countSegment seq data fun hs he => hstore hs he hsome
    rw [hφ.segment,hplace]
    simp only [retellAll,retellBoth,hφ.drain _ (hplaced hsome) hkeep hrefile,List.map_append]

/-! Filing does not notice a change that leaves the limits alone. -/

variable (hs : SparesLimits φ) (growth entries : ℕ)
include hs

theorem fitsAfterFreeing (freedEntries freedBytes : ℕ) :
    (φ r).fitsAfterFreeing freedEntries freedBytes growth entries =
      r.fitsAfterFreeing freedEntries freedBytes growth entries := by
  simp only [Receiver.fitsAfterFreeing,hs.limits,hφ.pending,hφ.pendingBytes]

theorem fits : (φ r).fits growth entries = r.fits growth entries :=
  hφ.fitsAfterFreeing r hs growth entries 0 0

theorem evictUntilFits : (φ r).evictUntilFits seq growth entries =
    changeAll φ (r.evictUntilFits seq growth entries) := by
  have hfurthest : ∀ s : Receiver, (φ s).furthestKey? = s.furthestKey? := fun s => by
    rw [furthestKey?,furthestKey?,origin,origin,hφ.pending,hφ.next]
  have hrank : ∀ (s : Receiver) key, (φ s).rank key = s.rank key := fun s key => by
    rw [rank,rank,origin,origin,hφ.next]
  fun_induction Receiver.evictUntilFits r seq growth entries with
  | case1 r h =>
    rw [Receiver.evictUntilFits,hφ.fits r hs,if_pos h]
    rfl
  | case2 r h hkey =>
    rw [Receiver.evictUntilFits,hφ.fits r hs,if_neg h,hfurthest,hkey]
    rfl
  | case3 r h key hkey hle =>
    rw [Receiver.evictUntilFits,hφ.fits r hs,if_neg h,hfurthest,hkey]
    simp only [hrank,if_pos hle]
    rfl
  | case4 r h key hkey hle htake =>
    rw [Receiver.evictUntilFits,hφ.fits r hs,if_neg h,hfurthest,hkey]
    simp only [hrank,if_neg hle]
    split
    · rfl
    · rename_i hsome
      simp [hφ.take?,htake] at hsome
  | case5 r h key hkey hle payload s htake s' ok t events he ih =>
    rw [Receiver.evictUntilFits,hφ.fits r hs,if_neg h,hfurthest,hkey]
    simp only [hrank,if_neg hle]
    split
    · rename_i hnone
      simp [hφ.take?,htake] at hnone
    · rename_i hsome
      rw [hφ.take?,htake] at hsome
      cases hsome
      have hcount : (φ s).countEvicted = φ s' := hs.evicted s
      have hrest := ih.trans (congrArg (changeAll φ) he)
      rw [← hcount] at hrest
      exact congrArg (fun x => (x.1,x.2.1,Event.evicted key payload.length::x.2.2)) hrest

theorem makeRoom (len : ℕ) : (φ r).makeRoom seq len growth entries =
    changeAll φ (r.makeRoom seq len growth entries) := by
  have hfurther : (φ r).further seq = r.further seq := by
    rw [further,further,hφ.pending]
    exact List.filter_congr fun e _ => by rw [rank,rank,rank,rank,origin,origin,hφ.next]
  simp only [Receiver.makeRoom,hφ.fits r hs,hs.limits,hfurther,hφ.fitsAfterFreeing r hs,
    hφ.evictUntilFits r seq hs]
  split
  · rfl
  · split
    · rfl
    · cases r.limits.overflow with
      | dropNew => rfl
      | evictFurthest =>
        dsimp only
        split <;> rfl

theorem file (filing : Filing) : (φ r).file seq payload growth entries filing =
    changeAll φ (r.file seq payload growth entries filing) := by
  rw [Receiver.file,hφ.makeRoom r seq hs,Receiver.file]
  obtain ⟨ok,s,events⟩ := r.makeRoom seq payload.length growth entries
  cases ok with
  | false => rfl
  | true => exact congrArg (fun t => (filing,t,events)) (hs.holding s seq payload growth)

theorem filesAlike : FilesAlike φ r seq payload := by
  simp only [FilesAlike,store,hφ.pending,hφ.file r seq payload hs]
  cases r.pending.get? seq with
  | none => rfl
  | some held =>
    dsimp only
    split <;> rfl

theorem ingest_of_limits : (φ r).ingest seq data = retellAll φ ψ (r.ingest seq data) :=
  hφ.ingest (P := fun _ => True) r seq data (fun _ => trivial) (fun _ _ => trivial)
    (fun {s} _ {_ _} _ _ _ => hφ.filesAlike (s.without _ _) _ _ hs)
    fun _ _ _ => hφ.filesAlike _ seq data hs

end Unheeded

variable {φ : Receiver → Receiver}

theorem Unnoticed.unheeded (hφ : Unnoticed φ) : Unheeded φ id where
  next := hφ.next
  pending := hφ.pending
  pendingBytes := hφ.pendingBytes
  without := hφ.without
  deliver r data := by rw [hφ.deliver,List.map_id]
  segment := hφ.segment
  trimmed := hφ.trimmed
  filing := hφ.filing
  note _ := rfl

theorem retellAll_id {α : Type} (x : α × Receiver × List Event) :
    retellAll φ id x = changeAll φ x := by
  rw [retellAll,retellBoth,List.map_id,changeAll,changeBoth]

theorem Unnoticed.ingest (hφ : Unnoticed φ) (r : Receiver) (seq : SeqNum) (data : Bytes)
    {P : Receiver → Prop}
    (hplaced : data ≠ [] → P (r.countSegment.place seq data).2.1)
    (hkeep : ∀ {r t events}, P r → Round r t events → P t)
    (hrefile : ∀ {r}, P r → RefilesAlike φ r)
    (hstore : SeqNum.compare seq r.nextSeq = .after →
      SeqNum.compare (seq.advance data.length) r.nextSeq ≠ .before → data ≠ [] →
      FilesAlike φ r.countSegment seq data) :
    (φ r).ingest seq data = changeAll φ (r.ingest seq data) :=
  (hφ.unheeded.ingest r seq data hplaced hkeep hrefile hstore).trans (retellAll_id _)

end Receiver
end Reassembly
