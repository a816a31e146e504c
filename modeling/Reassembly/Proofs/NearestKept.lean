import Mathlib.Data.List.MinMax
import Reassembly.Proofs.Nearest
import Reassembly.Proofs.Provenance
import Reassembly.Proofs.Refusal

/-! A receiver that gives up what is furthest keeps what is nearest, in whatever order it came. As
long as all segments lie ahead, what waits under a cap on the number of payloads is what would wait
without it, cut down to the starts nearest ahead: a payload that is refused or given up has as many
nearer ones before it as the cap allows, and a nearer one gives way only to one nearer still. -/
namespace Reassembly
namespace Receiver

/-- At most `m` payloads may wait, and the nearest are kept. -/
def keeping (m : ℕ) : Limits := {maxSegments := some m, overflow := .evictFurthest}

/-- The operation moves nothing, and what it takes in lies in the half of the circle ahead. -/
def Op.LiesAhead (initial : SeqNum) : Op → Prop
  | .ingest seq data => 1 ≤ SeqNum.distance initial seq ∧
      SeqNum.distance initial seq+data.length ≤ 2^31
  | .reset _ => False
  | .setSink _ | .clearSink => True

instance (initial : SeqNum) : DecidablePred (Op.LiesAhead initial)
  | .ingest _ _ => inferInstanceAs (Decidable (_ ∧ _))
  | .reset _ => inferInstanceAs (Decidable False)
  | .setSink _ | .clearSink => inferInstanceAs (Decidable True)

/-- The data of the segments at `key` that carry any, in order. -/
def payloadsAt (segs : List (SeqNum × Bytes)) (key : SeqNum) : List Bytes :=
  (segs.filter fun s => s.1 = key ∧ s.2 ≠ []).map Prod.snd

variable {base seq key k : SeqNum} {m growth entries : ℕ} {p : Pending} {payload data : Bytes}
  {r s t : Receiver} {e : SeqNum × Bytes} {es : List (SeqNum × Bytes)}

theorem fits_keeping (hl : r.limits = keeping m) :
    r.fits growth entries = true ↔ r.pending.size+entries ≤ m := by
  simp [fits_iff,hl,keeping]

theorem rank_lt_rank_iff (hkey : SeqNum.compare key r.nextSeq = .after)
    (hk : SeqNum.compare k r.nextSeq = .after) : r.rank key < r.rank k ↔
      SeqNum.distance r.nextSeq key < SeqNum.distance r.nextSeq k := by
  have hd := SeqNum.compare_eq_after_iff.mp hkey
  have hd' := SeqNum.compare_eq_after_iff.mp hk
  rw [rank_eq,rank_eq]
  omega

theorem distance_lt_of_furthest (hr : AtRest r) (hseq : SeqNum.compare seq r.nextSeq = .after)
    (hfree : r.pending.get? seq = none) (hes : r.furthestFirst seq = [])
    (hk : r.pending.get? k = some payload) :
    SeqNum.distance r.nextSeq k < SeqNum.distance r.nextSeq seq := by
  have hne : SeqNum.distance r.nextSeq k ≠ SeqNum.distance r.nextSeq seq := by
    intro heq
    rw [SeqNum.distance_inj.mp heq,hfree] at hk
    cases hk
  refine lt_of_le_of_ne (not_lt.mp fun hlt => ?_) hne
  have hfurther := (rank_lt_rank_iff hseq (hr k payload hk)).mpr hlt
  have hmem := (furthestFirst_spec r seq).mem_iff (e:=(k,payload)).mpr ⟨hk,hfurther⟩
  rw [hes] at hmem
  cases hmem

theorem distance_le_furthest (hr : AtRest r) (hes : r.furthestFirst seq = e::es)
    (hk : r.pending.get? k = some payload) :
    SeqNum.distance r.nextSeq k ≤ SeqNum.distance r.nextSeq e.1 := by
  have hspec : FurthestFirst r seq (e::es) := hes ▸ furthestFirst_spec r seq
  have hheld := (hspec.mem_iff.mp List.mem_cons_self).1
  have hle : r.rank k ≤ r.rank e.1 :=
    (Pending.lastFrom?_eq_some hspec.furthestKey?_eq).2 k payload hk
  rw [← not_lt,rank_lt_rank_iff (hr _ _ hheld) (hr _ _ hk)] at hle
  exact not_lt.mp hle

theorem store_pending_of_fits (hw : r.Wants seq data)
    (hfits : r.fits (r.growth seq data) (r.newEntries seq) = true) :
    (r.store seq data).2.1.pending = r.pending.insert seq data := by
  obtain ⟨filing,_,hstore⟩ := store_of_wants hw
  rw [hstore,file_of_fits hfits]
  rfl

/-- If the furthest payload is enough, it alone gives way. -/
theorem store_pending_of_furthest (hw : r.Wants seq data)
    (hfits : ¬r.fits (r.growth seq data) (r.newEntries seq) = true)
    (hmay : MayEvict r seq data.length (r.growth seq data) (r.newEntries seq))
    (hes : r.furthestFirst seq = e::es)
    (hroom : (r.without e.1 e.2).countEvicted.fits (r.growth seq data) (r.newEntries seq) = true) :
    (r.store seq data).2.1.pending = (r.pending.erase e.1).insert seq data := by
  have hspec : FurthestFirst r seq (e::es) := hes ▸ furthestFirst_spec r seq
  have ⟨hheld,hfurther⟩ := hspec.mem_iff.mp List.mem_cons_self
  obtain ⟨filing,_,hstore⟩ := store_of_wants hw
  rw [hstore,file,makeRoom_of_mayEvict hfits hmay,
    evictUntilFits_of_not_fits hfits hspec.furthestKey?_eq hfurther hheld,evictUntilFits,
    if_pos hroom]
  rfl

/-- With the store full, the furthest payload may be given up if it starts beyond the newcomer. -/
theorem mayEvict_keeping (hl : r.limits = keeping m) (hfull : r.pending.size = m)
    (hes : r.furthestFirst seq = e::es) : MayEvict r seq data.length growth 1 where
  policy := by rw [hl]; rfl
  within := by simp [hl,keeping]
  enough := by
    have hsize := (furthestFirst_spec r seq).size_giveUp
    have hlimits := (giveUp_limits r (r.furthestFirst seq)).trans hl
    rw [hes] at hsize hlimits ⊢
    rw [List.length_cons] at hsize
    rw [fits_keeping hlimits]
    omega

theorem not_hasRoom_of_furthest
    (hfits : ¬r.fits (r.growth seq data) (r.newEntries seq) = true)
    (hes : r.furthestFirst seq = []) : ¬r.HasRoom seq data := by
  rintro (hnow | hmay)
  · exact hfits hnow
  · have henough := hmay.enough
    rw [hes] at henough
    exact hfits henough

theorem nearestOf_store_full (hl : r.limits = keeping m) (hr : AtRest r)
    (hseq : SeqNum.compare seq r.nextSeq = .after) (hq : r.pending.get? seq = none)
    (hfull : r.pending.size = m) (h : Pending.NearestOf r.nextSeq m p r.pending) :
    Pending.NearestOf r.nextSeq m (p.offer seq data) (r.store seq data).2.1.pending := by
  have hw : r.Wants seq data := by simp [Wants,hq]
  have hnew : r.newEntries seq = 1 := by simp [newEntries,Pending.contains,hq]
  have hfits : ¬r.fits (r.growth seq data) (r.newEntries seq) = true := by
    rw [fits_keeping hl,hnew,hfull]
    omega
  cases hes : r.furthestFirst seq with
  | nil =>
    rw [store_of_not_hasRoom hw (not_hasRoom_of_furthest hfits hes)]
    exact h.refuse hfull hq (distance_lt_of_furthest hr hseq hq hes)
  | cons e es =>
    have hspec : FurthestFirst r seq (e::es) := hes ▸ furthestFirst_spec r seq
    obtain ⟨hheld,hfurther⟩ := hspec.mem_iff.mp List.mem_cons_self
    have hlt := (rank_lt_rank_iff hseq (hr _ _ hheld)).mp hfurther
    -- No payload of `p` is missing at the start, since one that waits lies beyond it.
    have hp : p.get? seq = none := by
      by_contra hsome
      obtain ⟨v,hv⟩ := Option.ne_none_iff_exists'.mp hsome
      exact absurd (h.beyond hv hq hheld) hlt.not_gt
    have hmay : MayEvict r seq data.length (r.growth seq data) (r.newEntries seq) :=
      hnew ▸ mayEvict_keeping hl hfull hes
    have hroom : (r.without e.1 e.2).countEvicted.fits (r.growth seq data) (r.newEntries seq) =
        true := by
      have hsize := Pending.size_eq_of_get? hheld
      rw [fits_keeping (r:=(r.without e.1 e.2).countEvicted) hl,hnew]
      change (r.pending.erase e.1).size+1 ≤ m
      omega
    rw [Pending.offer_of_free hp,store_pending_of_furthest hw hfits hmay hes hroom]
    exact h.replace hfull hq hheld (distance_le_furthest hr hes) hlt

/-- Filing a segment that lies ahead keeps the nearest of what came. -/
theorem nearestOf_store (hl : r.limits = keeping m) (hr : AtRest r)
    (hseq : SeqNum.compare seq r.nextSeq = .after)
    (h : Pending.NearestOf r.nextSeq m p r.pending) :
    Pending.NearestOf r.nextSeq m (p.offer seq data) (r.store seq data).2.1.pending := by
  cases hq : r.pending.get? seq with
  | some held =>
    have hcontains : r.pending.contains seq = true := by simp [Pending.contains,hq]
    rw [Pending.offer_of_held (h.part hq)]
    by_cases hle : data.length ≤ held.length
    · have hw : ¬r.Wants seq data := fun hw => absurd (hw held hq) (not_lt.mpr hle)
      rwa [if_pos hle,store_of_not_wants hw]
    · have hw : r.Wants seq data := by simpa [Wants,hq] using hle
      have hfits : r.fits (r.growth seq data) (r.newEntries seq) = true := by
        rw [fits_keeping hl,newEntries,if_pos hcontains]
        exact h.room
      rw [if_neg hle,store_pending_of_fits hw hfits]
      exact h.insert (.inl hcontains)
  | none =>
    rcases Nat.lt_or_eq_of_le h.room with hlt | hfull
    · have hw : r.Wants seq data := by simp [Wants,hq]
      have hp : p.get? seq = none := by rw [← h.eq_of_lt hlt,hq]
      have hfits : r.fits (r.growth seq data) (r.newEntries seq) = true := by
        rw [fits_keeping hl]
        simpa [newEntries,Pending.contains,hq] using hlt
      rw [Pending.offer_of_free hp,store_pending_of_fits hw hfits]
      exact h.insert (.inr hlt)
    · exact nearestOf_store_full hl hr hseq hq hfull h

theorem store_pending_of_uncapped (hu : r.limits.isBounded = false) :
    (r.store seq data).2.1.pending = r.pending.offer seq data := by
  have hfits : r.fits data.length 1 = true := by
    by_contra hno
    exact absurd (bounded_of_not_fits hno) (by simp [hu])
  rw [store_of_fits hfits,storeFreely,Pending.offer]
  cases r.pending.get? seq with
  | none => rfl
  | some held =>
    dsimp only
    split <;> rfl

structure StaysAt (base : SeqNum) (r : Receiver) : Prop where
  next : r.nextSeq = base
  rest : AtRest r

theorem staysAt_start (initial : SeqNum) (limits : Limits) :
    StaysAt initial (start initial limits) := ⟨rfl,atRest_start initial limits⟩

/-- Each start holds the first of the longest payloads that came there. -/
def HoldsLongest (segs : List (SeqNum × Bytes)) (r : Receiver) : Prop :=
  ∀ key, r.pending.get? key = (payloadsAt segs key).argmax List.length

/-- A receiver that keeps the nearest `m` payloads beside one without caps. -/
structure KeepsNearest (base : SeqNum) (m : ℕ) (r s : Receiver) : Prop where
  capped : r.limits = keeping m
  free : s.limits.isBounded = false
  stays : StaysAt base r
  stays' : StaysAt base s
  nearest : Pending.NearestOf base m s.pending r.pending

variable {op : Op} {ops : List Op} {segs : List (SeqNum × Bytes)}

theorem Op.LiesAhead.moves_eq (h : op.LiesAhead base) : op.moves = false := by
  cases op with
  | reset => exact h.elim
  | ingest | setSink | clearSink => rfl

theorem StaysAt.ingest (h : StaysAt base r) (hop : (Op.ingest seq data).LiesAhead base)
    (hd : data ≠ []) : (r.ingest seq data).2.1.nextSeq = base ∧
      (r.ingest seq data).2.1.pending = (r.countSegment.store seq data).2.1.pending ∧
      SeqNum.compare seq r.nextSeq = .after := by
  obtain ⟨hpos,hend⟩ := hop
  rw [← h.next] at hpos hend
  rw [ingest_of_ahead h.rest hd hpos hend,fileAhead_nextSeq,fileAhead_pending]
  exact ⟨h.next,rfl,SeqNum.compare_eq_after_iff.mpr ⟨hpos,by omega⟩⟩

theorem StaysAt.ingest_of_uncapped (h : StaysAt base s) (hu : s.limits.isBounded = false)
    (hop : (Op.ingest seq data).LiesAhead base) (hd : data ≠ []) :
    (s.ingest seq data).2.1.pending = s.pending.offer seq data :=
  (h.ingest hop hd).2.1.trans (store_pending_of_uncapped (r:=s.countSegment) hu)

theorem StaysAt.step (h : StaysAt base r) (hop : op.LiesAhead base) :
    StaysAt base (r.step op).receiver := by
  refine ⟨?_,step_atRest hop.moves_eq h.rest⟩
  cases op with
  | ingest seq data =>
    by_cases hd : data = []
    · simpa [Receiver.step,Receiver.ingest,hd] using h.next
    · exact (h.ingest hop hd).1
  | reset => exact hop.elim
  | setSink | clearSink => exact h.next

theorem payloadsAt_append (segs segs' : List (SeqNum × Bytes)) (key : SeqNum) :
    payloadsAt (segs ++ segs') key = payloadsAt segs key ++ payloadsAt segs' key := by
  simp [payloadsAt]

theorem payloadsAt_of_no_data (h : op.bringsData = false) (key : SeqNum) :
    payloadsAt (segments [op]) key = [] := by
  cases op with
  | ingest seq data =>
    have hd : data = [] := by simpa [Op.bringsData] using h
    simp [payloadsAt,segments,Op.segment?,hd]
  | reset | setSink | clearSink => rfl

theorem step_keepsNearest (h : KeepsNearest base m r s) (hop : op.LiesAhead base) :
    KeepsNearest base m (r.step op).receiver (s.step op).receiver := by
  refine ⟨(step_limits r op).trans h.capped,(step_limits s op).symm ▸ h.free,h.stays.step hop,
    h.stays'.step hop,?_⟩
  cases hb : op.bringsData with
  | false =>
    rw [pending_of_no_data hb,pending_of_no_data hb]
    exact h.nearest
  | true =>
    obtain ⟨seq,data,rfl,hd⟩ := Op.exists_of_bringsData hb
    obtain ⟨_,hcapped,hseq⟩ := h.stays.ingest hop hd
    have hnext : r.countSegment.nextSeq = base := h.stays.next
    have hrest : AtRest r.countSegment := h.stays.rest.congr rfl rfl
    change Pending.NearestOf base m (s.ingest seq data).2.1.pending (r.ingest seq data).2.1.pending
    rw [h.stays'.ingest_of_uncapped h.free hop hd,hcapped,← hnext]
    exact nearestOf_store h.capped hrest hseq (hnext.symm ▸ h.nearest)

theorem run_keepsNearest (h : KeepsNearest base m r s) (hops : ∀ op ∈ ops, op.LiesAhead base) :
    KeepsNearest base m (r.run ops) (s.run ops) := by
  induction ops generalizing r s with
  | nil => exact h
  | cons op ops ih =>
    have ⟨hop,hrest⟩ := List.forall_mem_cons.mp hops
    exact ih (step_keepsNearest h hop) hrest

theorem HoldsLongest.offer (h : HoldsLongest segs s) (hd : data ≠ [])
    (ht : t.pending = s.pending.offer seq data) : HoldsLongest (segs ++ [(seq,data)]) t := by
  intro key
  rw [ht,payloadsAt_append]
  by_cases hk : key = seq
  · subst hk
    have hone : payloadsAt [(key,data)] key = [data] := by simp [payloadsAt,hd]
    rw [hone,List.argmax_concat,← h key]
    cases hheld : s.pending.get? key with
    | none => rw [Pending.offer_of_free hheld]; simp
    | some held =>
      rw [Pending.offer_of_held hheld]
      by_cases hle : data.length ≤ held.length
      · simp [hle,hheld,not_lt.mpr hle]
      · simp [hle,not_le.mp hle]
  · have hnone : payloadsAt [(seq,data)] key = [] := by simp [payloadsAt,Ne.symm hk]
    rw [hnone,List.append_nil,Pending.get?_offer_of_ne hk]
    exact h key

theorem step_holdsLongest (h : HoldsLongest segs s) (hu : s.limits.isBounded = false)
    (hs : StaysAt base s) (hop : op.LiesAhead base) :
    HoldsLongest (segs ++ segments [op]) (s.step op).receiver := by
  cases hb : op.bringsData with
  | false =>
    intro key
    rw [payloadsAt_append,payloadsAt_of_no_data hb,List.append_nil,pending_of_no_data hb]
    exact h key
  | true =>
    obtain ⟨seq,data,rfl,hd⟩ := Op.exists_of_bringsData hb
    exact h.offer hd (hs.ingest_of_uncapped hu hop hd)

theorem run_holdsLongest (h : HoldsLongest segs s) (hu : s.limits.isBounded = false)
    (hs : StaysAt base s) (hops : ∀ op ∈ ops, op.LiesAhead base) :
    HoldsLongest (segs ++ segments ops) (s.run ops) := by
  induction ops generalizing s segs with
  | nil => simpa [segments,run] using h
  | cons op ops ih =>
    obtain ⟨hop,hrest⟩ := List.forall_mem_cons.mp hops
    have hu' : (s.step op).receiver.limits.isBounded = false := (step_limits s op).symm ▸ hu
    have hall := ih (step_holdsLongest h hu hs hop) hu' (hs.step hop) hrest
    rwa [List.append_assoc,segments,segments,← List.filterMap_append] at hall

/-- When everything lies ahead, a receiver that keeps `m` payloads ends with the nearest `m` of
those that one without caps ends with; and that one holds at each start the first of the longest
payloads that came there. -/
theorem evicting_keeps_nearest (initial : SeqNum) (m : ℕ) (overflow : Overflow) (ops : List Op)
    (h : ∀ op ∈ ops, op.LiesAhead initial) :
    let capped := (start initial (keeping m)).run ops
    let free := (start initial {overflow}).run ops
    capped.pending = free.pending.nearest initial m ∧
      capped.pending.size = min m free.pending.size ∧
      (∀ key, free.pending.get? key = (payloadsAt (segments ops) key).argmax List.length) ∧
      capped.nextSeq = initial ∧ free.nextSeq = initial := by
  intro capped free
  have hnone : Pending.NearestOf initial m (start initial {overflow}).pending
      (start initial (keeping m)).pending :=
    ⟨id,Nat.zero_le m,by simp [start],by simp [start]⟩
  have hkept : KeepsNearest initial m capped free :=
    run_keepsNearest ⟨rfl,rfl,staysAt_start _ _,staysAt_start _ _,hnone⟩ h
  have hlongest : HoldsLongest ([] ++ segments ops) free :=
    run_holdsLongest (fun _ => rfl) rfl (staysAt_start _ _) h
  exact ⟨hkept.nearest.eq_nearest,hkept.nearest.size_eq,hlongest,hkept.stays.next,
    hkept.stays'.next⟩

/-- Across the end of the circle, a payload is given up for a nearer one, one is refused, and of the
two that wait one was replaced and one was not, since what came later was no longer. -/
def outrun : List Op :=
  [.ingest 9 [1],.setSink 4,.ingest 4 [2,2],.ingest 0xffffffff [3],.ingest 6 [5,5,5],
    .ingest 4 [7,8],.ingest 0xffffffff [9,9],.ingest 1 []]

theorem nearest_of_outrun :
    (∀ op ∈ outrun, op.LiesAhead 0xfffffffe) ∧
      ((start 0xfffffffe (keeping 2)).run outrun).stats.evictions = 1 ∧
      ((start 0xfffffffe (keeping 2)).run outrun).stats.overflowDrops = 1 ∧
      ((start 0xfffffffe {}).run outrun).pending.entries =
        [(4,[2,2]),(6,[5,5,5]),(9,[1]),(0xffffffff,[9,9])] ∧
      ((start 0xfffffffe (keeping 2)).run outrun).pending.entries =
        [(4,[2,2]),(0xffffffff,[9,9])] := by
  have h : ∀ op ∈ outrun, op.LiesAhead 0xfffffffe := by decide
  have hnearest := (evicting_keeps_nearest 0xfffffffe 2 .dropNew outrun h).1
  refine ⟨h,by decide +kernel,by decide +kernel,by decide +kernel,?_⟩
  rw [hnearest]
  decide +kernel

end Receiver
end Reassembly
