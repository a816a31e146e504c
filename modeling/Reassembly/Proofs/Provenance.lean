import Reassembly.Proofs.StoreInvariant

/-! Where the data that is handed on comes from. Whatever the segments say and however the next
position is moved, the chunks of one operation lie end to end, and each is the tail of one segment,
handed on at the position it has there. -/
namespace Reassembly

/-- The chunks fill the way from `first` to `last` without a gap, and none is empty. -/
def LieEndToEnd : SeqNum → List (SeqNum × Bytes) → SeqNum → Prop
  | first, [], last => first = last
  | first, c::cs, last => c.1 = first ∧ c.2 ≠ [] ∧ LieEndToEnd (first.advance c.2.length) cs last

theorem LieEndToEnd.append {a b c : SeqNum} {xs ys : List (SeqNum × Bytes)}
    (hx : LieEndToEnd a xs b) (hy : LieEndToEnd b ys c) : LieEndToEnd a (xs++ys) c := by
  induction xs generalizing a with
  | nil =>
    have hab : a = b := hx
    exact hab ▸ hy
  | cons x xs ih => exact ⟨hx.1,hx.2.1,ih hx.2.2⟩

/-- The chunk is what is left of the segment after some bytes, at the position it has there. -/
def TailOf (segment chunk : SeqNum × Bytes) : Prop :=
  ∃ cut ≤ segment.2.length, chunk = (segment.1.advance cut,segment.2.drop cut)

theorem TailOf.refl (segment : SeqNum × Bytes) : TailOf segment segment :=
  ⟨0,Nat.zero_le _,by simp⟩

theorem TailOf.drop {segment : SeqNum × Bytes} {seq : SeqNum} {data : Bytes} {cut : ℕ}
    (h : TailOf segment (seq,data)) (hcut : cut ≤ data.length) :
    TailOf segment (seq.advance cut,data.drop cut) := by
  obtain ⟨n,hn,he⟩ := h
  obtain ⟨rfl,rfl⟩ := Prod.mk.inj he
  refine ⟨n+cut,?_,?_⟩
  · rw [List.length_drop] at hcut
    omega
  · rw [SeqNum.advance_advance,List.drop_drop]

namespace Receiver

def Op.segment? : Op → Option (SeqNum × Bytes)
  | .ingest seq data => some (seq,data)
  | _ => none

def segments (ops : List Op) : List (SeqNum × Bytes) := ops.filterMap Op.segment?

/-- Everything that waits is a tail of one of the segments. -/
def Genuine (segs : List (SeqNum × Bytes)) (r : Receiver) : Prop :=
  ∀ key payload, r.pending.get? key = some payload → ∃ s ∈ segs, TailOf s (key,payload)

/-- The chunks lie end to end between the two next positions and come from the segments. -/
structure Hands (segs : List (SeqNum × Bytes)) (r t : Receiver) (events : List Event) : Prop where
  contiguous : LieEndToEnd r.nextSeq (Event.deliveries events) t.nextSeq
  genuine : ∀ c ∈ Event.deliveries events, ∃ s ∈ segs, TailOf s c

variable {segs : List (SeqNum × Bytes)} {seq : SeqNum} {payload data : Bytes} {r s t : Receiver}
  {events es fs : List Event}

theorem Genuine.mono {segs' : List (SeqNum × Bytes)} (h : Genuine segs r) (hs : segs ⊆ segs') :
    Genuine segs' r := by
  intro key payload hk
  obtain ⟨x,hx,ht⟩ := h key payload hk
  exact ⟨x,hs hx,ht⟩

theorem Genuine.without (h : Genuine segs r) (key : SeqNum) (payload : Bytes) :
    Genuine segs (r.without key payload) := by
  intro k p hk
  exact h k p (held_of_without hk)

theorem Filed.genuine {filing : Filing} (h : Filed r seq payload filing t events)
    (hr : Genuine segs r) (hp : ∃ s ∈ segs, TailOf s (seq,payload)) : Genuine segs t := by
  intro key p hk
  rcases h.held_before hk with ⟨rfl,rfl⟩ | hk
  · exact hp
  · exact hr key p hk

theorem Hands.append (h : Hands segs r s es) (h' : Hands segs s t fs) :
    Hands segs r t (es++fs) where
  contiguous := by
    rw [Event.deliveries_append]
    exact h.contiguous.append h'.contiguous
  genuine := by
    intro c hc
    rw [Event.deliveries_append] at hc
    rcases List.mem_append.mp hc with hc | hc
    · exact h.genuine c hc
    · exact h'.genuine c hc

theorem hands_nothing (hn : t.nextSeq = r.nextSeq) (hd : Event.deliveries events = []) :
    Hands segs r t events where
  contiguous := by rw [hd]; exact hn.symm
  genuine := by simp [hd]

theorem hands_deliver (hd : data ≠ []) (hs : ∃ s ∈ segs, TailOf s (r.nextSeq,data)) :
    Hands segs r (r.deliver data).1 (r.deliver data).2 where
  contiguous := ⟨rfl,hd,rfl⟩
  genuine := by
    intro c hc
    have hc' : c = (r.nextSeq,data) := by simpa [deliver] using hc
    exact hc' ▸ hs

theorem Round.hands (h : Round r t events) (hr : Genuine segs r) (hc : Consistent r) :
    Hands segs r t events ∧ Genuine segs t := by
  cases h with
  | @handOn payload first held =>
    have hdeliver := hands_deliver (r:=r.without r.nextSeq payload) (hc.nonempty held) (hr _ _ held)
    exact ⟨⟨hdeliver.contiguous,hdeliver.genuine⟩,hr.without r.nextSeq payload⟩
  | @refile key payload _ _ es first behind held reaches filed =>
    have hlt := SeqNum.distance_lt_of_reaches behind reaches
    have htail : ∃ s ∈ segs, TailOf s
        (r.nextSeq,payload.drop (SeqNum.distance key r.nextSeq)) := by
      obtain ⟨x,hx,ht⟩ := hr _ _ held
      have hdrop := ht.drop hlt.le
      rw [SeqNum.advance_distance] at hdrop
      exact ⟨x,hx,hdrop⟩
    refine ⟨hands_nothing filed.still.next ?_,filed.genuine (hr.without _ _) htail⟩
    rw [Event.deliveries_cons_of_none rfl,filed.deliveries_eq]
  | discard first behind held ends => exact ⟨hands_nothing rfl rfl,hr.without _ _⟩

theorem Drains.hands (h : Drains r t events) (hr : Genuine segs r) (hc : Consistent r) :
    Hands segs r t events ∧ Genuine segs t := by
  induction h with
  | done => exact ⟨hands_nothing rfl rfl,hr⟩
  | round first rest ih =>
    have ⟨hfirst,hs⟩ := first.hands hr hc
    have ⟨hrest,ht⟩ := ih hs (first.consistent hc)
    exact ⟨hfirst.append hrest,ht⟩

theorem Placed.hands {outcome : Outcome} (h : Placed r seq data outcome t events)
    (hr : Genuine segs r) (hd : data ≠ []) (hs : (seq,data) ∈ segs) :
    Hands segs r t events ∧ Genuine segs t := by
  have hwhole : ∃ s ∈ segs, TailOf s (seq,data) := ⟨_,hs,.refl _⟩
  cases h with
  | behind => exact ⟨hands_nothing rfl rfl,hr⟩
  | covered => exact ⟨hands_nothing rfl rfl,hr⟩
  | cut starts ends long =>
    have htail := (TailOf.refl (seq,data)).drop long.le
    rw [SeqNum.advance_distance] at htail
    have hne := List.drop_eq_nil_iff.not.mpr (not_le.mpr long)
    have hnote : Hands segs r r.countTrimmed
        [.trimmed seq (SeqNum.distance seq r.nextSeq) r.nextSeq] := hands_nothing rfl rfl
    exact ⟨hnote.append (hands_deliver hne ⟨_,hs,htail⟩),hr⟩
  | next starts ends =>
    rw [starts] at hwhole
    exact ⟨hands_deliver hd hwhole,hr⟩
  | @ahead filing s es starts ends filed =>
    have hnext : (s.countFiling filing).nextSeq = r.nextSeq := by
      cases filing <;> exact filed.still.next
    refine ⟨hands_nothing hnext (Placed.deliveries_filed filed),?_⟩
    have hgenuine := filed.genuine hr hwhole
    cases filing <;> exact hgenuine

theorem Ingested.hands {outcome : Outcome} (h : Ingested r seq data outcome t events)
    (hr : Genuine segs r) (hc : Consistent r) (hs : (seq,data) ∈ segs) :
    Hands segs r t events ∧ Genuine segs t := by
  cases h with
  | empty => exact ⟨hands_nothing rfl rfl,hr⟩
  | taken some placed drained =>
    have hcounted : Consistent r.countSegment := hc.congr rfl rfl rfl
    have ⟨hplaced,hg⟩ := placed.hands hr some hs
    have ⟨hdrained,ht⟩ := drained.hands hg (placed.consistent hcounted some)
    have hall := hplaced.append hdrained
    exact ⟨⟨hall.contiguous,hall.genuine⟩,ht⟩

theorem step_genuine (op : Op) (hr : Genuine segs r) (hc : Consistent r) :
    Genuine (segs ++ segments [op]) (r.step op).receiver := by
  have hmono := hr.mono (List.subset_append_left segs (segments [op]))
  cases op with
  | ingest seq data =>
    exact ((ingest_ingested r seq data).hands hmono hc (by simp [segments,Op.segment?])).2
  | reset | setSink | clearSink => exact hmono

theorem run_genuine (ops : List Op) (hr : Genuine segs r) (hc : Consistent r) :
    Genuine (segs ++ segments ops) (r.run ops) := by
  induction ops generalizing r segs with
  | nil => simpa [segments,run] using hr
  | cons op ops ih =>
    have h := ih (step_genuine op hr hc) (step_consistent op hc)
    rwa [List.append_assoc,segments,segments,← List.filterMap_append] at h

/-- After any run, the chunks of one more segment fill the way between the two next positions, each
is the tail of a segment of the run or of this one, and the sink gets them in order. -/
theorem ingest_hands_on_tails (initial : SeqNum) (limits : Limits) (ops : List Op) (seq : SeqNum)
    (data : Bytes) :
    let r := (start initial limits).run ops
    let s := r.step (.ingest seq data)
    LieEndToEnd r.nextSeq (Event.deliveries s.events) s.receiver.nextSeq ∧
      (∀ chunk ∈ Event.deliveries s.events,
        ∃ segment ∈ segments (ops ++ [.ingest seq data]), TailOf segment chunk) ∧
      Event.chunks s.events = Event.handedTo r.sink (Event.deliveries s.events) := by
  intro r s
  have hstart := consistent_start initial limits
  have hnone : Genuine [] (start initial limits) := by simp [Genuine,start]
  have hr : Genuine (segments ops) r := run_genuine ops hnone hstart
  have hc : Consistent r := run_consistent ops hstart
  have hall : segments (ops ++ [.ingest seq data]) = segments ops ++ [(seq,data)] := by
    simp [segments,Op.segment?]
  rw [hall]
  have hi := ingest_ingested r seq data
  have h := (hi.hands (hr.mono (List.subset_append_left _ [(seq,data)])) hc (by simp)).1
  exact ⟨h.contiguous,h.genuine,hi.chunks_eq⟩

/-- Of a waiting payload only the part beyond the next position is handed on. -/
example : Event.deliveries (((start 100 {}).run [.ingest 105 [1,2,3],.reset 104]).step
    (.ingest 104 [9,9])).events = [(104,[9,9]),(106,[2,3])] := by decide +kernel

end Receiver
end Reassembly
