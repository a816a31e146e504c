import Reassembly.Proofs.Duplicates
import Reassembly.Proofs.Refusal

/-! The verdict on a segment shorter than half the circle, by its distance ahead of the next
position. At the next position it is handed on whole; behind it, it is cut where it reaches beyond
it; and ahead of it, if it ends within half the circle, it waits unless as much waits there already
or the caps leave no room. -/
namespace Reassembly
namespace SeqNum

theorem distance_swap {a b : SeqNum} (h : 0 < distance a b) :
    distance b a = 2^32-distance a b := by
  have ha := a.toNat_lt
  have hb := b.toNat_lt
  rw [distance_eq] at h ⊢
  rw [distance_eq]
  omega

end SeqNum

namespace Receiver

variable {r : Receiver} {seq : SeqNum} {data : Bytes} {chunk : SeqNum × Bytes}

theorem deliverOrStore_of_eq {trimmed : Bool} (h : seq = r.nextSeq) :
    r.deliverOrStore seq data trimmed = (.delivered trimmed,r.deliver data) := by
  rw [deliverOrStore,if_pos h]

theorem place_of_next (hl : data.length < 2^31) :
    r.place r.nextSeq data = (.delivered false,r.deliver data) := by
  rw [place,if_neg (SeqNum.compare_advance_self_ne_before _ hl),if_neg (by simp),
    deliverOrStore_of_eq rfl]

theorem place_of_covered (hstarts : SeqNum.compare seq r.nextSeq = .before)
    (hle : data.length ≤ SeqNum.distance seq r.nextSeq) :
    (r.place seq data).1 = .duplicate := by
  rcases Nat.lt_or_eq_of_le hle with hlt | heq
  · rw [place,if_pos (SeqNum.compare_of_lt_distance hstarts hlt)]
  · have hstops : seq.advance data.length = r.nextSeq := by rw [heq,SeqNum.advance_distance]
    have hrest : (data.drop (SeqNum.distance seq r.nextSeq)).isEmpty = true := by simp [heq]
    rw [place,if_neg (by simp [hstops]),if_pos hstarts]
    dsimp only
    rw [if_pos hrest]

theorem place_of_reaching (hl : data.length < 2^31)
    (hstarts : SeqNum.compare seq r.nextSeq = .before)
    (hlt : SeqNum.distance seq r.nextSeq < data.length) :
    (r.place seq data).1 = .delivered true ∧ Event.deliveries (r.place seq data).2.2 =
      [(r.nextSeq,data.drop (SeqNum.distance seq r.nextSeq))] := by
  have hstops := (SeqNum.reaches_iff (by simp [hstarts]) hl).mpr hlt
  have hrest : ¬(data.drop (SeqNum.distance seq r.nextSeq)).isEmpty = true := by simpa using hlt
  have hnext : r.nextSeq = r.countTrimmed.nextSeq := rfl
  rw [place,if_neg (by simp [hstops]),if_pos hstarts]
  dsimp only
  rw [if_neg hrest,deliverOrStore_of_eq hnext]
  exact ⟨rfl,rfl⟩

theorem ingest_fst (hd : data ≠ []) :
    (r.ingest seq data).1 = (r.countSegment.place seq data).1 := by
  rw [ingest,if_neg (by simpa using hd)]

theorem head?_deliveries_ingest (hd : data ≠ [])
    (h : Event.deliveries (r.countSegment.place seq data).2.2 = [chunk]) :
    (Event.deliveries (r.ingest seq data).2.2).head? = some chunk := by
  rw [ingest,if_neg (by simpa using hd)]
  dsimp only
  rw [Event.deliveries_append,h,List.singleton_append,List.head?_cons]

theorem hasRoom_countSegment : r.countSegment.HasRoom seq data ↔ r.HasRoom seq data := by
  have henough : (r.countSegment.giveUp (r.countSegment.furthestFirst seq)).fits
      (r.growth seq data) (r.newEntries seq) =
      (r.giveUp (r.furthestFirst seq)).fits (r.growth seq data) (r.newEntries seq) := by
    rw [(furthestFirst_spec _ seq).fits_giveUp,(furthestFirst_spec _ seq).fits_giveUp]
    rfl
  refine or_congr Iff.rfl ⟨fun h => ⟨h.policy,h.within,?_⟩,fun h => ⟨h.policy,h.within,?_⟩⟩
  · exact henough ▸ h.enough
  · exact henough.trans h.enough

/-- A segment that lies ahead is called a duplicate, filed or dropped, as the payload at its start
and the caps decide. -/
structure FiledAhead (r : Receiver) (seq : SeqNum) (data : Bytes) (outcome : Outcome)
    (t : Receiver) (events : List Event) : Prop where
  silent : Event.deliveries events = []
  duplicate : outcome = .duplicate ↔
    ∃ held, r.pending.get? seq = some held ∧ data.length ≤ held.length
  dropped : outcome = .dropped ↔ r.Wants seq data ∧ ¬r.HasRoom seq data
  otherwise : outcome ≠ .duplicate → outcome ≠ .dropped →
    outcome = .buffered false ∧ t.pending.get? seq = some data

theorem fileAhead_filedAhead (r : Receiver) (seq : SeqNum) (data : Bytes) :
    FiledAhead r seq data (r.fileAhead seq data).1 (r.fileAhead seq data).2.1
      (r.fileAhead seq data).2.2 := by
  have hsilent : Event.deliveries (r.fileAhead seq data).2.2 = [] :=
    Placed.deliveries_filed (store_filed r seq data)
  have hwants : r.Wants seq data ↔
      ¬∃ held, r.pending.get? seq = some held ∧ data.length ≤ held.length := by
    simp [Wants]
  by_cases hw : r.Wants seq data
  · by_cases hroom : r.HasRoom seq data
    · obtain ⟨hverdict,hfiled⟩ := fileAhead_of_hasRoom hw hroom
      refine ⟨hsilent,?_,?_,fun _ _ => ⟨hverdict,hfiled⟩⟩
      · simpa [hverdict] using hwants.mp hw
      · simp [hverdict,hroom]
    · rw [fileAhead_of_not_hasRoom hw hroom]
      exact ⟨rfl,by simpa using hwants.mp hw,by simp [hw,hroom],by simp⟩
  · have hheld := not_not.mp (mt hwants.mpr hw)
    rw [fileAhead_of_not_wants hw]
    exact ⟨rfl,by simpa using hheld,by simp [hw],by simp⟩

/-- After any run that ends undisturbed, the verdict on a segment shorter than half the circle and
its first chunk are those of plain distances, on each side of the next position and at it. -/
theorem verdict_by_distance (initial : SeqNum) (limits : Limits) (ops : List Op)
    (h : Undisturbed ops) (seq : SeqNum) (data : Bytes) (hd : data ≠ [])
    (hl : data.length < 2^31) :
    let r := (start initial limits).run ops
    let taken := r.ingest seq data
    let chunks := Event.deliveries taken.2.2
    let d := SeqNum.distance r.nextSeq seq
    Event.chunks taken.2.2 = Event.handedTo r.sink chunks ∧
      (d = 0 → taken.1 = .delivered false ∧ chunks.head? = some (r.nextSeq,data)) ∧
      (2^31 < d →
        (data.length ≤ 2^32-d → taken.1 = .duplicate) ∧
        (2^32-d < data.length → taken.1 = .delivered true ∧
          chunks.head? = some (r.nextSeq,data.drop (2^32-d)))) ∧
      (1 ≤ d → d+data.length ≤ 2^31 → FiledAhead r seq data taken.1 taken.2.1 taken.2.2) := by
  intro r taken chunks d
  have hr : AtRest r := run_atRest initial limits h
  have hchunks := (ingest_ingested r seq data).chunks_eq
  have hfst : taken.1 = (r.countSegment.place seq data).1 := ingest_fst hd
  refine ⟨hchunks,fun hzero => ?_,fun hbehind => ?_,fun hpos hend => ?_⟩
  · have hseq : r.countSegment.nextSeq = seq := SeqNum.distance_eq_zero.mp hzero
    have hplace := place_of_next (r := r.countSegment) hl
    rw [hseq] at hplace
    refine ⟨by rw [hfst,hplace],head?_deliveries_ingest hd ?_⟩
    rw [hplace]
    rfl
  · have hcovered : SeqNum.distance seq r.nextSeq = 2^32-d := SeqNum.distance_swap (by omega)
    have hlt : d < 2^32 := (seq-r.nextSeq).toNat_lt
    have hstarts : SeqNum.compare seq r.countSegment.nextSeq = .before :=
      SeqNum.compare_eq_before.mpr (hcovered ▸ ⟨by omega,by omega⟩)
    refine ⟨fun hle => ?_,fun hreach => ?_⟩
    · rw [hfst]
      exact place_of_covered hstarts (hcovered ▸ hle)
    · have ⟨hverdict,hchunk⟩ := place_of_reaching hl hstarts (hcovered ▸ hreach)
      refine ⟨hfst.trans hverdict,?_⟩
      rw [← hcovered]
      exact head?_deliveries_ingest hd hchunk
  · have hfile : taken = r.countSegment.fileAhead seq data := ingest_of_ahead hr hd hpos hend
    have hfiled := fileAhead_filedAhead r.countSegment seq data
    rw [hfile]
    exact ⟨hfiled.silent,hfiled.duplicate,
      hfiled.dropped.trans (and_congr Iff.rfl (not_congr hasRoom_countSegment)),hfiled.otherwise⟩

/-- At the next position, reaching back two bytes behind it, and ahead where there is no room. -/
theorem verdicts_in_refilled :
    Undisturbed refilled ∧ ((start 7 brimLimits).run refilled).nextSeq = 0xfffffffd ∧
      (((start 7 brimLimits).run refilled).ingest 0xfffffffd [5,6]).1 = .delivered false ∧
      (((start 7 brimLimits).run refilled).ingest 0xfffffffb [5,6]).1 = .duplicate ∧
      (((start 7 brimLimits).run refilled).ingest 0xfffffffb [5,6,7]).1 = .delivered true ∧
      (Event.deliveries (((start 7 brimLimits).run refilled).ingest 0xfffffffb [5,6,7]).2.2).head? =
        some (0xfffffffd,[7]) ∧
      ¬((start 7 brimLimits).run refilled).HasRoom 5 [7,8,9,10] := by
  have h : Undisturbed refilled := by decide
  have hnext : ((start 7 brimLimits).run refilled).nextSeq = 0xfffffffd := by decide +kernel
  have hat := (verdict_by_distance 7 brimLimits refilled h 0xfffffffd [5,6] (by decide)
    (by decide)).2.1
  have hback := (verdict_by_distance 7 brimLimits refilled h 0xfffffffb [5,6] (by decide)
    (by decide)).2.2.1
  have hover := (verdict_by_distance 7 brimLimits refilled h 0xfffffffb [5,6,7] (by decide)
    (by decide)).2.2.1
  have hahead := (verdict_by_distance 7 brimLimits refilled h 5 [7,8,9,10] (by decide)
    (by decide)).2.2.2
  have hdrop : (((start 7 brimLimits).run refilled).ingest 5 [7,8,9,10]).1 = .dropped := by
    decide +kernel
  rw [hnext] at hat hback hover hahead
  have hover' := (hover (by decide)).2 (by decide)
  exact ⟨h,hnext,(hat (by decide)).1,(hback (by decide)).1 (by decide),hover'.1,hover'.2,
    ((hahead (by decide) (by decide)).dropped.mp hdrop).2⟩

end Receiver
end Reassembly
