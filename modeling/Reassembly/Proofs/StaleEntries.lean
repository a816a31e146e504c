import Reassembly.Proofs.DrainCoverage
import Reassembly.Proofs.Refusal

/-! What stale payloads cost. A move of the next position can leave payloads behind it that have no
byte ahead of it. They count against the caps until the next segment is taken in, and that segment
is placed before they are discarded; so that it can be dropped, or cost what waits further ahead,
for want of room that is there once the same call is over. Without a move since data was last taken
in there are no such payloads, and only the caps themselves cost data. -/
namespace Reassembly
namespace Receiver

/-- A payload waits at `key` that reaches no further than the next position. -/
structure Stale (r : Receiver) (key : SeqNum) (payload : Bytes) : Prop where
  held : r.pending.get? key = some payload
  behind : SeqNum.compare key r.nextSeq = .before
  short : payload.length ≤ SeqNum.distance key r.nextSeq

def isStale (r : Receiver) (key : SeqNum) : Bool :=
  SeqNum.compare key r.nextSeq = .before &&
    (r.pending.get? key).any (·.length ≤ SeqNum.distance key r.nextSeq)

def sweep (r : Receiver) : Receiver :=
  let fresh := r.pending.keep (!r.isStale ·)
  {r with pending := fresh, pendingBytes := fresh.bytes}

/-- There is room for the payload with everything that waits. -/
def FitsBeside (r : Receiver) (seq : SeqNum) (payload : Bytes) : Prop :=
  r.fits (r.growth seq payload) (r.newEntries seq) = true

/-- The segment lies ahead, and what waits at its start is shorter. -/
structure SeeksRoom (r : Receiver) (seq : SeqNum) (data : Bytes) : Prop where
  starts : SeqNum.compare seq r.nextSeq = .after
  ends : SeqNum.compare (seq.advance data.length) r.nextSeq ≠ .before
  wants : r.Wants seq data

/-- Data is lost: the segment is dropped, or payloads that waited are given up. -/
def Costs (r : Receiver) (outcome : Outcome) (t : Receiver) : Prop :=
  outcome = .dropped ∨ r.stats.evictions < t.stats.evictions

variable {r t : Receiver} {seq key : SeqNum} {payload data : Bytes} {outcome : Outcome}
  {events : List Event}

theorem isStale_iff : r.isStale key = true ↔ ∃ payload, r.Stale key payload := by
  rw [isStale,Bool.and_eq_true,decide_eq_true_eq,Option.any_eq_true]
  constructor
  · rintro ⟨hbehind,payload,hheld,hle⟩
    exact ⟨payload,hheld,hbehind,of_decide_eq_true hle⟩
  · rintro ⟨payload,h⟩
    exact ⟨h.behind,payload,h.held,decide_eq_true h.short⟩

theorem Stale.of_eq (h : r.Stale key payload) (hnext : t.nextSeq = r.nextSeq)
    (hheld : t.pending.get? key = r.pending.get? key) : t.Stale key payload :=
  ⟨hheld.trans h.held,hnext ▸ h.behind,hnext ▸ h.short⟩

theorem Stale.ends (h : r.Stale key payload) :
    SeqNum.compare (key.advance payload.length) r.nextSeq ≠ .after := by
  rcases Nat.lt_or_eq_of_le h.short with hlt | heq
  · simp [SeqNum.compare_of_lt_distance h.behind hlt]
  · simp [heq,SeqNum.advance_distance]

theorem AtRest.not_stale (hr : AtRest r) : ¬r.Stale key payload := by
  intro h
  have hahead := hr _ _ h.held
  rw [h.behind] at hahead
  cases hahead

theorem Consistent.sweep_eq (hr : Consistent r) (h : ∀ key payload, ¬r.Stale key payload) :
    r.sweep = r := by
  have hall : r.pending.keep (!r.isStale ·) = r.pending := by
    refine Pending.eq_of_get? fun key => ?_
    have hfresh : r.isStale key = false := by
      rw [← Bool.not_eq_true,isStale_iff]
      exact fun ⟨payload,hstale⟩ => h key payload hstale
    simp [hfresh]
  rw [sweep,hall,← hr.counted]

theorem store_evicts (hw : r.Wants seq data) (hfits : ¬r.FitsBeside seq data)
    (hroom : r.HasRoom seq data) :
    r.stats.evictions < (r.store seq data).2.1.stats.evictions := by
  obtain ⟨filing,_,hstore⟩ := store_of_wants hw
  have hmay := hroom.resolve_left hfits
  obtain ⟨m,hm,hrun,hnow,_⟩ := (furthestFirst_spec r seq).evictUntilFits_eq hmay.enough
  have hpos : 0 < m := by
    rcases Nat.eq_zero_or_pos m with rfl | hpos
    · exact absurd hnow hfits
    · exact hpos
  rw [hstore,file,makeRoom_of_mayEvict hfits hmay,hrun]
  change r.stats.evictions < (r.giveUp ((r.furthestFirst seq).take m)).stats.evictions
  rw [giveUp_evictions,List.length_take_of_le hm]
  omega

theorem fileAhead_costs_iff : Costs r (r.fileAhead seq data).1 (r.fileAhead seq data).2.1 ↔
    r.Wants seq data ∧ ¬r.FitsBeside seq data := by
  by_cases hw : r.Wants seq data
  · by_cases hfits : r.FitsBeside seq data
    · obtain ⟨filing,hfiling,hstore⟩ := store_of_wants hw
      rw [fileAhead,hstore,file_of_fits hfits]
      rcases hfiling with rfl | rfl <;> simp [Costs,Filing.outcome,holding,hfits]
    · by_cases hroom : r.HasRoom seq data
      · have hgrown := store_evicts hw hfits hroom
        simp [Costs,fileAhead,hgrown,hw,hfits]
      · rw [fileAhead_of_not_hasRoom hw hroom]
        simp [Costs,hw,hfits]
  · rw [fileAhead_of_not_wants hw]
    simp [Costs,countDuplicate,hw]

theorem Placed.not_costs (h : Placed r seq data outcome t events)
    (hahead : ¬(SeqNum.compare seq r.nextSeq = .after ∧
      SeqNum.compare (seq.advance data.length) r.nextSeq ≠ .before)) : ¬Costs r outcome t := by
  cases h with
  | behind | covered | cut | next => simp [Costs,countDuplicate,countTrimmed,deliver]
  | ahead starts ends => exact absurd ⟨starts,ends⟩ hahead

theorem place_costs_iff : Costs r (r.place seq data).1 (r.place seq data).2.1 ↔
    r.SeeksRoom seq data ∧ ¬r.FitsBeside seq data := by
  by_cases hahead : SeqNum.compare seq r.nextSeq = .after ∧
      SeqNum.compare (seq.advance data.length) r.nextSeq ≠ .before
  · rw [place_eq_fileAhead hahead.1 hahead.2,fileAhead_costs_iff]
    exact and_congr_left fun _ => ⟨fun hw => ⟨hahead.1,hahead.2,hw⟩,SeeksRoom.wants⟩
  · have hfree := (place_placed r seq data).not_costs hahead
    exact iff_of_false hfree fun h => hahead ⟨h.1.starts,h.1.ends⟩

/-- Draining costs nothing, so that the cost is that of placing the segment. -/
theorem ingest_costs_iff (hr : Consistent r) : Costs r (r.ingest seq data).1
    (r.ingest seq data).2.1 ↔ data ≠ [] ∧ r.SeeksRoom seq data ∧ ¬r.FitsBeside seq data := by
  by_cases hd : data = []
  · simp [ingest,hd,Costs]
  · have hcounted : Consistent r.countSegment := hr.congr rfl rfl rfl
    have hplaced := (place_placed r.countSegment seq data).consistent hcounted hd
    have hdrain := hplaced.drain_freely.evictions_eq
    have hseeks : r.countSegment.SeeksRoom seq data ↔ r.SeeksRoom seq data :=
      ⟨fun h => ⟨h.starts,h.ends,h.wants⟩,fun h => ⟨h.starts,h.ends,h.wants⟩⟩
    have hplace : Costs r (r.countSegment.place seq data).1 (r.countSegment.place seq data).2.1 ↔
        r.SeeksRoom seq data ∧ ¬r.FitsBeside seq data :=
      place_costs_iff.trans (and_congr_left fun _ => hseeks)
    rw [ingest,if_neg (by simpa using hd),Costs,hdrain]
    exact hplace.trans (and_iff_right hd).symm

theorem rank_lt_of_behind (hkey : SeqNum.compare key r.nextSeq = .before)
    (hseq : SeqNum.compare seq r.nextSeq = .after) : r.rank key < r.rank seq := by
  rw [compare_eq_rank] at hkey hseq
  grind

theorem Stale.fileAhead (h : r.Stale key payload) (hseq : SeqNum.compare seq r.nextSeq = .after) :
    (r.fileAhead seq data).2.1.Stale key payload := by
  refine h.of_eq (fileAhead_nextSeq r seq data) ?_
  rw [fileAhead_pending]
  exact (store_filed r seq data).get?_eq (rank_lt_of_behind h.behind hseq)

/-- No payload is handed on while one is stale. -/
theorem Stale.first_ne_next (h : r.Stale key payload) : r.firstKey? ≠ some r.nextSeq := by
  intro hfirst
  have hle : r.rank r.nextSeq ≤ r.rank key :=
    (Pending.firstFrom?_eq_some hfirst).2 key payload h.held
  have hnext : SeqNum.compare r.nextSeq r.nextSeq = .equal := SeqNum.compare_self _
  have hbehind := h.behind
  rw [compare_eq_rank] at hnext hbehind
  grind

theorem Stale.without {k : SeqNum} (h : r.Stale key payload) (hne : key ≠ k) (p : Bytes) :
    (r.without k p).Stale key payload :=
  h.of_eq rfl (by simp [hne])

theorem Stale.ne_of_reaches {k : SeqNum} {p : Bytes} (h : r.Stale key payload)
    (held : r.pending.get? k = some p)
    (reaches : SeqNum.compare (k.advance p.length) r.nextSeq = .after) : key ≠ k := by
  rintro rfl
  obtain rfl : payload = p := Option.some.inj (h.held.symm.trans held)
  exact h.ends reaches

theorem FreeRound.discards (h : FreeRound r t events) (hstale : r.Stale key payload) :
    Event.stale key payload.length ∈ events ∨ t.Stale key payload := by
  cases h with
  | handOn first => exact absurd first hstale.first_ne_next
  | @discard k p _ _ held =>
    by_cases hk : key = k
    · subst hk
      obtain rfl : payload = p := Option.some.inj (hstale.held.symm.trans held)
      exact .inl List.mem_cons_self
    · exact .inr (hstale.without hk p)
  | absorb _ _ held reaches => exact .inr (hstale.without (hstale.ne_of_reaches held reaches) _)
  | @refile k p _ _ _ held reaches =>
    have hnext := ne_next_of_behind hstale.behind
    have hleft := hstale.without (hstale.ne_of_reaches held reaches) p
    exact .inr (hleft.of_eq rfl (by simp [holding,hnext]))

theorem FreelyDrains.discards (h : FreelyDrains r t events) (hstale : r.Stale key payload) :
    Event.stale key payload.length ∈ events := by
  induction h with
  | done _ rest =>
    have hahead := drainRound?_eq_none rest hstale.held
    rw [hstale.behind] at hahead
    cases hahead
  | round _ first _ ih =>
    rcases first.discards hstale with hmem | hleft
    · exact List.mem_append_left _ hmem
    · exact List.mem_append_right _ (ih hleft)

/-- The call that takes in a segment ahead discards all that was stale before it. -/
theorem ingest_discards (hr : Consistent r) (hd : data ≠ [])
    (hseq : SeqNum.compare seq r.nextSeq = .after)
    (hends : SeqNum.compare (seq.advance data.length) r.nextSeq ≠ .before)
    (hstale : r.Stale key payload) :
    Event.stale key payload.length ∈ (r.ingest seq data).2.2 := by
  have hcounted : Consistent r.countSegment := hr.congr rfl rfl rfl
  have hplaced := (place_placed r.countSegment seq data).consistent hcounted hd
  have hleft : (r.countSegment.place seq data).2.1.Stale key payload := by
    rw [place_eq_fileAhead (r:=r.countSegment) hseq hends]
    exact (hstale.of_eq (t:=r.countSegment) rfl rfl).fileAhead hseq
  rw [ingest,if_neg (by simpa using hd)]
  exact List.mem_append_right _ (hplaced.drain_freely.discards hleft)

/-- After any run, a segment costs data exactly if it lies ahead, is longer than what waits at its
start, and does not fit beside all that waits. It would then not have fitted without the stale
payloads either, unless there are such; those the same call discards. A run that ends undisturbed
leaves none. -/
theorem costs_unless_stale (initial : SeqNum) (limits : Limits) (ops : List Op) (seq : SeqNum)
    (data : Bytes) :
    let r := (start initial limits).run ops
    let taken := r.ingest seq data
    (Costs r taken.1 taken.2.1 ↔
        data ≠ [] ∧ r.SeeksRoom seq data ∧ ¬r.FitsBeside seq data) ∧
      (Costs r taken.1 taken.2.1 → (∀ key payload, ¬r.Stale key payload) →
        ¬r.sweep.FitsBeside seq data) ∧
      (Costs r taken.1 taken.2.1 → ∀ key payload, r.Stale key payload →
        Event.stale key payload.length ∈ taken.2.2) ∧
      (Undisturbed ops → ∀ key payload, ¬r.Stale key payload) := by
  intro r taken
  have hr : Consistent r := run_consistent ops (consistent_start initial limits)
  have hcosts : Costs r taken.1 taken.2.1 ↔
      data ≠ [] ∧ r.SeeksRoom seq data ∧ ¬r.FitsBeside seq data := ingest_costs_iff hr
  refine ⟨hcosts,fun hc hfresh => ?_,fun hc key payload hstale => ?_,fun h key payload => ?_⟩
  · rw [hr.sweep_eq hfresh]
    exact (hcosts.mp hc).2.2
  · have ⟨hd,hseeks,_⟩ := hcosts.mp hc
    exact ingest_discards hr hd hseeks.starts hseeks.ends hstale
  · exact (run_atRest initial limits h).not_stale

/-- Room for one payload, taken by one that the move of the next position made stale. -/
def bypassed : List Op := [.ingest 10 [1],.reset 100]

theorem discarded_of_bypassed :
    (((start 0 {maxSegments := some 1}).run bypassed).ingest 110 [2]).1 = .dropped ∧
      ¬((start 0 {maxSegments := some 1}).run bypassed).FitsBeside 110 [2] ∧
      Event.stale 10 1 ∈ (((start 0 {maxSegments := some 1}).run bypassed).ingest 110 [2]).2.2 := by
  have hdropped : (((start 0 {maxSegments := some 1}).run bypassed).ingest 110 [2]).1 =
      .dropped := by
    decide +kernel
  have hstale : ((start 0 {maxSegments := some 1}).run bypassed).Stale 10 [1] :=
    ⟨by decide +kernel,by decide +kernel,by decide +kernel⟩
  have ⟨hcosts,_,hdiscards,_⟩ := costs_unless_stale 0 {maxSegments := some 1} bypassed 110 [2]
  exact ⟨hdropped,(hcosts.mp (.inl hdropped)).2.2,hdiscards (.inl hdropped) 10 [1] hstale⟩

theorem stale_costs : ¬∀ (initial : SeqNum) (limits : Limits) (ops : List Op) (seq : SeqNum)
    (data : Bytes),
      let r := (start initial limits).run ops
      let taken := r.ingest seq data
      Costs r taken.1 taken.2.1 → ¬r.sweep.FitsBeside seq data := by
  intro h
  have hdropped : (((start 0 {maxSegments := some 1}).run bypassed).ingest 110 [2]).1 =
      .dropped := by
    decide +kernel
  have hfits : ((start 0 {maxSegments := some 1}).run bypassed).sweep.FitsBeside 110 [2] := by
    rw [FitsBeside]
    decide +kernel
  exact h 0 {maxSegments := some 1} bypassed 110 [2] (.inl hdropped) hfits

/-- What waits at 300 is given up for the segment at 200, while what waits at 10 is stale. -/
example :
    let r := (start 0 {maxSegments := some 2, overflow := .evictFurthest}).run
      [.ingest 10 [1],.ingest 300 [3],.reset 100]
    (r.ingest 200 [2]).2.2 = [.evicted 300 1,.stale 10 1] ∧ (r.sweep.ingest 200 [2]).2.2 = [] := by
  decide +kernel

end Receiver
end Reassembly
