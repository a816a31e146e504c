import Reassembly.Proofs.Ingesting

/-! The store of a receiver stays consistent: the byte counter is exact, nothing empty waits, and
the caps are kept, whatever is taken in and however the next position is moved. -/
namespace Reassembly
namespace Receiver

structure Consistent (r : Receiver) : Prop where
  counted : r.pendingBytes = r.pending.bytes
  nonempty : ∀ {key payload}, r.pending.get? key = some payload → payload ≠ []
  segments : ∀ {max}, r.limits.maxSegments = some max → r.pending.size ≤ max
  bytes : ∀ {max}, r.limits.maxBytes = some max → r.pendingBytes ≤ max

theorem consistent_start (initial : SeqNum) (limits : Limits) :
    Consistent (start initial limits) where
  counted := rfl
  nonempty := by simp [start]
  segments := by simp [start]
  bytes := by simp [start]

theorem fits_iff {r : Receiver} {growth entries : ℕ} :
    r.fits growth entries = true ↔
      (∀ max, r.limits.maxSegments = some max → r.pending.size+entries ≤ max) ∧
      ∀ max, r.limits.maxBytes = some max → r.pendingBytes+growth ≤ max := by
  simp only [fits,fitsAfterFreeing,Nat.sub_zero,Bool.and_eq_true]
  cases r.limits.maxSegments <;> cases r.limits.maxBytes <;> simp

namespace Consistent

variable {r : Receiver} {key : SeqNum} {payload : Bytes}

theorem congr {t : Receiver} (h : Consistent r) (hp : t.pending = r.pending)
    (hb : t.pendingBytes = r.pendingBytes) (hl : t.limits = r.limits) : Consistent t where
  counted := by rw [hp,hb]; exact h.counted
  nonempty := by rw [hp]; exact h.nonempty
  segments := by rw [hp,hl]; exact h.segments
  bytes := by rw [hb,hl]; exact h.bytes

theorem without (h : Consistent r) (hk : r.pending.get? key = some payload) :
    Consistent (r.without key payload) := by
  have hbytes := Pending.bytes_eq_of_get? hk
  have hsize := Pending.size_eq_of_get? hk
  have hcounted := h.counted
  refine ⟨?_,fun hp => h.nonempty (held_of_without hp),fun hmax => ?_,fun hmax => ?_⟩
  · simp only [Receiver.without]
    omega
  · have hle := h.segments hmax
    simp only [without_pending]
    omega
  · have hle := h.bytes hmax
    simp only [Receiver.without]
    omega

/-- A payload may be filed wherever it fits, if what it replaces is taken off its growth. -/
theorem holding (h : Consistent r) {growth entries : ℕ} (hp : payload ≠ [])
    (hsize : (r.pending.erase key).size+1 = r.pending.size+entries)
    (hbytes : payload.length+(r.pending.erase key).bytes = r.pending.bytes+growth)
    (hfits : r.fits growth entries = true) : Consistent (r.holding key payload growth) := by
  have ⟨hsegments,hlimit⟩ := fits_iff.mp hfits
  have hcounted := h.counted
  refine ⟨?_,fun {k p} hk => ?_,fun hmax => ?_,fun hmax => hlimit _ hmax⟩
  · simp only [Receiver.holding,Pending.bytes_insert]
    omega
  · simp only [Receiver.holding,Pending.get?_insert] at hk
    split at hk
    · exact Option.some.inj hk ▸ hp
    · exact h.nonempty hk
  · have hle := hsegments _ hmax
    simp only [Receiver.holding,Pending.size_insert]
    omega

end Consistent

variable {seq : SeqNum} {payload data : Bytes} {r t : Receiver} {events : List Event}

theorem Sheds.consistent (h : Sheds seq r t events) (hr : Consistent r) : Consistent t := by
  induction h with
  | done r => exact hr
  | evict _ _ held _ ih => exact ih ((hr.without held).congr rfl rfl rfl)

theorem Filed.consistent {filing : Filing} (h : Filed r seq payload filing t events)
    (hr : Consistent r) (hp : payload ≠ []) : Consistent t := by
  cases h with
  | kept => exact hr
  | rejected _ shed => exact shed.consistent hr
  | inserted free shed fits =>
    have hfree := (shed.get?_eq le_rfl).trans free
    refine (shed.consistent hr).holding hp ?_ ?_ fits
    · rw [Pending.erase_of_get?_eq_none hfree]
    · rw [Pending.erase_of_get?_eq_none hfree,Nat.add_comm]
  | replaced waits long shed fits =>
    have hwaits := (shed.get?_eq le_rfl).trans waits
    have hsize := Pending.size_eq_of_get? hwaits
    have hbytes := Pending.bytes_eq_of_get? hwaits
    exact (shed.consistent hr).holding hp (by omega) (by omega) fits

theorem Round.consistent (h : Round r t events) (hr : Consistent r) : Consistent t := by
  cases h with
  | handOn first held => exact (hr.without held).congr rfl rfl rfl
  | refile first behind held reaches filed =>
    have hlt := SeqNum.distance_lt_of_reaches behind reaches
    exact filed.consistent (hr.without held) (List.drop_eq_nil_iff.not.mpr (not_le.mpr hlt))
  | discard first behind held ends => exact hr.without held

theorem Drains.consistent (h : Drains r t events) (hr : Consistent r) : Consistent t := by
  induction h with
  | done => exact hr
  | round first _ ih => exact ih (first.consistent hr)

theorem Placed.consistent {outcome : Outcome} (h : Placed r seq data outcome t events)
    (hr : Consistent r) (hd : data ≠ []) : Consistent t := by
  cases h with
  | behind => exact hr.congr rfl rfl rfl
  | covered => exact hr.congr rfl rfl rfl
  | cut => exact hr.congr rfl rfl rfl
  | next => exact hr.congr rfl rfl rfl
  | @ahead filing s es starts ends filed =>
    have hs := filed.consistent hr hd
    cases filing <;> exact hs.congr rfl rfl rfl

theorem Ingested.consistent {outcome : Outcome} (h : Ingested r seq data outcome t events)
    (hr : Consistent r) : Consistent t := by
  cases h with
  | empty => exact hr
  | taken some placed drained =>
    exact drained.consistent (placed.consistent (hr.congr rfl rfl rfl) some)

theorem step_consistent (op : Op) (hr : Consistent r) : Consistent (r.step op).receiver := by
  cases op with
  | ingest seq data => exact (ingest_ingested r seq data).consistent hr
  | reset seq => exact hr.congr rfl rfl rfl
  | setSink sink => exact hr.congr rfl rfl rfl
  | clearSink => exact hr.congr rfl rfl rfl

theorem run_consistent (ops : List Op) (hr : Consistent r) : Consistent (r.run ops) := by
  induction ops generalizing r with
  | nil => exact hr
  | cons op ops ih => exact ih (step_consistent op hr)

/-- After any run from the start the counter is the sum of what waits, nothing empty waits, and
neither cap is exceeded. -/
theorem run_keeps_counter_and_caps (initial : SeqNum) (limits : Limits) (ops : List Op) :
    let r := (start initial limits).run ops
    r.pendingBytes = (r.pending.entries.map (·.2.length)).sum ∧
      (∀ e ∈ r.pending.entries, e.2 ≠ []) ∧
      (∀ max, limits.maxSegments = some max → r.pending.entries.length ≤ max) ∧
      ∀ max, limits.maxBytes = some max → r.pendingBytes ≤ max := by
  intro r
  have hr : Consistent r := run_consistent ops (consistent_start initial limits)
  have hl : r.limits = limits := run_limits _ ops
  refine ⟨hr.counted.trans r.pending.bytes_eq_sum,fun e he => ?_,fun max hmax => ?_,fun max hmax => ?_⟩
  · exact hr.nonempty (Pending.get?_eq_some_iff.mpr he)
  · exact hr.segments (hl ▸ hmax)
  · exact hr.bytes (hl ▸ hmax)

/-- Segments of which two are given up for one that is nearer, with a move past its start. -/
def crowd : List Op :=
  [.ingest 9 [1,2],.ingest 6 [3,4,5],.ingest 2 [6,7,8,9],.reset 3,.ingest 4 [0],.ingest 8 [0,0]]

def tightLimits : Limits := {maxSegments := some 2, maxBytes := some 5, overflow := .evictFurthest}

theorem counter_and_caps_of_crowd :
    ((start 0xfffffffe tightLimits).run crowd).stats.evictions = 2 ∧
      ((start 0xfffffffe tightLimits).run crowd).pending.entries.length ≤ 2 ∧
      ((start 0xfffffffe tightLimits).run crowd).pendingBytes ≤ 5 := by
  have ⟨_,_,hsegments,hbytes⟩ := run_keeps_counter_and_caps 0xfffffffe tightLimits crowd
  exact ⟨by decide +kernel,hsegments 2 rfl,hbytes 5 rfl⟩

end Receiver
end Reassembly
