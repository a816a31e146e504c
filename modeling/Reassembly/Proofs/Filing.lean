import Mathlib.Tactic
import Reassembly.Proofs.Pending
import Reassembly.Receiver.Ingest

/-! What filing a payload can do, as relations between the receivers before and after it and the
events in between. The rest of the theory reasons about these and never unfolds the operations
themselves. -/
namespace Reassembly

namespace Event

def delivery? : Event → Option (SeqNum × Bytes)
  | .delivered _ start data => some (start,data)
  | _ => none

def deliveries (events : List Event) : List (SeqNum × Bytes) := events.filterMap delivery?

@[simp] theorem deliveries_nil : deliveries [] = [] := rfl
@[simp] theorem deliveries_append (es fs : List Event) :
    deliveries (es++fs) = deliveries es ++ deliveries fs := List.filterMap_append
@[simp] theorem deliveries_cons_delivered (sink : Option ℕ) (start : SeqNum) (data : Bytes)
    (es : List Event) :
    deliveries (.delivered sink start data::es) = (start,data)::deliveries es := rfl
theorem deliveries_cons_of_none {e : Event} (h : e.delivery? = none) (es : List Event) :
    deliveries (e::es) = deliveries es := List.filterMap_cons_none h

def handedTo (sink : Option ℕ) (data : List (SeqNum × Bytes)) : List (ℕ × Bytes) :=
  match sink with
  | none => []
  | some k => data.map fun c => (k,c.2)

@[simp] theorem handedTo_nil (sink : Option ℕ) : handedTo sink [] = [] := by
  cases sink <;> rfl
@[simp] theorem handedTo_append (sink : Option ℕ) (xs ys : List (SeqNum × Bytes)) :
    handedTo sink (xs++ys) = handedTo sink xs ++ handedTo sink ys := by
  cases sink <;> simp [handedTo]

theorem chunks_eq_nil {es : List Event} (h : deliveries es = []) : chunks es = [] := by
  refine List.filterMap_eq_nil_iff.mpr fun e he => ?_
  have hnone := List.filterMap_eq_nil_iff.mp h e he
  cases e with
  | delivered => simp [delivery?] at hnone
  | _ => rfl

end Event

namespace Receiver

def without (r : Receiver) (key : SeqNum) (payload : Bytes) : Receiver :=
  {r with pending := r.pending.erase key, pendingBytes := r.pendingBytes-payload.length}

@[simp] theorem without_nextSeq (r : Receiver) (key : SeqNum) (payload : Bytes) :
    (r.without key payload).nextSeq = r.nextSeq := rfl
@[simp] theorem without_pending (r : Receiver) (key : SeqNum) (payload : Bytes) :
    (r.without key payload).pending = r.pending.erase key := rfl
@[simp] theorem without_stats (r : Receiver) (key : SeqNum) (payload : Bytes) :
    (r.without key payload).stats = r.stats := rfl

theorem held_of_without {r : Receiver} {key k : SeqNum} {payload p : Bytes}
    (h : (r.without key payload).pending.get? k = some p) : r.pending.get? k = some p := by
  rw [without_pending,Pending.get?_erase] at h
  split at h
  · simp at h
  · exact h

theorem take?_eq_some_iff {r s : Receiver} {key : SeqNum} {payload : Bytes} :
    r.take? key = some (payload,s) ↔
      r.pending.get? key = some payload ∧ s = r.without key payload := by
  simp only [take?,without,Option.map_eq_some_iff,Prod.mk.injEq]
  constructor
  · rintro ⟨p,hp,rfl,rfl⟩; exact ⟨hp,rfl⟩
  · rintro ⟨hp,rfl⟩; exact ⟨payload,hp,rfl,rfl⟩

def countEvicted (r : Receiver) : Receiver :=
  {r with stats := {r.stats with evictions := r.stats.evictions+1}}

/-- The receiver with a payload filed at `seq`, for which `growth` bytes are added. -/
def holding (r : Receiver) (seq : SeqNum) (payload : Bytes) (growth : ℕ) : Receiver :=
  {r with pending := r.pending.insert seq payload, pendingBytes := r.pendingBytes+growth}

structure SameSetup (r t : Receiver) : Prop where
  limits : t.limits = r.limits
  sink : t.sink = r.sink

theorem SameSetup.trans {r s t : Receiver} (h : SameSetup r s) (h' : SameSetup s t) :
    SameSetup r t := ⟨h'.limits.trans h.limits,h'.sink.trans h.sink⟩

/-- Nothing was handed on or moved either. -/
structure Still (r t : Receiver) : Prop extends SameSetup r t where
  next : t.nextSeq = r.nextSeq
  handed : t.stats.bytesDelivered = r.stats.bytesDelivered

theorem Still.refl (r : Receiver) : Still r r := ⟨⟨rfl,rfl⟩,rfl,rfl⟩

theorem Still.trans {r s t : Receiver} (h : Still r s) (h' : Still s t) : Still r t :=
  ⟨h.toSameSetup.trans h'.toSameSetup,h'.next.trans h.next,h'.handed.trans h.handed⟩

theorem bounded_of_not_fits {r : Receiver} {growth entries : ℕ}
    (h : ¬r.fits growth entries = true) : r.limits.isBounded = true := by
  by_contra hb
  obtain ⟨hs,hm⟩ : r.limits.maxSegments = none ∧ r.limits.maxBytes = none := by
    simpa [Limits.isBounded] using hb
  simp [fits,fitsAfterFreeing,hs,hm] at h

/-- Giving up payloads that lie further ahead than `seq`, as happens under caps only. -/
inductive Sheds (seq : SeqNum) : Receiver → Receiver → List Event → Prop
  | done (r) : Sheds seq r r []
  | evict {r t key payload events} (capped : r.limits.isBounded = true)
      (further : r.rank seq < r.rank key)
      (held : r.pending.get? key = some payload)
      (rest : Sheds seq (r.without key payload).countEvicted t events) :
      Sheds seq r t (.evicted key payload.length::events)

namespace Sheds

variable {seq : SeqNum} {r t : Receiver} {events : List Event}

theorem still (h : Sheds seq r t events) : Still r t := by
  induction h with
  | done r => exact .refl r
  | evict _ _ _ _ ih => exact ⟨⟨ih.limits,ih.sink⟩,ih.next,ih.handed⟩

theorem deliveries_eq (h : Sheds seq r t events) : Event.deliveries events = [] := by
  induction h with
  | done r => rfl
  | evict _ _ _ _ ih => rw [Event.deliveries_cons_of_none rfl,ih]

theorem held_before (h : Sheds seq r t events) {key : SeqNum} {payload : Bytes}
    (hk : t.pending.get? key = some payload) : r.pending.get? key = some payload := by
  induction h with
  | done r => exact hk
  | @evict r t k p events capped further held rest ih =>
    exact @held_of_without r k key p payload (ih hk)

theorem get?_eq (h : Sheds seq r t events) {key : SeqNum} (hk : r.rank key ≤ r.rank seq) :
    t.pending.get? key = r.pending.get? key := by
  induction h with
  | done r => rfl
  | @evict r t k payload events capped further held rest ih =>
    have hne : key ≠ k := fun heq => Nat.not_le.mpr further (heq ▸ hk)
    rw [ih hk]
    simp [countEvicted,hne]

end Sheds

theorem evictUntilFits_sheds (r : Receiver) (seq : SeqNum) (growth entries : ℕ) :
    Sheds seq r (r.evictUntilFits seq growth entries).2.1
        (r.evictUntilFits seq growth entries).2.2 ∧
      ((r.evictUntilFits seq growth entries).1 = true →
        (r.evictUntilFits seq growth entries).2.1.fits growth entries = true) := by
  fun_induction evictUntilFits r seq growth entries with
  | case1 r hfits => exact ⟨.done r,fun _ => hfits⟩
  | case2 r => exact ⟨.done r,by simp⟩
  | case3 r => exact ⟨.done r,by simp⟩
  | case4 r => exact ⟨.done r,by simp⟩
  | case5 r hfits key hkey hfurther payload s hs s' ok t events he ih =>
    obtain ⟨hheld,rfl⟩ := take?_eq_some_iff.mp hs
    rw [he] at ih
    exact ⟨.evict (bounded_of_not_fits hfits) (not_le.mp hfurther) hheld ih.1,ih.2⟩

theorem makeRoom_sheds (r : Receiver) (seq : SeqNum) (len growth entries : ℕ) :
    Sheds seq r (r.makeRoom seq len growth entries).2.1 (r.makeRoom seq len growth entries).2.2 ∧
      ((r.makeRoom seq len growth entries).1 = true →
        (r.makeRoom seq len growth entries).2.1.fits growth entries = true) := by
  have he := evictUntilFits_sheds r seq growth entries
  rw [makeRoom]
  split
  · rename_i hfits
    exact ⟨.done r,fun _ => hfits⟩
  · split
    · exact ⟨.done r,by simp⟩
    · split
      · exact ⟨.done r,by simp⟩
      · dsimp only
        split
        · exact he
        · exact ⟨.done r,by simp⟩

theorem bounded_of_no_room {r : Receiver} {seq : SeqNum} {len growth entries : ℕ}
    (h : (r.makeRoom seq len growth entries).1 = false) : r.limits.isBounded = true := by
  rw [makeRoom] at h
  split at h
  · simp at h
  · rename_i hfits
    exact bounded_of_not_fits hfits

/-- Filing a payload at `seq`: it is not longer than what waits there, no room could be made under
the caps, or room was made and it now waits there. -/
inductive Filed (r : Receiver) (seq : SeqNum) (payload : Bytes) :
    Filing → Receiver → List Event → Prop
  | kept {held} (waits : r.pending.get? seq = some held) (short : payload.length ≤ held.length) :
      Filed r seq payload .kept r []
  | rejected {s events} (capped : r.limits.isBounded = true) (shed : Sheds seq r s events) :
      Filed r seq payload .rejected s events
  | inserted {s events} (free : r.pending.get? seq = none) (shed : Sheds seq r s events)
      (fits : s.fits payload.length 1 = true) :
      Filed r seq payload .inserted (s.holding seq payload payload.length) events
  | replaced {held s events} (waits : r.pending.get? seq = some held)
      (long : held.length < payload.length) (shed : Sheds seq r s events)
      (fits : s.fits (payload.length-held.length) 0 = true) :
      Filed r seq payload .replaced (s.holding seq payload (payload.length-held.length)) events

theorem file_cases (r : Receiver) (seq : SeqNum) (payload : Bytes) (growth entries : ℕ)
    (filing : Filing) :
    (∃ s events, Sheds seq r s events ∧ s.fits growth entries = true ∧
      r.file seq payload growth entries filing = (filing,s.holding seq payload growth,events)) ∨
    ∃ s events, Sheds seq r s events ∧ r.limits.isBounded = true ∧
      r.file seq payload growth entries filing = (.rejected,s,events) := by
  have ⟨hshed,hfits⟩ := makeRoom_sheds r seq payload.length growth entries
  cases hmade : r.makeRoom seq payload.length growth entries with
  | mk ok made =>
    rw [hmade] at hshed hfits
    cases ok with
    | true => exact .inl ⟨made.1,made.2,hshed,hfits rfl,by simp [file,hmade,holding]⟩
    | false =>
      have hcapped := bounded_of_no_room (congrArg Prod.fst hmade)
      exact .inr ⟨made.1,made.2,hshed,hcapped,by simp [file,hmade]⟩

theorem store_filed (r : Receiver) (seq : SeqNum) (payload : Bytes) :
    Filed r seq payload (r.store seq payload).1 (r.store seq payload).2.1
      (r.store seq payload).2.2 := by
  rw [store]
  split
  · rename_i hfree
    rcases file_cases r seq payload payload.length 1 .inserted with
      ⟨s,events,hshed,hfits,he⟩ | ⟨s,events,hshed,hcapped,he⟩
    · rw [he]
      exact .inserted hfree hshed hfits
    · rw [he]
      exact .rejected hcapped hshed
  · rename_i held hwaits
    by_cases hshort : payload.length ≤ held.length
    · rw [if_pos hshort]
      exact .kept hwaits hshort
    · rw [if_neg hshort]
      rcases file_cases r seq payload (payload.length-held.length) 0 .replaced with
        ⟨s,events,hshed,hfits,he⟩ | ⟨s,events,hshed,hcapped,he⟩
      · rw [he]
        exact .replaced hwaits (not_le.mp hshort) hshed hfits
      · rw [he]
        exact .rejected hcapped hshed

namespace Filed

variable {seq : SeqNum} {payload : Bytes} {filing : Filing} {r t : Receiver} {events : List Event}

theorem still (h : Filed r seq payload filing t events) : Still r t := by
  cases h with
  | kept => exact .refl r
  | rejected _ shed => exact shed.still
  | inserted _ shed => exact shed.still.trans ⟨⟨rfl,rfl⟩,rfl,rfl⟩
  | replaced _ _ shed => exact shed.still.trans ⟨⟨rfl,rfl⟩,rfl,rfl⟩

theorem deliveries_eq (h : Filed r seq payload filing t events) : Event.deliveries events = [] := by
  cases h with
  | kept => rfl
  | rejected _ shed => exact shed.deliveries_eq
  | inserted _ shed => exact shed.deliveries_eq
  | replaced _ _ shed => exact shed.deliveries_eq

/-- Filing brings nothing into the store but the payload itself. -/
theorem held_before (h : Filed r seq payload filing t events) {key : SeqNum} {p : Bytes}
    (hk : t.pending.get? key = some p) :
    (key = seq ∧ p = payload) ∨ r.pending.get? key = some p := by
  have put : ∀ {s growth es}, Sheds seq r s es →
      (s.holding seq payload growth).pending.get? key = some p →
      (key = seq ∧ p = payload) ∨ r.pending.get? key = some p := by
    intro s growth es shed hs
    simp only [holding,Pending.get?_insert] at hs
    split at hs
    · rename_i heq
      exact .inl ⟨heq,(Option.some.inj hs).symm⟩
    · exact .inr (shed.held_before hs)
  cases h with
  | kept => exact .inr hk
  | rejected _ shed => exact .inr (shed.held_before hk)
  | inserted _ shed => exact put shed hk
  | replaced _ _ shed => exact put shed hk

theorem get?_eq (h : Filed r seq payload filing t events) {key : SeqNum}
    (hk : r.rank key < r.rank seq) : t.pending.get? key = r.pending.get? key := by
  have hne : key ≠ seq := by
    rintro rfl
    exact Nat.lt_irrefl _ hk
  cases h with
  | kept => rfl
  | rejected _ shed => exact shed.get?_eq (Nat.le_of_lt hk)
  | inserted _ shed | replaced _ _ shed =>
    simpa [holding,hne] using shed.get?_eq (Nat.le_of_lt hk)

end Filed

end Receiver
end Reassembly
