import Reassembly.Proofs.Pending

/-! The payloads of a store that start nearest ahead of a position, and when another store holds
just these: nothing is missing from it as long as there is room, and otherwise all that is missing
lies beyond all that it holds. This is kept when a payload comes to both stores and, for want of
room in the one, the furthest gives way or the newcomer is refused. -/
namespace Reassembly
namespace Pending

/-- The number of payloads that start nearer ahead of `base` than `key`. -/
def nearer (base : SeqNum) (p : Pending) (key : SeqNum) : ℕ :=
  (p.entries.filter fun e => SeqNum.distance base e.1 < SeqNum.distance base key).length

/-- The `m` payloads that start nearest ahead of `base`. -/
def nearest (base : SeqNum) (m : ℕ) (p : Pending) : Pending :=
  p.keep fun key => p.nearer base key < m

/-- The store with the payload in place of a strictly shorter one, or where there is none. -/
def offer (p : Pending) (key : SeqNum) (payload : Bytes) : Pending :=
  match p.get? key with
  | none => p.insert key payload
  | some held => if payload.length ≤ held.length then p else p.insert key payload

/-- Of the payloads of `p` at most `m` are held; and if one is missing there are `m`, and all of
them start nearer ahead of `base`. -/
structure NearestOf (base : SeqNum) (m : ℕ) (p q : Pending) : Prop where
  part : ∀ {key payload}, q.get? key = some payload → p.get? key = some payload
  room : q.size ≤ m
  full : ∀ {key payload}, p.get? key = some payload → q.get? key = none → q.size = m
  beyond : ∀ {key payload}, p.get? key = some payload → q.get? key = none →
    ∀ {k held}, q.get? k = some held → SeqNum.distance base k < SeqNum.distance base key

variable {base key seq : SeqNum} {m : ℕ} {p q : Pending} {payload held data : Bytes}

theorem offer_of_free (h : p.get? key = none) : p.offer key payload = p.insert key payload := by
  simp [offer,h]

theorem offer_of_held (h : p.get? key = some held) : p.offer key payload =
    if payload.length ≤ held.length then p else p.insert key payload := by
  simp [offer,h]

theorem get?_offer_of_ne (h : key ≠ seq) : (p.offer seq payload).get? key = p.get? key := by
  rw [offer]
  split
  · simp [h]
  · split <;> simp [h]

theorem get?_insert_of_ne (h : key ≠ seq) : (p.insert seq data).get? key = p.get? key := by
  simp [h]

theorem get?_insert_eq_none :
    (p.insert seq data).get? key = none ↔ key ≠ seq ∧ p.get? key = none := by
  rw [get?_insert]
  split <;> simp_all

namespace NearestOf

theorem size_le (h : NearestOf base m p q) : q.size ≤ p.size := by
  have hsub : q.entries ⊆ p.entries :=
    fun _ he => get?_eq_some_iff.mp (h.part (get?_eq_some_iff.mpr he))
  exact (q.entries_nodup.subperm hsub).length_le

theorem eq_of_lt (h : NearestOf base m p q) (hlt : q.size < m) : q = p := by
  refine eq_of_get? fun key => ?_
  cases hq : q.get? key with
  | some payload => exact (h.part hq).symm
  | none =>
    cases hp : p.get? key with
    | none => rfl
    | some payload => exact absurd (h.full hp hq) hlt.ne

theorem size_eq (h : NearestOf base m p q) : q.size = min m p.size := by
  have hroom := h.room
  have hle := h.size_le
  rcases Nat.lt_or_eq_of_le hroom with hlt | heq
  · have hsame := congrArg size (h.eq_of_lt hlt)
    omega
  · omega

theorem nearer_lt (h : NearestOf base m p q) (hq : q.get? key = some payload) :
    p.nearer base key < m := by
  have hsub : (p.entries.filter fun e => SeqNum.distance base e.1 < SeqNum.distance base key) ⊆
      (q.erase key).entries := by
    intro e he
    obtain ⟨hmem,hlt⟩ := List.mem_filter.mp he
    have hlt : SeqNum.distance base e.1 < SeqNum.distance base key := of_decide_eq_true hlt
    have hp : p.get? e.1 = some e.2 := get?_eq_some_iff.mpr hmem
    have hne : e.1 ≠ key := fun heq => hlt.ne (heq ▸ rfl)
    refine get?_eq_some_iff.mp ?_
    rw [get?_erase,if_neg hne]
    cases hheld : q.get? e.1 with
    | none => exact absurd (h.beyond hp hheld hq) hlt.not_gt
    | some payload' => rw [← h.part hheld,hp]
  have hle := ((p.entries_nodup.filter _).subperm hsub).length_le
  exact hle.trans_lt ((size_erase_lt hq).trans_le h.room)

theorem le_nearer (h : NearestOf base m p q) (hp : p.get? key = some payload)
    (hq : q.get? key = none) : m ≤ p.nearer base key := by
  have hsub : q.entries ⊆
      p.entries.filter fun e => SeqNum.distance base e.1 < SeqNum.distance base key := by
    intro e he
    have hheld : q.get? e.1 = some e.2 := get?_eq_some_iff.mpr he
    exact List.mem_filter.mpr
      ⟨get?_eq_some_iff.mp (h.part hheld),decide_eq_true (h.beyond hp hq hheld)⟩
  rw [← h.full hp hq]
  exact (q.entries_nodup.subperm hsub).length_le

theorem eq_nearest (h : NearestOf base m p q) : q = p.nearest base m := by
  refine eq_of_get? fun key => ?_
  rw [nearest,get?_keep]
  cases hq : q.get? key with
  | some payload => rw [if_pos (decide_eq_true (h.nearer_lt hq)),h.part hq]
  | none =>
    cases hp : p.get? key with
    | none => simp
    | some payload => rw [if_neg (by simpa using h.le_nearer hp hq)]

theorem insert (h : NearestOf base m p q) (hq : q.contains seq = true ∨ q.size < m) :
    NearestOf base m (p.insert seq data) (q.insert seq data) := by
  -- If a payload is missing there is no room, so one is held at the start.
  have hseq : ∀ {k v}, p.get? k = some v → q.get? k = none → q.contains seq = true :=
    fun hp hnone => hq.resolve_right (h.full hp hnone).not_lt
  refine ⟨fun {k v} hk => ?_,?_,fun hp hnone => ?_,fun hp hnone k held hk => ?_⟩
  · by_cases heq : k = seq
    · simpa [heq] using hk
    · rw [get?_insert_of_ne heq] at hk ⊢
      exact h.part hk
  · rcases hq with hq | hlt
    · exact (size_insert_of_contains hq data).trans_le h.room
    · exact (size_insert_le q seq data).trans hlt
  · obtain ⟨hne,hnone⟩ := get?_insert_eq_none.mp hnone
    rw [get?_insert_of_ne hne] at hp
    rw [size_insert_of_contains (hseq hp hnone),h.full hp hnone]
  · obtain ⟨hne,hnone⟩ := get?_insert_eq_none.mp hnone
    rw [get?_insert_of_ne hne] at hp
    by_cases heq : k = seq
    · obtain ⟨v,hv⟩ := Option.isSome_iff_exists.mp (hseq hp hnone)
      exact heq ▸ h.beyond hp hnone hv
    · rw [get?_insert_of_ne heq] at hk
      exact h.beyond hp hnone hk

/-- The furthest payload gives way to one that starts nearer. -/
theorem replace (h : NearestOf base m p q) (hfull : q.size = m) (hfree : q.get? seq = none)
    (hq : q.get? key = some payload)
    (hmost : ∀ {k held}, q.get? k = some held →
      SeqNum.distance base k ≤ SeqNum.distance base key)
    (hlt : SeqNum.distance base seq < SeqNum.distance base key) :
    NearestOf base m (p.insert seq data) ((q.erase key).insert seq data) := by
  have hsize : ((q.erase key).insert seq data).size = m := by
    rw [size_insert,erase_of_get?_eq_none (by simp [hfree]),← size_eq_of_get? hq,hfull]
  -- What is missing from now on is the furthest payload, or was missing before and lies beyond it.
  have hmissing : ∀ {k v}, (p.insert seq data).get? k = some v →
      ((q.erase key).insert seq data).get? k = none →
      SeqNum.distance base key ≤ SeqNum.distance base k := by
    intro k v hp hnone
    obtain ⟨hne,hnone⟩ := get?_insert_eq_none.mp hnone
    rw [get?_insert_of_ne hne] at hp
    by_cases hk : k = key
    · rw [hk]
    · exact (h.beyond hp (by simpa [hk] using hnone) hq).le
  refine ⟨fun {k v} hk => ?_,hsize.le,fun _ _ => hsize,fun hp hnone k held hk => ?_⟩
  · by_cases heq : k = seq
    · simpa [heq] using hk
    · rw [get?_insert_of_ne heq] at hk ⊢
      rw [get?_erase] at hk
      split at hk
      · cases hk
      · exact h.part hk
  · refine lt_of_lt_of_le ?_ (hmissing hp hnone)
    by_cases heq : k = seq
    · rwa [heq]
    · rw [get?_insert_of_ne heq,get?_erase] at hk
      split at hk
      · cases hk
      · rename_i hne
        exact lt_of_le_of_ne (hmost hk) (mt SeqNum.distance_inj.mp hne)

/-- A payload that starts beyond all that are held is refused. -/
theorem refuse (h : NearestOf base m p q) (hfull : q.size = m) (hfree : q.get? seq = none)
    (hbeyond : ∀ {k held}, q.get? k = some held →
      SeqNum.distance base k < SeqNum.distance base seq) :
    NearestOf base m (p.offer seq data) q := by
  refine ⟨fun {k v} hk => ?_,h.room,fun _ _ => hfull,fun {k v} hp hnone k' held hk => ?_⟩
  · have hne : k ≠ seq := by
      rintro rfl
      simp [hfree] at hk
    rw [get?_offer_of_ne hne,h.part hk]
  · by_cases hks : k = seq
    · exact hks ▸ hbeyond hk
    · rw [get?_offer_of_ne hks] at hp
      exact h.beyond hp hnone hk

end NearestOf
end Pending
end Reassembly
