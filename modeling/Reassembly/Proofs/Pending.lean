import Mathlib.Data.List.Perm.Basic
import Reassembly.Proofs.Circle

/-! What a store holds, its sums, and the first start in circular order. Putting in and taking out
are described up to the order of the entries, so that every sum over them follows. -/
namespace Reassembly
namespace Pending

theorem entries_nodup (p : Pending) : p.entries.Nodup := by
  refine p.increasing.imp ?_
  rintro a b h rfl
  exact UInt32.lt_irrefl _ h

theorem lookIn_eq_some_iff {key : SeqNum} {payload : Bytes} {es : List (SeqNum × Bytes)}
    (hp : es.Pairwise (fun a b => a.1 < b.1)) :
    lookIn key es = some payload ↔ (key,payload) ∈ es := by
  refine ⟨mem_of_lookIn,fun h => ?_⟩
  induction es with
  | nil => simp at h
  | cons e es ih =>
    have ⟨he,hes⟩ := List.pairwise_cons.mp hp
    rcases List.mem_cons.mp h with rfl | h
    · simp [lookIn]
    · have hne : key ≠ e.1 := fun heq => UInt32.lt_irrefl _ (heq ▸ he _ h)
      simpa [lookIn,hne] using ih hes h

theorem get?_eq_some_iff {p : Pending} {key : SeqNum} {payload : Bytes} :
    p.get? key = some payload ↔ (key,payload) ∈ p.entries := lookIn_eq_some_iff p.increasing

theorem bytesIn_eq_sum (es : List (SeqNum × Bytes)) : bytesIn es = (es.map (·.2.length)).sum := by
  induction es with
  | nil => rfl
  | cons e es ih => rw [bytesIn,ih,List.map_cons,List.sum_cons]

theorem bytes_eq_sum (p : Pending) : p.bytes = (p.entries.map (·.2.length)).sum :=
  bytesIn_eq_sum p.entries

theorem eq_of_perm {p q : Pending} (h : p.entries.Perm q.entries) : p = q := by
  have he := h.eq_of_pairwise
    (fun a b _ _ hab hba => absurd (UInt32.lt_trans hab hba) (UInt32.lt_irrefl _))
    p.increasing q.increasing
  cases p
  cases q
  simpa using he

theorem cons_erase_nodup (p : Pending) (key : SeqNum) (payload : Bytes) :
    ((key,payload)::(p.erase key).entries).Nodup := by
  refine List.nodup_cons.mpr ⟨fun h => ?_,(p.erase key).entries_nodup⟩
  simp [← get?_eq_some_iff] at h

theorem perm_insert (p : Pending) (key : SeqNum) (payload : Bytes) :
    (p.insert key payload).entries.Perm ((key,payload)::(p.erase key).entries) := by
  apply (List.perm_ext_iff_of_nodup (entries_nodup _) (cons_erase_nodup p key payload)).mpr
  rintro ⟨k,v⟩
  rw [List.mem_cons,← get?_eq_some_iff,← get?_eq_some_iff,get?_insert,get?_erase]
  by_cases h : k = key
  · simp [h,eq_comm]
  · simp [h]

theorem perm_erase {p : Pending} {key : SeqNum} {payload : Bytes} (h : p.get? key = some payload) :
    p.entries.Perm ((key,payload)::(p.erase key).entries) := by
  apply (List.perm_ext_iff_of_nodup p.entries_nodup (cons_erase_nodup p key payload)).mpr
  rintro ⟨k,v⟩
  rw [List.mem_cons,← get?_eq_some_iff,← get?_eq_some_iff,get?_erase]
  by_cases hk : k = key
  · simp [hk,h,eq_comm]
  · simp [hk]

theorem eq_of_get? {p q : Pending} (h : ∀ key, p.get? key = q.get? key) : p = q := by
  apply eq_of_perm
  apply (List.perm_ext_iff_of_nodup p.entries_nodup q.entries_nodup).mpr
  rintro ⟨k,v⟩
  rw [← get?_eq_some_iff,← get?_eq_some_iff,h]

theorem erase_of_get?_eq_none {p : Pending} {key : SeqNum} (h : p.get? key = none) :
    p.erase key = p := by
  refine eq_of_get? fun k => ?_
  rw [get?_erase]
  by_cases hk : k = key <;> simp [hk,h]

theorem size_insert (p : Pending) (key : SeqNum) (payload : Bytes) :
    (p.insert key payload).size = (p.erase key).size+1 := (perm_insert p key payload).length_eq

theorem bytes_insert (p : Pending) (key : SeqNum) (payload : Bytes) :
    (p.insert key payload).bytes = payload.length+(p.erase key).bytes := by
  simpa [bytes_eq_sum] using ((perm_insert p key payload).map (fun e => e.2.length)).sum_eq

theorem size_eq_of_get? {p : Pending} {key : SeqNum} {payload : Bytes}
    (h : p.get? key = some payload) : p.size = (p.erase key).size+1 := (perm_erase h).length_eq

theorem bytes_eq_of_get? {p : Pending} {key : SeqNum} {payload : Bytes}
    (h : p.get? key = some payload) : p.bytes = payload.length+(p.erase key).bytes := by
  simpa [bytes_eq_sum] using ((perm_erase h).map (fun e => e.2.length)).sum_eq

def keep (P : SeqNum → Bool) (p : Pending) : Pending :=
  ⟨p.entries.filter (P ·.1),p.increasing.sublist List.filter_sublist⟩

@[simp] theorem get?_keep (P : SeqNum → Bool) (p : Pending) (key : SeqNum) :
    (p.keep P).get? key = if P key then p.get? key else none := by
  refine Option.ext fun payload => ?_
  rw [get?_eq_some_iff,keep,List.mem_filter,← get?_eq_some_iff]
  by_cases h : P key = true <;> simp [h]

/-- The first start from `origin` on is held, and no other is met sooner on the way around. -/
theorem firstFrom?_eq_some {p : Pending} {origin key : SeqNum}
    (h : p.firstFrom? origin = some key) :
    (p.get? key).isSome ∧ ∀ k payload, p.get? k = some payload →
      SeqNum.distance origin key ≤ SeqNum.distance origin k := by
  have ho := origin.toNat_lt
  unfold firstFrom? at h
  cases hf : p.entries.find? (origin ≤ ·.1) with
  | some e =>
    have he : e.1 = key := by simpa [hf] using h
    obtain ⟨hle,as,bs,hsplit,has⟩ := List.find?_eq_some_iff_append.mp hf
    have hget : p.get? e.1 = some e.2 := get?_eq_some_iff.mpr (List.mem_of_find?_eq_some hf)
    refine ⟨by simp [← he,hget],fun k payload hk => ?_⟩
    have hk' := get?_eq_some_iff.mp hk
    have hinc := p.increasing
    have hkl := k.toNat_lt
    rw [hsplit] at hk' hinc
    simp only [decide_eq_true_eq,UInt32.le_iff_toNat_le] at hle
    rw [SeqNum.distance_eq,SeqNum.distance_eq,← he]
    rcases List.mem_append.mp hk' with hk' | hk'
    · have hlt := has _ hk'
      simp only [Bool.not_eq_true',decide_eq_false_iff_not,UInt32.le_iff_toNat_le] at hlt
      have hel := e.1.toNat_lt
      omega
    · have hle' : e.1.toNat ≤ k.toNat := by
        rcases List.mem_cons.mp hk' with rfl | hk'
        · exact le_rfl
        · have hlt := (List.pairwise_cons.mp (List.pairwise_append.mp hinc).2.1).1 _ hk'
          exact (UInt32.lt_iff_toNat_lt.mp hlt).le
      omega
  | none =>
    rw [hf] at h
    cases hes : p.entries with
    | nil => simp [hes] at h
    | cons e es =>
      have he : e.1 = key := by simpa [hes] using h
      have hget : p.get? e.1 = some e.2 := get?_eq_some_iff.mpr (by simp [hes])
      refine ⟨by simp [← he,hget],fun k payload hk => ?_⟩
      have hk' := get?_eq_some_iff.mp hk
      have hinc := p.increasing
      have hall := List.find?_eq_none.mp hf
      have hko := hall _ hk'
      have heo := hall e (by simp [hes])
      rw [hes] at hk' hinc
      simp only [decide_eq_true_eq,UInt32.le_iff_toNat_le] at hko heo
      have hle' : e.1.toNat ≤ k.toNat := by
        rcases List.mem_cons.mp hk' with rfl | hk'
        · exact le_rfl
        · exact (UInt32.lt_iff_toNat_lt.mp ((List.pairwise_cons.mp hinc).1 _ hk')).le
      rw [SeqNum.distance_eq,SeqNum.distance_eq,← he]
      omega

theorem firstFrom?_eq_none {p : Pending} {origin : SeqNum} (h : p.firstFrom? origin = none) :
    p = .empty := by
  have hes : p.entries = [] := by
    unfold firstFrom? at h
    cases hp : p.entries with
    | nil => rfl
    | cons e es => cases hf : (e::es).find? (origin ≤ ·.1) <;> simp [hp,hf] at h
  exact eq_of_perm (by simp [hes,empty])

theorem firstFrom?_eq_some_iff {p : Pending} {origin key : SeqNum} :
    p.firstFrom? origin = some key ↔ (p.get? key).isSome ∧ ∀ k payload, p.get? k = some payload →
      SeqNum.distance origin key ≤ SeqNum.distance origin k := by
  refine ⟨firstFrom?_eq_some,fun ⟨hheld,hleast⟩ => ?_⟩
  obtain ⟨payload,hpayload⟩ := Option.isSome_iff_exists.mp hheld
  cases hf : p.firstFrom? origin with
  | none => simp [firstFrom?_eq_none hf] at hheld
  | some first =>
    obtain ⟨hfirst,hle⟩ := firstFrom?_eq_some hf
    obtain ⟨q,hq⟩ := Option.isSome_iff_exists.mp hfirst
    have heq := Nat.le_antisymm (hle key payload hpayload) (hleast first q hq)
    rw [SeqNum.distance_inj.mp heq]

theorem start_le_getLast? {es : List (SeqNum × Bytes)} {e : SeqNum × Bytes}
    (hp : es.Pairwise (fun a b => a.1 < b.1)) (h : es.getLast? = some e) :
    ∀ x ∈ es, x.1.toNat ≤ e.1.toNat := by
  obtain ⟨fs,rfl⟩ := List.getLast?_eq_some_iff.mp h
  intro x hx
  rcases List.mem_append.mp hx with hx | hx
  · exact (UInt32.lt_iff_toNat_lt.mp ((List.pairwise_append.mp hp).2.2 x hx e (by simp))).le
  · rw [List.mem_singleton.mp hx]

/-- The last start on a turn from `origin` is held, and no other is met later. -/
theorem lastFrom?_eq_some {p : Pending} {origin key : SeqNum} (h : p.lastFrom? origin = some key) :
    (p.get? key).isSome ∧ ∀ k payload, p.get? k = some payload →
      SeqNum.distance origin k ≤ SeqNum.distance origin key := by
  have ho := origin.toNat_lt
  unfold lastFrom? at h
  have found : ∀ e ∈ p.entries, e.1 = key → (p.get? key).isSome := by
    rintro ⟨k,v⟩ he rfl
    simp [get?_eq_some_iff.mpr he]
  cases hf : (p.entries.filter (·.1 < origin)).getLast? with
  | some e =>
    have he : e.1 = key := by simpa [hf] using h
    have hmem := List.mem_of_getLast? hf
    simp only [List.mem_filter,decide_eq_true_eq,UInt32.lt_iff_toNat_lt] at hmem
    refine ⟨found e hmem.1 he,fun k payload hk => ?_⟩
    have hkl := k.toNat_lt
    have hlast := start_le_getLast? (p.increasing.sublist List.filter_sublist) hf (k,payload)
    simp only [List.mem_filter,decide_eq_true_eq,UInt32.lt_iff_toNat_lt,get?_eq_some_iff.mp hk,
      true_and] at hlast
    rw [SeqNum.distance_eq,SeqNum.distance_eq,← he]
    omega
  | none =>
    rw [hf,Option.none_or] at h
    obtain ⟨e,hl,he⟩ := Option.map_eq_some_iff.mp h
    refine ⟨found e (List.mem_of_getLast? hl) he,fun k payload hk => ?_⟩
    have hnone := List.filter_eq_nil_iff.mp (List.getLast?_eq_none_iff.mp hf)
    have hk' := get?_eq_some_iff.mp hk
    have hkl := k.toNat_lt
    have hel := e.1.toNat_lt
    have hko := hnone _ hk'
    have hlast := start_le_getLast? p.increasing hl _ hk'
    simp only [decide_eq_true_eq,UInt32.lt_iff_toNat_lt] at hko hlast
    rw [SeqNum.distance_eq,SeqNum.distance_eq,← he]
    omega

theorem lastFrom?_eq_none {p : Pending} {origin : SeqNum} (h : p.lastFrom? origin = none) :
    p = .empty := by
  have hes : p.entries = [] := by
    simp only [lastFrom?,Option.map_eq_none_iff,Option.or_eq_none_iff] at h
    exact List.getLast?_eq_none_iff.mp h.2
  exact eq_of_perm (by simp [hes,empty])

theorem lastFrom?_eq_some_iff {p : Pending} {origin key : SeqNum} :
    p.lastFrom? origin = some key ↔ (p.get? key).isSome ∧ ∀ k payload, p.get? k = some payload →
      SeqNum.distance origin k ≤ SeqNum.distance origin key := by
  refine ⟨lastFrom?_eq_some,fun ⟨hheld,hmost⟩ => ?_⟩
  obtain ⟨payload,hpayload⟩ := Option.isSome_iff_exists.mp hheld
  cases hf : p.lastFrom? origin with
  | none => simp [lastFrom?_eq_none hf] at hheld
  | some last =>
    obtain ⟨hlast,hle⟩ := lastFrom?_eq_some hf
    obtain ⟨q,hq⟩ := Option.isSome_iff_exists.mp hlast
    have heq := Nat.le_antisymm (hmost last q hq) (hle key payload hpayload)
    rw [SeqNum.distance_inj.mp heq]

end Pending
end Reassembly
