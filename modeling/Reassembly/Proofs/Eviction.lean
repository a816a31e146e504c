import Mathlib.Data.List.Sort
import Reassembly.Proofs.StoreInvariant

/-! Making room. What lies further ahead than a newcomer is given up the furthest first, no more of
it than is needed; and nothing is given up if all of it would not be enough. The look ahead and the
loop agree because the loop's next choice is the head of the same list. -/
namespace Reassembly
namespace Receiver

def giveUp (r : Receiver) : List (SeqNum × Bytes) → Receiver
  | [] => r
  | e::es => (r.without e.1 e.2).countEvicted.giveUp es

def furthestFirst (r : Receiver) (seq : SeqNum) : List (SeqNum × Bytes) :=
  (r.further seq).insertionSort fun a b => r.rank b.1 ≤ r.rank a.1

/-- What is held at `seq` is shorter than the payload. -/
def Wants (r : Receiver) (seq : SeqNum) (payload : Bytes) : Prop :=
  ∀ held, r.pending.get? seq = some held → held.length < payload.length

def growth (r : Receiver) (seq : SeqNum) (payload : Bytes) : ℕ :=
  payload.length-((r.pending.get? seq).elim 0 List.length)

def newEntries (r : Receiver) (seq : SeqNum) : ℕ := if r.pending.contains seq then 0 else 1

variable {r t : Receiver} {seq key : SeqNum} {payload : Bytes} {len growth entries : ℕ}
  {es : List (SeqNum × Bytes)} {events : List Event}

theorem giveUp_limits (r : Receiver) (es : List (SeqNum × Bytes)) :
    (r.giveUp es).limits = r.limits := by
  induction es generalizing r with
  | nil => rfl
  | cons e es ih => exact ih _

theorem giveUp_evictions (r : Receiver) (es : List (SeqNum × Bytes)) :
    (r.giveUp es).stats.evictions = r.stats.evictions+es.length := by
  induction es generalizing r with
  | nil => rfl
  | cons e es ih =>
    rw [giveUp,ih,List.length_cons,Nat.add_comm es.length 1,← Nat.add_assoc]
    rfl

theorem giveUp_pendingBytes (r : Receiver) (es : List (SeqNum × Bytes)) :
    (r.giveUp es).pendingBytes = r.pendingBytes-Pending.bytesIn es := by
  induction es generalizing r with
  | nil => rfl
  | cons e es ih =>
    rw [giveUp,ih,Pending.bytesIn,← Nat.sub_sub]
    rfl

theorem get?_giveUp (r : Receiver) (es : List (SeqNum × Bytes)) (key : SeqNum) :
    (r.giveUp es).pending.get? key =
      if key ∈ es.map Prod.fst then none else r.pending.get? key := by
  induction es generalizing r with
  | nil => rfl
  | cons e es ih =>
    rw [giveUp,ih]
    by_cases hk : key = e.1
    · simp [countEvicted,hk]
    · have hcons : key ∈ (e::es).map Prod.fst ↔ key ∈ es.map Prod.fst := by simp [hk]
      simp only [hcons,countEvicted,without_pending,Pending.get?_erase,if_neg hk]

theorem bytesIn_further_le (r : Receiver) (seq : SeqNum) :
    Pending.bytesIn (r.further seq) ≤ r.pending.bytes := by
  rw [Pending.bytesIn_eq_sum,Pending.bytes_eq_sum]
  exact (List.filter_sublist.map _).sum_le_sum fun _ _ => Nat.zero_le _

/-- The entries further ahead than `seq`, each before those it lies beyond. -/
structure FurthestFirst (r : Receiver) (seq : SeqNum) (es : List (SeqNum × Bytes)) : Prop where
  all : (r.further seq).Perm es
  order : es.Pairwise fun a b => r.rank b.1 < r.rank a.1

theorem rank_inj {k : SeqNum} : r.rank key = r.rank k ↔ key = k := SeqNum.distance_inj

theorem furthestFirst_spec (r : Receiver) (seq : SeqNum) :
    FurthestFirst r seq (r.furthestFirst seq) where
  all := (List.perm_insertionSort _ _).symm
  order := by
    have : Std.Total fun a b : SeqNum × Bytes => r.rank b.1 ≤ r.rank a.1 :=
      ⟨fun _ _ => le_total _ _⟩
    have : IsTrans (SeqNum × Bytes) fun a b => r.rank b.1 ≤ r.rank a.1 :=
      ⟨fun _ _ _ hab hbc => hbc.trans hab⟩
    have hsorted := List.pairwise_insertionSort (fun a b => r.rank b.1 ≤ r.rank a.1) (r.further seq)
    have hdistinct : (r.furthestFirst seq).Pairwise fun a b => r.rank a.1 ≠ r.rank b.1 := by
      refine List.Perm.pairwise (List.perm_insertionSort _ _).symm ?_ Ne.symm
      refine (r.pending.increasing.sublist List.filter_sublist).imp fun hlt heq => ?_
      exact UInt32.ne_of_lt hlt (rank_inj.mp heq)
    exact hsorted.imp₂ (fun _ _ hle hne => lt_of_le_of_ne hle hne.symm) hdistinct

theorem evictUntilFits_of_not_fits (hfits : ¬r.fits growth entries = true)
    (hkey : r.furthestKey? = some key) (hfurther : r.rank seq < r.rank key)
    (held : r.pending.get? key = some payload) :
    let rest := (r.without key payload).countEvicted.evictUntilFits seq growth entries
    r.evictUntilFits seq growth entries =
      (rest.1,rest.2.1,.evicted key payload.length::rest.2.2) := by
  intro rest
  have htake : r.take? key = some (payload,r.without key payload) :=
    take?_eq_some_iff.mpr ⟨held,rfl⟩
  rw [evictUntilFits,if_neg hfits,hkey]
  dsimp only
  rw [if_neg (not_le.mpr hfurther)]
  split
  · rename_i hnone
    rw [htake] at hnone
    cases hnone
  · rename_i payload' s hsome
    rw [htake] at hsome
    cases hsome
    rfl

namespace FurthestFirst

variable {e : SeqNum × Bytes}

theorem mem_iff (h : FurthestFirst r seq es) :
    e ∈ es ↔ r.pending.get? e.1 = some e.2 ∧ r.rank seq < r.rank e.1 := by
  rw [← h.all.mem_iff,further,List.mem_filter,decide_eq_true_eq,Pending.get?_eq_some_iff]

/-- The loop's next choice is the first of them. -/
theorem furthestKey?_eq (h : FurthestFirst r seq (e::es)) : r.furthestKey? = some e.1 := by
  have ⟨hheld,hfurther⟩ := h.mem_iff.mp List.mem_cons_self
  refine Pending.lastFrom?_eq_some_iff.mpr ⟨by simp [hheld],fun k payload hk => ?_⟩
  change r.rank k ≤ r.rank e.1
  by_cases hle : r.rank k ≤ r.rank seq
  · exact hle.trans hfurther.le
  · have hmem : (k,payload) ∈ e::es := h.mem_iff.mpr ⟨hk,not_le.mp hle⟩
    rcases List.mem_cons.mp hmem with rfl | hmem
    · exact le_rfl
    · exact ((List.pairwise_cons.mp h.order).1 _ hmem).le

theorem tail (h : FurthestFirst r seq (e::es)) :
    FurthestFirst (r.without e.1 e.2).countEvicted seq es where
  all := by
    have hfurther : ((r.without e.1 e.2).countEvicted).further seq =
        (r.further seq).filter (·.1 ≠ e.1) := by
      change (r.pending.entries.filter (·.1 ≠ e.1)).filter (fun x => r.rank seq < r.rank x.1) = _
      rw [further,List.filter_filter,List.filter_filter]
      exact List.filter_congr fun _ _ => Bool.and_comm _ _
    have hrest : (e::es).filter (·.1 ≠ e.1) = es := by
      rw [List.filter_cons_of_neg (by simp),List.filter_eq_self]
      intro x hx
      have hlt := (List.pairwise_cons.mp h.order).1 x hx
      simp only [decide_eq_true_eq]
      rintro heq
      rw [heq] at hlt
      exact lt_irrefl _ hlt
    rw [hfurther,← hrest]
    exact h.all.filter _
  order := (List.pairwise_cons.mp h.order).2

theorem not_mem_take (h : FurthestFirst r seq es) (m : ℕ) : seq ∉ (es.take m).map Prod.fst := by
  intro hmem
  obtain ⟨e,he,rfl⟩ := List.mem_map.mp hmem
  exact lt_irrefl _ (h.mem_iff.mp (List.mem_of_mem_take he)).2

theorem size_giveUp (h : FurthestFirst r seq es) :
    (r.giveUp es).pending.size+es.length = r.pending.size := by
  induction es generalizing r with
  | nil => rfl
  | cons e es ih =>
    have hheld := (h.mem_iff.mp List.mem_cons_self).1
    have hsize : r.pending.size = (r.without e.1 e.2).countEvicted.pending.size+1 :=
      Pending.size_eq_of_get? hheld
    have hrest := ih h.tail
    rw [giveUp,List.length_cons]
    omega

theorem bytesIn_eq (h : FurthestFirst r seq es) :
    Pending.bytesIn es = Pending.bytesIn (r.further seq) := by
  rw [Pending.bytesIn_eq_sum,Pending.bytesIn_eq_sum]
  exact (h.all.map _).sum_eq.symm

theorem bytesIn_le (h : FurthestFirst r seq es) (m : ℕ) :
    Pending.bytesIn (es.take m) ≤ r.pending.bytes := by
  have htake : Pending.bytesIn (es.take m) ≤ Pending.bytesIn es := by
    rw [Pending.bytesIn_eq_sum,Pending.bytesIn_eq_sum]
    exact ((List.take_sublist m es).map _).sum_le_sum fun _ _ => Nat.zero_le _
  rw [h.bytesIn_eq] at htake
  exact htake.trans (bytesIn_further_le r seq)

/-- The look ahead tells whether there would be room without all of them. -/
theorem fits_giveUp (h : FurthestFirst r seq es) (growth entries : ℕ) :
    (r.giveUp es).fits growth entries = r.fitsAfterFreeing (r.further seq).length
      (Pending.bytesIn (r.further seq)) growth entries := by
  have hsize := h.size_giveUp
  have hleft : (r.giveUp es).pending.size = r.pending.size-es.length := by omega
  rw [fits,fitsAfterFreeing,fitsAfterFreeing,giveUp_limits,giveUp_pendingBytes,h.all.length_eq,
    h.bytesIn_eq,hleft]
  simp

/-- The loop gives up the shortest run that makes room, if all of them together do. -/
theorem evictUntilFits_eq (h : FurthestFirst r seq es)
    (hfits : (r.giveUp es).fits growth entries = true) : ∃ m ≤ es.length,
      r.evictUntilFits seq growth entries =
        (true,r.giveUp (es.take m),(es.take m).map fun e => .evicted e.1 e.2.length) ∧
      (r.giveUp (es.take m)).fits growth entries = true ∧
      ∀ j < m, (r.giveUp (es.take j)).fits growth entries = false := by
  induction es generalizing r with
  | nil =>
    have hnow : r.fits growth entries = true := hfits
    refine ⟨0,le_rfl,?_,hnow,by simp⟩
    rw [evictUntilFits,if_pos hnow]
    rfl
  | cons e es ih =>
    by_cases hnow : r.fits growth entries = true
    · refine ⟨0,Nat.zero_le _,?_,hnow,by simp⟩
      rw [evictUntilFits,if_pos hnow]
      rfl
    · have ⟨hheld,hfurther⟩ := h.mem_iff.mp List.mem_cons_self
      obtain ⟨m,hm,hrun,hroom,hleast⟩ := ih h.tail hfits
      refine ⟨m+1,Nat.succ_le_succ hm,?_,hroom,fun j hj => ?_⟩
      · rw [evictUntilFits_of_not_fits hnow h.furthestKey?_eq hfurther hheld,hrun]
        rfl
      · cases j with
        | zero => exact Bool.not_eq_true _ ▸ hnow
        | succ j => exact hleast j (Nat.lt_of_succ_lt_succ hj)

end FurthestFirst

/-- The first `m` of `es` are given up and nothing else, and no fewer of them would do. -/
structure MakesRoom (r : Receiver) (es : List (SeqNum × Bytes)) (growth entries m : ℕ)
    (t : Receiver) : Prop where
  bound : m ≤ es.length
  state : t = r.giveUp (es.take m)
  room : t.fits growth entries = true
  least : ∀ j < m, (r.giveUp (es.take j)).fits growth entries = false
  evictions : t.stats.evictions = r.stats.evictions+m
  bytes : t.pendingBytes+Pending.bytesIn (es.take m) = r.pendingBytes
  gone : ∀ e ∈ es.take m, t.pending.get? e.1 = none
  kept : ∀ key, key ∉ (es.take m).map Prod.fst → t.pending.get? key = r.pending.get? key

theorem FurthestFirst.makesRoom (h : FurthestFirst r seq es) {m : ℕ}
    (hr : r.pendingBytes = r.pending.bytes) (hm : m ≤ es.length)
    (hroom : (r.giveUp (es.take m)).fits growth entries = true)
    (hleast : ∀ j < m, (r.giveUp (es.take j)).fits growth entries = false) :
    MakesRoom r es growth entries m (r.giveUp (es.take m)) where
  bound := hm
  state := rfl
  room := hroom
  least := hleast
  evictions := by rw [giveUp_evictions,List.length_take_of_le hm]
  bytes := by
    have hle := h.bytesIn_le m
    rw [giveUp_pendingBytes]
    omega
  gone e he := by rw [get?_giveUp,if_pos (List.mem_map_of_mem he)]
  kept key hkey := by rw [get?_giveUp,if_neg hkey]

/-- Payloads may be given up: the policy is to do so, the newcomer is within the cap by itself, and
there would be room without all that lies further ahead. -/
structure MayEvict (r : Receiver) (seq : SeqNum) (len growth entries : ℕ) : Prop where
  policy : r.limits.overflow = .evictFurthest
  within : ∀ max, r.limits.maxBytes = some max → len ≤ max
  enough : (r.giveUp (r.furthestFirst seq)).fits growth entries = true

theorem makeRoom_of_fits (h : r.fits growth entries = true) :
    r.makeRoom seq len growth entries = (true,r,[]) := by
  rw [makeRoom,if_pos h]

theorem makeRoom_of_mayEvict (hfits : ¬r.fits growth entries = true)
    (h : MayEvict r seq len growth entries) :
    r.makeRoom seq len growth entries = r.evictUntilFits seq growth entries := by
  have hwithin : ¬r.limits.maxBytes.any (fun max => max < len) = true := by
    rw [Option.any_eq_true]
    rintro ⟨max,hmax,hlt⟩
    exact absurd (h.within max hmax) (not_le.mpr (of_decide_eq_true hlt))
  have henough := h.enough
  rw [(furthestFirst_spec r seq).fits_giveUp] at henough
  rw [makeRoom,if_neg hfits,if_neg hwithin,h.policy]
  exact if_pos henough

theorem makeRoom_of_not_mayEvict (hfits : ¬r.fits growth entries = true)
    (h : ¬MayEvict r seq len growth entries) :
    r.makeRoom seq len growth entries = (false,r,[]) := by
  rw [makeRoom,if_neg hfits]
  split
  · rfl
  · rename_i hwithin
    cases hpolicy : r.limits.overflow with
    | dropNew => rfl
    | evictFurthest =>
      refine if_neg fun henough => h ⟨hpolicy,fun max hmax => ?_,?_⟩
      · by_contra hlt
        exact hwithin (by simpa [hmax] using hlt)
      · rw [(furthestFirst_spec r seq).fits_giveUp]
        exact henough

theorem store_rejected_iff (hw : r.Wants seq payload) : (r.store seq payload).1 = .rejected ↔
    (r.makeRoom seq payload.length (r.growth seq payload) (r.newEntries seq)).1 = false := by
  have hfile : ∀ filing, filing ≠ .rejected →
      ((r.file seq payload (r.growth seq payload) (r.newEntries seq) filing).1 = .rejected ↔
        (r.makeRoom seq payload.length (r.growth seq payload) (r.newEntries seq)).1 = false) := by
    intro filing hne
    rw [file]
    split
    · rename_i hmade
      simp [hmade,hne]
    · rename_i hmade
      simp [hmade]
  rw [store]
  cases hheld : r.pending.get? seq with
  | none => simpa [growth,newEntries,Pending.contains,hheld] using hfile .inserted (by simp)
  | some held =>
    have hlong := not_le.mpr (hw held hheld)
    dsimp only
    rw [if_neg hlong]
    simpa [growth,newEntries,Pending.contains,hheld] using hfile .replaced (by simp)

/-- For a payload that is wanted, room is made exactly if there is room already, or giving up is
allowed and all that lies further ahead is enough. If no room is made nothing changes; if it is, the
shortest run that is enough is given up, the furthest first, and what is held at the payload's own
start is not touched. The loop that gives up never ends without room. -/
theorem makeRoom_exact (hr : r.pendingBytes = r.pending.bytes) (hw : r.Wants seq payload) :
    let growth := r.growth seq payload
    let entries := r.newEntries seq
    let made := r.makeRoom seq payload.length growth entries
    (made.1 = true ↔ r.fits growth entries = true ∨ MayEvict r seq payload.length growth entries) ∧
      (made.1 = false → made.2 = (r,[])) ∧
      (made.1 = true → (∃ m, MakesRoom r (r.furthestFirst seq) growth entries m made.2.1) ∧
        made.2.1.pending.get? seq = r.pending.get? seq) ∧
      ((r.store seq payload).1 = .rejected ↔ made.1 = false) ∧
      (MayEvict r seq payload.length growth entries →
        (r.evictUntilFits seq growth entries).1 = true) := by
  intro growth entries made
  have hall := furthestFirst_spec r seq
  have hstore := store_rejected_iff hw
  have hloop : MayEvict r seq payload.length growth entries →
      (r.evictUntilFits seq growth entries).1 = true := by
    intro hmay
    obtain ⟨m,_,hrun,_⟩ := hall.evictUntilFits_eq hmay.enough
    rw [hrun]
  by_cases hfits : r.fits growth entries = true
  · have hmade : made = (true,r,[]) := makeRoom_of_fits hfits
    have hnone := hall.makesRoom hr (Nat.zero_le _) hfits (by simp)
    refine ⟨by simp [hmade,hfits],by simp [hmade],fun _ => ?_,hstore,hloop⟩
    rw [hmade]
    exact ⟨⟨0,hnone⟩,rfl⟩
  · by_cases hmay : MayEvict r seq payload.length growth entries
    · obtain ⟨m,hm,hrun,hroom,hleast⟩ := hall.evictUntilFits_eq hmay.enough
      have hmade : made = _ := (makeRoom_of_mayEvict hfits hmay).trans hrun
      have hgiven := hall.makesRoom hr hm hroom hleast
      refine ⟨by simp [hmade,hmay],by simp [hmade],fun _ => ?_,hstore,hloop⟩
      rw [hmade]
      exact ⟨⟨m,hgiven⟩,hgiven.kept seq (hall.not_mem_take m)⟩
    · have hmade : made = (false,r,[]) := makeRoom_of_not_mayEvict hfits hmay
      exact ⟨by simp [hmade,hfits,hmay],by simp [hmade],by simp [hmade],hstore,hloop⟩

def pack : List Op := [.ingest 0xfffffffe [1,2],.ingest 3 [3,4,5],.ingest 9 [6,7,8]]

def packLimits : Limits := {maxSegments := some 3, maxBytes := some 8, overflow := .evictFurthest}

/-- One of the two that lie further ahead is enough for a payload that replaces the first. -/
theorem room_in_pack :
    ((start 0xfffffffc packLimits).run pack).furthestFirst 0xfffffffe = [(9,[6,7,8]),(3,[3,4,5])] ∧
      (((start 0xfffffffc packLimits).run pack).makeRoom 0xfffffffe 5 3 0).1 = true ∧
      (((start 0xfffffffc packLimits).run pack).makeRoom 0xfffffffe 5 3 0).2.1.pending.get?
        0xfffffffe = some [1,2] ∧
      ∃ m, MakesRoom ((start 0xfffffffc packLimits).run pack) [(9,[6,7,8]),(3,[3,4,5])] 3 0 m
        (((start 0xfffffffc packLimits).run pack).makeRoom 0xfffffffe 5 3 0).2.1 := by
  have hr : Consistent ((start 0xfffffffc packLimits).run pack) :=
    run_consistent pack (consistent_start _ _)
  have hheld : ((start 0xfffffffc packLimits).run pack).pending.get? 0xfffffffe = some [1,2] := by
    decide +kernel
  have hw : ((start 0xfffffffc packLimits).run pack).Wants 0xfffffffe [1,2,1,2,1] := by
    intro held h
    rw [hheld] at h
    cases h
    decide
  have hfurthest : ((start 0xfffffffc packLimits).run pack).furthestFirst 0xfffffffe =
      [(9,[6,7,8]),(3,[3,4,5])] := by
    decide +kernel
  have hgrowth : ((start 0xfffffffc packLimits).run pack).growth 0xfffffffe [1,2,1,2,1] = 3 := by
    decide +kernel
  have hentries : ((start 0xfffffffc packLimits).run pack).newEntries 0xfffffffe = 0 := by
    decide +kernel
  have hmade : (((start 0xfffffffc packLimits).run pack).makeRoom 0xfffffffe 5 3 0).1 = true := by
    decide +kernel
  have ⟨_,_,hroom,_⟩ := makeRoom_exact hr.counted hw
  rw [hgrowth,hentries,hfurthest] at hroom
  have ⟨hgiven,hown⟩ := hroom hmade
  exact ⟨hfurthest,hmade,hown.trans hheld,hgiven⟩

end Receiver
end Reassembly
