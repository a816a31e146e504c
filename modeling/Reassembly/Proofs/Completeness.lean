import Reassembly.Proofs.Coverage
import Reassembly.Proofs.StoreInvariant

/-! Without caps a run of slices ends in a state that the set of its slices determines: neither
their order nor their repetition leaves a trace. -/
namespace Reassembly
namespace Slice

def startsAfter (X : Finset Slice) (n : ℕ) : Finset ℕ := (X.image Slice.offset).filter (n < ·)

/-- The longest of the slices that start at `k`. -/
def longestAt (X : Finset Slice) (k : ℕ) : Slice :=
  ⟨k,(X.filter fun x => x.offset = k).sup Slice.length⟩

end Slice

namespace Receiver

open Slice

/-- The state that a set of slices leads to: the bytes handed on reach as far as the slices cover
the stream from its beginning, and the longest slice waits at each start beyond. -/
structure Settled (S : Bytes) (initial : SeqNum) (X : Finset Slice) (r : Receiver) : Prop where
  reach : IsGreatest {m | m ≤ S.length ∧ ∀ j < m, ∃ x ∈ X, x.Covers j} r.stats.bytesDelivered
  next : r.nextSeq = initial.advance r.stats.bytesDelivered
  store : r.pending.entries.Perm ((startsAfter X r.stats.bytesDelivered).toList.map
    fun k => (initial.advance k,(longestAt X k).bytes S))
  counted : r.pendingBytes = ∑ k ∈ startsAfter X r.stats.bytesDelivered, (longestAt X k).length

theorem Settled.unique {S : Bytes} {initial : SeqNum} {X : Finset Slice} {r t : Receiver}
    (hr : Settled S initial X r) (ht : Settled S initial X t) :
    t.stats.bytesDelivered = r.stats.bytesDelivered ∧ t.nextSeq = r.nextSeq ∧
      t.pending = r.pending ∧ t.pendingBytes = r.pendingBytes := by
  have hreach := ht.reach.unique hr.reach
  have hstore := ht.store
  rw [hreach] at hstore
  refine ⟨hreach,?_,Pending.eq_of_perm (hstore.trans hr.store.symm),?_⟩
  · rw [ht.next,hr.next,hreach]
  · rw [ht.counted,hr.counted,hreach]

namespace Accounted

variable {S : Bytes} {initial : SeqNum} {r : Receiver} {seen : List Slice} {x y : Slice}

/-- A slice that reaches beyond the next position is the head of one that waits. -/
theorem waits (h : Accounted S initial r.stats.bytesDelivered seen r) (hx : x ∈ seen)
    (hstop : r.stats.bytesDelivered < x.stop) :
    ∃ y ∈ stock S initial r.stats.bytesDelivered r, x.HeadOf y := by
  rcases h.kept x hx with hle | ⟨y,hy,hoffset,hle⟩
  · exact absurd hstop (not_lt.mpr hle)
  · have hbeyond := hy.1.beyond
    have hstart : y.offset = x.offset := by omega
    simp only [stop] at hle
    exact ⟨y,hy,hstart,by omega⟩

theorem mem_seen (h : Accounted S initial r.stats.bytesDelivered seen r)
    (hy : y ∈ stock S initial r.stats.bytesDelivered r) : y ∈ seen :=
  (h.known y hy).resolve_right (not_le.mpr hy.1.beyond)

theorem longest (h : Accounted S initial r.stats.bytesDelivered seen r)
    (hy : y ∈ stock S initial r.stats.bytesDelivered r) :
    longestAt seen.toFinset y.offset = y := by
  have hlength : (seen.toFinset.filter fun x => x.offset = y.offset).sup Slice.length =
      y.length := by
    apply le_antisymm
    · refine Finset.sup_le fun x hx => ?_
      simp only [Finset.mem_filter,List.mem_toFinset] at hx
      have hbeyond := hy.1.beyond
      have hstop : r.stats.bytesDelivered < x.stop := by simp only [stop]; omega
      obtain ⟨z,hz,hhead⟩ := h.waits hx.1 hstop
      cases stock_unique hz hy (hhead.1.trans hx.2)
      exact hhead.2
    · exact Finset.le_sup (f := Slice.length) (by simp [h.mem_seen hy])
  rw [longestAt,hlength]

theorem mem_startsAfter (h : Accounted S initial r.stats.bytesDelivered seen r) {k : ℕ} :
    k ∈ startsAfter seen.toFinset r.stats.bytesDelivered ↔
      ∃ y ∈ stock S initial r.stats.bytesDelivered r, y.offset = k := by
  simp only [startsAfter,Finset.mem_filter,Finset.mem_image,List.mem_toFinset]
  constructor
  · rintro ⟨⟨x,hx,rfl⟩,hlt⟩
    have hstop : r.stats.bytesDelivered < x.stop := by simp only [stop]; omega
    obtain ⟨y,hy,hhead⟩ := h.waits hx hstop
    exact ⟨y,hy,hhead.1⟩
  · rintro ⟨y,hy,rfl⟩
    exact ⟨⟨y,h.mem_seen hy,rfl⟩,hy.1.beyond⟩

theorem reach (h : Accounted S initial r.stats.bytesDelivered seen r)
    (hr : r.stats.bytesDelivered ≤ S.length) :
    IsGreatest {m | m ≤ S.length ∧ ∀ j < m, ∃ x ∈ seen.toFinset, x.Covers j}
      r.stats.bytesDelivered := by
  constructor
  · refine ⟨hr,fun j hj => ?_⟩
    obtain ⟨x,hx,hcovers⟩ := h.covered j hj
    exact ⟨x,List.mem_toFinset.mpr hx,hcovers⟩
  · rintro m ⟨_,hall⟩
    by_contra hlt
    obtain ⟨x,hx,hstart,hstop⟩ := hall _ (not_le.mp hlt)
    obtain ⟨y,hy,hhead⟩ := h.waits (List.mem_toFinset.mp hx) hstop
    have hbeyond := hy.1.beyond
    have hoffset := hhead.1
    omega

theorem store (h : Accounted S initial r.stats.bytesDelivered seen r)
    (hr : Anchored S initial r.stats.bytesDelivered r) :
    r.pending.entries.Perm ((startsAfter seen.toFinset r.stats.bytesDelivered).toList.map
      fun k => (initial.advance k,(longestAt seen.toFinset k).bytes S)) := by
  have hnodup : ((startsAfter seen.toFinset r.stats.bytesDelivered).toList.map
      fun k => (initial.advance k,(longestAt seen.toFinset k).bytes S)).Nodup := by
    refine (Finset.nodup_toList _).map_on fun a ha b hb hab => ?_
    obtain ⟨y,hy,rfl⟩ := h.mem_startsAfter.mp (Finset.mem_toList.mp ha)
    obtain ⟨z,hz,rfl⟩ := h.mem_startsAfter.mp (Finset.mem_toList.mp hb)
    exact eq_of_advance hy.1 hz.1 (congrArg Prod.fst hab)
  apply (List.perm_ext_iff_of_nodup r.pending.entries_nodup hnodup).mpr
  rintro ⟨key,payload⟩
  simp only [← Pending.get?_eq_some_iff,List.mem_map,Finset.mem_toList,Prod.mk.injEq]
  constructor
  · intro hheld
    obtain ⟨y,hy,rfl,rfl⟩ := hr.waits hheld
    have hstock : y ∈ stock S initial r.stats.bytesDelivered r := ⟨hy,hheld⟩
    exact ⟨y.offset,h.mem_startsAfter.mpr ⟨y,hstock,rfl⟩,rfl,by rw [h.longest hstock]⟩
  · rintro ⟨k,hk,rfl,rfl⟩
    obtain ⟨y,hy,rfl⟩ := h.mem_startsAfter.mp hk
    rw [h.longest hy]
    exact hy.2

theorem settled (h : Accounted S initial r.stats.bytesDelivered seen r)
    (hr : Anchored S initial r.stats.bytesDelivered r) (hc : Consistent r) :
    Settled S initial seen.toFinset r := by
  refine ⟨h.reach hr.inside,hr.next,h.store hr,?_⟩
  calc
    r.pendingBytes = r.pending.bytes := hc.counted
    _ = (r.pending.entries.map (·.2.length)).sum := r.pending.bytes_eq_sum
    _ = (((startsAfter seen.toFinset r.stats.bytesDelivered).toList.map
        fun k => (initial.advance k,(longestAt seen.toFinset k).bytes S)).map (·.2.length)).sum :=
      ((h.store hr).map _).sum_eq
    _ = ∑ k ∈ startsAfter seen.toFinset r.stats.bytesDelivered,
        ((longestAt seen.toFinset k).bytes S).length := by
      rw [List.map_map]
      exact Finset.sum_map_toList _ _
    _ = _ := by
      refine Finset.sum_congr rfl fun k hk => ?_
      obtain ⟨y,hy,rfl⟩ := h.mem_startsAfter.mp hk
      rw [h.longest hy,hy.1.length_bytes]

end Accounted

def uncapped (initial : SeqNum) (overflow : Overflow) (sink : ℕ) : Receiver :=
  (start initial {overflow}).setSink sink

theorem uncapped_consistent (initial : SeqNum) (overflow : Overflow) (sink : ℕ) (ops : List Op) :
    Consistent ((uncapped initial overflow sink).run ops) :=
  run_consistent ops ((consistent_start initial {overflow}).congr rfl rfl rfl)

theorem uncapped_settled {S : Bytes} {initial : SeqNum} {overflow : Overflow} {sink : ℕ}
    {xs : List Slice} (h : SlicesInWindow S initial (uncapped initial overflow sink) xs) :
    Settled S initial xs.toFinset
      ((uncapped initial overflow sink).run (Slice.ops S initial xs)) := by
  have hr : Anchored S initial 0 (uncapped initial overflow sink) :=
    anchored_start S initial {overflow} sink
  have ha := run_accounted h hr rfl (accounted_start S initial {overflow} sink)
  exact ha.settled (run_anchored h hr).1 (uncapped_consistent initial overflow sink _)

theorem Anchored.pending_eq_empty {S : Bytes} {initial : SeqNum} {r : Receiver}
    (h : Anchored S initial r.stats.bytesDelivered r) (hall : r.stats.bytesDelivered = S.length) :
    r.pending = .empty := by
  have hnone : r.pending.entries = [] := by
    refine List.eq_nil_iff_forall_not_mem.mpr ?_
    rintro ⟨key,payload⟩ hmem
    obtain ⟨y,hy,_,_⟩ := h.waits (Pending.get?_eq_some_iff.mpr hmem)
    have hbeyond := hy.beyond
    have hlt := hy.offset_lt_stop
    have hinside := hy.inside
    omega
  exact Pending.eq_of_perm (by simp [hnone,Pending.empty])

/-- Without caps the slices of a run alone determine how it ends, and slices that cover the stream
deliver it. -/
theorem run_settles (S : Bytes) (initial : SeqNum) (overflow : Overflow) (sink : ℕ)
    (xs : List Slice) (h : SlicesInWindow S initial (uncapped initial overflow sink) xs) :
    let r := uncapped initial overflow sink
    let t := r.run (Slice.ops S initial xs)
    let data := r.taken (Slice.ops S initial xs)
    Settled S initial xs.toFinset t ∧ data = S.take t.stats.bytesDelivered ∧
      (∀ overflow' sink' ys, SlicesInWindow S initial (uncapped initial overflow' sink') ys →
        ys.toFinset = xs.toFinset →
        let r' := uncapped initial overflow' sink'
        let t' := r'.run (Slice.ops S initial ys)
        r'.taken (Slice.ops S initial ys) = data ∧
          t'.stats.bytesDelivered = t.stats.bytesDelivered ∧ t'.nextSeq = t.nextSeq ∧
          t'.pending = t.pending ∧ t'.pendingBytes = t.pendingBytes) ∧
      ((∀ j < S.length, ∃ x ∈ xs, x.Covers j) →
        data = S ∧ t.pending = .empty ∧ t.pendingBytes = 0) := by
  intro r t data
  have hr : Anchored S initial r.stats.bytesDelivered r :=
    anchored_start S initial {overflow} sink
  have ht : Settled S initial xs.toFinset t := uncapped_settled h
  have hdata : data = S.take t.stats.bytesDelivered := taken_slices {overflow} sink h
  refine ⟨ht,hdata,?_,fun hcover => ?_⟩
  · intro overflow' sink' ys hys hset r' t'
    have hsame := ht.unique (hset ▸ uncapped_settled hys)
    have hdata' : r'.taken (Slice.ops S initial ys) = S.take t'.stats.bytesDelivered :=
      taken_slices {overflow := overflow'} sink' hys
    exact ⟨by rw [hdata',hdata,hsame.1],hsame⟩
  · have hall : t.stats.bytesDelivered = S.length := by
      apply le_antisymm ht.reach.1.1
      refine ht.reach.2 ⟨le_rfl,fun j hj => ?_⟩
      obtain ⟨x,hx,hcovers⟩ := hcover j hj
      exact ⟨x,List.mem_toFinset.mpr hx,hcovers⟩
    have hempty : t.pending = .empty := (run_anchored h hr).1.pending_eq_empty hall
    refine ⟨by rw [hdata,hall,List.take_length],hempty,?_⟩
    rw [(uncapped_consistent initial overflow sink _).counted,hempty,Pending.bytes_empty]

def scattered : List Slice := [⟨9,1⟩,⟨3,4⟩,⟨9,3⟩,⟨5,3⟩,⟨3,2⟩,⟨0,2⟩,⟨1,3⟩]

/-- The same slices, of which two come again, in another order. -/
def regathered : List Slice := [⟨0,2⟩,⟨9,3⟩,⟨3,2⟩,⟨5,3⟩,⟨1,3⟩,⟨9,1⟩,⟨3,4⟩,⟨0,2⟩,⟨5,3⟩]

theorem settled_of_regathered :
    SlicesInWindow letters 0xfffffffc (uncapped 0xfffffffc .dropNew 7) scattered ∧
      SlicesInWindow letters 0xfffffffc (uncapped 0xfffffffc .evictFurthest 8) regathered ∧
      (uncapped 0xfffffffc .evictFurthest 8).taken (Slice.ops letters 0xfffffffc regathered) =
        letters.take 8 ∧
      ((uncapped 0xfffffffc .evictFurthest 8).run
        (Slice.ops letters 0xfffffffc regathered)).pending.entries = [(5,[9,10,11])] := by
  have h : SlicesInWindow letters 0xfffffffc (uncapped 0xfffffffc .dropNew 7) scattered := by
    decide +kernel
  have h' : SlicesInWindow letters 0xfffffffc (uncapped 0xfffffffc .evictFurthest 8)
      regathered := by decide +kernel
  have hcount : ((uncapped 0xfffffffc .dropNew 7).run
      (Slice.ops letters 0xfffffffc scattered)).stats.bytesDelivered = 8 := by decide +kernel
  have hwaits : ((uncapped 0xfffffffc .dropNew 7).run
      (Slice.ops letters 0xfffffffc scattered)).pending.entries = [(5,[9,10,11])] := by
    decide +kernel
  have ⟨_,hdata,hother,_⟩ := run_settles letters 0xfffffffc .dropNew 7 scattered h
  have ⟨hdata',_,_,hpending,_⟩ := hother .evictFurthest 8 regathered h' (by decide)
  exact ⟨h,h',hdata'.trans (hcount ▸ hdata),hpending ▸ hwaits⟩

end Receiver
end Reassembly
