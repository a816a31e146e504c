import Reassembly.Proofs.PrefixDelivery

/-! Without caps no slice is ever lost: each offset of a slice taken in is handed on or waits, and
nothing else does. -/
namespace Reassembly
namespace Slice

def Covers (x : Slice) (j : ℕ) : Prop := x.offset ≤ j ∧ j < x.stop

/-- The other slice starts at the same offset and is not shorter. -/
def HeadOf (x y : Slice) : Prop := y.offset = x.offset ∧ x.length ≤ y.length

theorem HeadOf.refl (x : Slice) : x.HeadOf x := ⟨rfl,le_rfl⟩

theorem HeadOf.stop_le {x y : Slice} (h : x.HeadOf y) : x.stop ≤ y.stop := by
  rw [stop,stop,h.1]
  exact Nat.add_le_add_left h.2 x.offset

def Covered (xs : List Slice) (j : ℕ) : Prop := ∃ x ∈ xs, x.Covers j

theorem Covered.append {xs : List Slice} {j : ℕ} (h : Covered xs j) (ys : List Slice) :
    Covered (xs++ys) j := by
  obtain ⟨x,hx,hj⟩ := h
  exact ⟨x,List.mem_append_left ys hx,hj⟩

end Slice

namespace Receiver

open Slice

/-- The slices that wait in the half of the circle ahead of offset `n₀`. -/
def stock (S : Bytes) (initial : SeqNum) (n₀ : ℕ) (r : Receiver) : Set Slice :=
  {y | y.Ahead S n₀ ∧ r.pending.get? (initial.advance y.offset) = some (y.bytes S)}

variable {S : Bytes} {initial : SeqNum} {n₀ : ℕ} {r t : Receiver} {events : List Event}
  {seen : List Slice} {x y z : Slice}

theorem eq_of_advance (hy : y.Ahead S n₀) (hz : z.Ahead S n₀)
    (h : initial.advance y.offset = initial.advance z.offset) : y.offset = z.offset :=
  hy.offset_eq hz (by omega) (by omega) h

theorem advance_ne (hy : y.Ahead S n₀) (hz : z.Ahead S n₀) (h : y.offset ≠ z.offset) :
    initial.advance y.offset ≠ initial.advance z.offset :=
  fun heq => h (eq_of_advance hy hz heq)

theorem stock_unique (hy : y ∈ stock S initial n₀ r) (hz : z ∈ stock S initial n₀ r)
    (h : y.offset = z.offset) : y = z := by
  obtain ⟨hy,hy'⟩ := hy
  obtain ⟨hz,hz'⟩ := hz
  rw [h,hz'] at hy'
  exact hy.eq_of_bytes hz.toInStream h (Option.some.inj hy').symm

theorem mem_stock_of_anchored {m : ℕ} (hy : y ∈ stock S initial m r)
    (hr : Anchored S initial n₀ r) (hm : m ≤ n₀+2^31) (hn : n₀ ≤ m+2^31) :
    y ∈ stock S initial n₀ r := by
  obtain ⟨hy,hheld⟩ := hy
  obtain ⟨z,hz,hkey,hbytes⟩ := hr.waits hheld
  have hoffset := hy.offset_eq hz hm hn hkey
  cases hy.eq_of_bytes hz.toInStream hoffset hbytes
  exact ⟨hz,hheld⟩

theorem stock_congr (h : t.pending = r.pending) :
    stock S initial n₀ t = stock S initial n₀ r := by simp [stock,h]

theorem mem_stock_without (hy : y.Ahead S n₀) :
    z ∈ stock S initial n₀ (r.without (initial.advance y.offset) (y.bytes S)) ↔
      z ∈ stock S initial n₀ r ∧ z.offset ≠ y.offset := by
  simp only [stock,Set.mem_ofPred_eq,without_pending,Pending.get?_erase]
  by_cases h : z.offset = y.offset
  · simp [h]
  · have hne : z.Ahead S n₀ → initial.advance z.offset ≠ initial.advance y.offset :=
      fun hz => advance_ne hz hy h
    constructor
    · rintro ⟨hz,hk⟩
      exact ⟨⟨hz,by simpa [hne hz] using hk⟩,h⟩
    · rintro ⟨⟨hz,hk⟩,_⟩
      exact ⟨hz,by simpa [hne hz] using hk⟩

theorem Sheds.eq_of_uncapped {seq : SeqNum} (h : Sheds seq r t events)
    (hu : r.limits.isBounded = false) : t = r := by
  cases h with
  | done => rfl
  | evict capped => simp [hu] at capped

/-- What filing a slice does to those that wait, when there are no caps. -/
structure StocksUp (S : Bytes) (initial : SeqNum) (n₀ : ℕ) (x : Slice) (r t : Receiver) :
    Prop where
  takes : ∃ z ∈ stock S initial n₀ t, x.HeadOf z
  keeps : ∀ y ∈ stock S initial n₀ r, ∃ z ∈ stock S initial n₀ t, y.HeadOf z
  knows : ∀ z ∈ stock S initial n₀ t, z = x ∨ z ∈ stock S initial n₀ r

theorem stocksUp_holding {growth : ℕ} (hx : x.Ahead S n₀)
    (hlong : ∀ y ∈ stock S initial n₀ r, y.offset = x.offset → y.length ≤ x.length) :
    StocksUp S initial n₀ x r (r.holding (initial.advance x.offset) (x.bytes S) growth) := by
  have hmem : x ∈ stock S initial n₀ (r.holding (initial.advance x.offset) (x.bytes S) growth) :=
    ⟨hx,by simp [holding]⟩
  refine ⟨⟨x,hmem,.refl x⟩,fun y hy => ?_,fun z hz => ?_⟩
  · by_cases h : y.offset = x.offset
    · exact ⟨x,hmem,h.symm,hlong y hy h⟩
    · have hne : initial.advance y.offset ≠ initial.advance x.offset := advance_ne hy.1 hx h
      exact ⟨y,⟨hy.1,by simpa [holding,hne] using hy.2⟩,.refl y⟩
  · by_cases h : z.offset = x.offset
    · exact .inl (stock_unique hz hmem h)
    · have hne : initial.advance z.offset ≠ initial.advance x.offset := advance_ne hz.1 hx h
      exact .inr ⟨hz.1,by simpa [holding,hne] using hz.2⟩

theorem Filed.stocksUp {filing : Filing}
    (h : Filed r (initial.advance x.offset) (x.bytes S) filing t events)
    (hr : Anchored S initial n₀ r) (hu : r.limits.isBounded = false) (hx : x.Ahead S n₀) :
    StocksUp S initial n₀ x r t := by
  cases h with
  | kept waits short =>
    obtain ⟨y,hy,hkey,rfl⟩ := hr.waits waits
    have hoffset := eq_of_advance hx hy hkey
    rw [hx.length_bytes,hy.length_bytes] at short
    rw [hkey] at waits
    exact ⟨⟨y,⟨hy,waits⟩,hoffset.symm,short⟩,fun z hz => ⟨z,hz,.refl z⟩,fun z hz => .inr hz⟩
  | rejected capped => simp [hu] at capped
  | inserted free shed =>
    cases shed.eq_of_uncapped hu
    refine stocksUp_holding hx fun y hy hoffset => ?_
    have hheld := hy.2
    simp [hoffset,free] at hheld
  | replaced waits long shed =>
    cases shed.eq_of_uncapped hu
    refine stocksUp_holding hx fun y hy hoffset => ?_
    have hheld := hy.2
    rw [hoffset,waits] at hheld
    rw [Option.some.inj hheld,hx.length_bytes,hy.1.length_bytes] at long
    exact long.le

/-- Every offset handed on was seen, every slice seen is handed on or waits, and what waits was
seen; what does not start ahead of the next position may be pieced together. -/
structure Accounted (S : Bytes) (initial : SeqNum) (n₀ : ℕ) (seen : List Slice) (r : Receiver) :
    Prop where
  covered : ∀ j < r.stats.bytesDelivered, Covered seen j
  kept : ∀ x ∈ seen, x.stop ≤ r.stats.bytesDelivered ∨ ∃ y ∈ stock S initial n₀ r,
    (y.offset = x.offset ∨ y.offset ≤ r.stats.bytesDelivered) ∧ x.stop ≤ y.stop
  known : ∀ y ∈ stock S initial n₀ r, y ∈ seen ∨ y.offset ≤ r.stats.bytesDelivered
  sound : ∀ y ∈ stock S initial n₀ r, ∀ j, y.Covers j → Covered seen j

namespace Accounted

/-- A slice that the next position has reached may leave once it is handed on. -/
theorem withdraw (h : Accounted S initial n₀ seen r) (hy : y ∈ stock S initial n₀ r)
    (hstart : y.offset ≤ r.stats.bytesDelivered)
    (hcount : t.stats.bytesDelivered = max r.stats.bytesDelivered y.stop)
    (hstock : ∀ {z}, z ∈ stock S initial n₀ t ↔ z ∈ stock S initial n₀ r ∧ z.offset ≠ y.offset) :
    Accounted S initial n₀ seen t where
  covered := fun j hj => by
    by_cases hlt : j < r.stats.bytesDelivered
    · exact h.covered j hlt
    · exact h.sound y hy j ⟨by omega,by omega⟩
  kept := fun x hx => by
    rcases h.kept x hx with hstop | ⟨z,hz,hoffset,hstop⟩
    · exact .inl (by omega)
    · by_cases hzy : z.offset = y.offset
      · rw [stock_unique hz hy hzy] at hstop
        exact .inl (by omega)
      · exact .inr ⟨z,hstock.mpr ⟨hz,hzy⟩,by omega,hstop⟩
  known := fun z hz => (h.known z (hstock.mp hz).1).imp_right (by omega)
  sound := fun z hz => h.sound z (hstock.mp hz).1

/-- What is left of a slice that the next position has passed may wait in its place. -/
theorem cut (h : Accounted S initial n₀ seen r) (hy : y ∈ stock S initial n₀ r)
    (hstart : y.offset ≤ r.stats.bytesDelivered) (hstop : r.stats.bytesDelivered < y.stop)
    (hcount : t.stats.bytesDelivered = r.stats.bytesDelivered)
    (hup : StocksUp S initial n₀ (y.after r.stats.bytesDelivered)
      (r.without (initial.advance y.offset) (y.bytes S)) t) : Accounted S initial n₀ seen t := by
  have hend := stop_after hstop.le
  have hbegin : (y.after r.stats.bytesDelivered).offset = r.stats.bytesDelivered := rfl
  refine ⟨by rw [hcount]; exact h.covered,fun x hx => ?_,fun z hz => ?_,fun z hz j hj => ?_⟩
  · rw [hcount]
    rcases h.kept x hx with hle | ⟨z,hz,hoffset,hle⟩
    · exact .inl hle
    · by_cases hzy : z.offset = y.offset
      · obtain ⟨w,hw,hrest⟩ := hup.takes
        rw [stock_unique hz hy hzy] at hle
        exact .inr ⟨w,hw,.inr (hrest.1.trans hbegin).le,(hle.trans hend.ge).trans hrest.stop_le⟩
      · obtain ⟨w,hw,hhead⟩ := hup.keeps z ((mem_stock_without hy.1).mpr ⟨hz,hzy⟩)
        exact .inr ⟨w,hw,by rw [hhead.1]; exact hoffset,hle.trans hhead.stop_le⟩
  · rw [hcount]
    rcases hup.knows z hz with rfl | hz
    · exact .inr hbegin.le
    · exact h.known z ((mem_stock_without hy.1).mp hz).1
  · rcases hup.knows z hz with rfl | hz
    · exact h.sound y hy j ⟨hstart.trans hj.1,hj.2.trans_eq hend⟩
    · exact h.sound z ((mem_stock_without hy.1).mp hz).1 j hj

/-- A new slice may be handed on from the next position on, or wait. -/
theorem add (h : Accounted S initial n₀ seen r)
    (hcount : r.stats.bytesDelivered ≤ t.stats.bytesDelivered)
    (hcovers : ∀ j, r.stats.bytesDelivered ≤ j → j < t.stats.bytesDelivered → x.Covers j)
    (hx : x.stop ≤ t.stats.bytesDelivered ∨ ∃ z ∈ stock S initial n₀ t, x.HeadOf z)
    (hkeeps : ∀ y ∈ stock S initial n₀ r, ∃ z ∈ stock S initial n₀ t, y.HeadOf z)
    (hknows : ∀ z ∈ stock S initial n₀ t, z = x ∨ z ∈ stock S initial n₀ r) :
    Accounted S initial n₀ (seen ++ [x]) t := by
  refine ⟨fun j hj => ?_,fun y hy => ?_,fun z hz => ?_,fun z hz j hj => ?_⟩
  · by_cases hlt : j < r.stats.bytesDelivered
    · exact (h.covered j hlt).append [x]
    · exact ⟨x,by simp,hcovers j (not_lt.mp hlt) hj⟩
  · rcases List.mem_append.mp hy with hy | hy
    · rcases h.kept y hy with hle | ⟨z,hz,hoffset,hle⟩
      · exact .inl (hle.trans hcount)
      · obtain ⟨w,hw,hhead⟩ := hkeeps z hz
        refine .inr ⟨w,hw,?_,hle.trans hhead.stop_le⟩
        rw [hhead.1]
        exact hoffset.imp_right hcount.trans'
    · cases List.mem_singleton.mp hy
      refine hx.imp_right ?_
      rintro ⟨z,hz,hhead⟩
      exact ⟨z,hz,.inl hhead.1,hhead.stop_le⟩
  · rcases hknows z hz with rfl | hz
    · exact .inl (by simp)
    · exact (h.known z hz).imp (List.mem_append_left _) hcount.trans'
  · rcases hknows z hz with rfl | hz
    · exact ⟨z,by simp,hj⟩
    · exact (h.sound z hz j hj).append [x]

end Accounted

theorem SliceRound.accounted (h : SliceRound S initial n₀ r t events)
    (hr : Anchored S initial n₀ r) (hu : r.limits.isBounded = false)
    (ha : Accounted S initial n₀ seen r) : Accounted S initial n₀ seen t := by
  have hlow := hr.low
  cases h with
  | @handOn y ahead starts held =>
    refine ha.withdraw ⟨ahead,held⟩ starts.le ?_ (mem_stock_without ahead)
    have hlt := ahead.offset_lt_stop
    simp only [Receiver.deliver,without_stats,ahead.length_bytes,← starts]
    exact (max_eq_right hlt.le).symm
  | @refile y filing t note es ahead starts stops held filed =>
    have hbeyond := ahead.beyond
    have hrest := ahead.after (by omega) stops
    exact ha.cut ⟨ahead,held⟩ starts.le stops filed.still.handed
      (filed.stocksUp (hr.without _ _) hu hrest)
  | discard ahead starts stops held =>
    exact ha.withdraw ⟨ahead,held⟩ starts.le (max_eq_left stops).symm (mem_stock_without ahead)

theorem Drains.accounted (h : Drains r t events) (hr : Anchored S initial n₀ r)
    (hu : r.limits.isBounded = false) (ha : Accounted S initial n₀ seen r) :
    Accounted S initial n₀ seen t := by
  induction h with
  | done => exact ha
  | round first _ ih =>
    have hslices := first.slices hr
    exact ih (hslices.anchored hr).1 (first.setup.limits ▸ hu) (hslices.accounted hr hu ha)

theorem SlicePlaced.accounted {outcome : Outcome}
    (h : SlicePlaced S initial x r outcome t events) (hx : x.InStream S)
    (hw : x.InWindow r.stats.bytesDelivered) (hr : Anchored S initial r.stats.bytesDelivered r)
    (hu : r.limits.isBounded = false)
    (ha : Accounted S initial r.stats.bytesDelivered seen r) :
    Accounted S initial r.stats.bytesDelivered (seen ++ [x]) t := by
  cases h with
  | old stops =>
    exact ha.add le_rfl (fun j h₁ h₂ => absurd h₂ (not_lt.mpr h₁)) (.inl stops)
      (fun y hy => ⟨y,hy,.refl y⟩) (fun z hz => .inr hz)
  | @reached s notes trimmed starts stops still same =>
    have hend := stop_after stops.le
    have hcount : (s.deliver ((x.after r.stats.bytesDelivered).bytes S)).1.stats.bytesDelivered =
        x.stop := by
      simp only [Receiver.deliver,still.handed,(hx.after stops).length_bytes]
      exact hend
    have hstock : stock S initial r.stats.bytesDelivered
        (s.deliver ((x.after r.stats.bytesDelivered).bytes S)).1 =
          stock S initial r.stats.bytesDelivered r := stock_congr same
    refine ha.add (hcount ▸ stops.le) (fun j h₁ h₂ => ⟨starts.trans h₁,hcount ▸ h₂⟩)
      (.inl hcount.ge) (fun y hy => ⟨y,hstock ▸ hy,.refl y⟩) (fun z hz => .inr (hstock ▸ hz))
  | @ahead filing s es starts filed =>
    have hup := filed.stocksUp hr hu ⟨hx,starts,hw.near⟩
    have hstock : stock S initial r.stats.bytesDelivered (s.countFiling filing) =
        stock S initial r.stats.bytesDelivered s := by cases filing <;> rfl
    have hcount : (s.countFiling filing).stats.bytesDelivered = r.stats.bytesDelivered := by
      cases filing <;> exact filed.still.handed
    refine ha.add hcount.ge (fun j h₁ h₂ => absurd (hcount ▸ h₂) (not_lt.mpr h₁)) (.inr ?_) ?_ ?_
    · exact hstock ▸ hup.takes
    · exact hstock ▸ hup.keeps
    · exact hstock ▸ hup.knows

theorem Accounted.rebase (h : Accounted S initial n₀ seen r) (hr : Anchored S initial n₀ r)
    (hr' : Anchored S initial r.stats.bytesDelivered r) :
    Accounted S initial r.stats.bytesDelivered seen r := by
  have hlow := hr.low
  have hhigh := hr.high
  have hstock : stock S initial r.stats.bytesDelivered r = stock S initial n₀ r := by
    ext y
    exact ⟨fun hy => mem_stock_of_anchored hy hr hhigh (by omega),
      fun hy => mem_stock_of_anchored hy hr' (by omega) hhigh⟩
  exact ⟨h.covered,hstock ▸ h.kept,hstock ▸ h.known,hstock ▸ h.sound⟩

theorem Ingested.accounted {outcome : Outcome}
    (h : Ingested r (initial.advance x.offset) (x.bytes S) outcome t events) (hx : x.InStream S)
    (hw : x.InWindow r.stats.bytesDelivered) (hr : Anchored S initial r.stats.bytesDelivered r)
    (hu : r.limits.isBounded = false)
    (ha : Accounted S initial r.stats.bytesDelivered seen r) :
    Accounted S initial t.stats.bytesDelivered (seen ++ [x]) t := by
  have ht := (h.anchored hx hw hr).1
  cases h with
  | empty nothing => exact absurd nothing hx.bytes_ne_nil
  | taken some placed drained =>
    have hc := hr.countSegment
    have hac : Accounted S initial r.stats.bytesDelivered seen r.countSegment :=
      ⟨ha.covered,ha.kept,ha.known,ha.sound⟩
    have hplaced := placed.slice hc.next hx hw
    have hs := (hplaced.anchored hx hw hc).1
    have hsu := (congrArg Limits.isBounded placed.setup.limits).trans hu
    have has := hplaced.accounted hx hw hc hu hac
    exact (drained.accounted hs hsu has).rebase (drained.anchored hs).1 ht

theorem accounted_start (S : Bytes) (initial : SeqNum) (limits : Limits) (sink : ℕ) :
    Accounted S initial 0 [] ((start initial limits).setSink sink) := by
  refine ⟨by simp [start,setSink],by simp,?_,?_⟩ <;> simp [stock,start,setSink]

theorem run_accounted {xs : List Slice} (h : SlicesInWindow S initial r xs)
    (hr : Anchored S initial r.stats.bytesDelivered r) (hu : r.limits.isBounded = false)
    (ha : Accounted S initial r.stats.bytesDelivered seen r) :
    Accounted S initial (r.run (Slice.ops S initial xs)).stats.bytesDelivered (seen ++ xs)
      (r.run (Slice.ops S initial xs)) := by
  induction xs generalizing r seen with
  | nil =>
    rw [List.append_nil]
    exact ha
  | cons x xs ih =>
    have ⟨hx,hw,hxs⟩ := h
    have hfirst := ingest_ingested r (initial.advance x.offset) (x.bytes S)
    have hs := (hfirst.anchored hx hw hr).1
    have hsu := (congrArg Limits.isBounded hfirst.setup.limits).trans hu
    have hall := ih hxs hs hsu (hfirst.accounted hx hw hr hu ha)
    rwa [List.append_assoc] at hall

end Receiver
end Reassembly
