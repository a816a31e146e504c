import Mathlib.Tactic
import Reassembly.Receiver.Basic

/-! Positions on the circle in terms of natural numbers. A position is `base.advance x` for an
offset `x` into the stream; as long as two offsets are less than half the circle apart, the
circular comparison of their positions is the comparison of the offsets. -/
namespace Reassembly
namespace SeqNum

theorem toNat_advance (s : SeqNum) (n : ℕ) : (s.advance n).toNat = (s.toNat+n) % 2^32 := by
  simp [advance,UInt32.toNat_add]

theorem distance_eq (a b : SeqNum) : distance a b = (2^32-a.toNat+b.toNat) % 2^32 := by
  simp [distance,UInt32.toNat_sub]

@[simp] theorem advance_distance (a b : SeqNum) : a.advance (distance a b) = b := by
  have ha := a.toNat_lt
  have hb := b.toNat_lt
  apply UInt32.toNat_inj.mp
  rw [toNat_advance,distance_eq]
  omega

theorem distance_advance (base : SeqNum) {x y : ℕ} (hle : x ≤ y) (hlt : y < x+2^32) :
    distance (base.advance x) (base.advance y) = y-x := by
  rw [distance_eq,toNat_advance,toNat_advance]
  omega

theorem distance_advance_self (a : SeqNum) {n : ℕ} (hn : n < 2^32) :
    distance a (a.advance n) = n := by
  simpa using distance_advance a (Nat.zero_le n) (by omega)

theorem advance_inj (base : SeqNum) {x y : ℕ} (h : base.advance x = base.advance y)
    (hx : x < y+2^32) (hy : y < x+2^32) : x = y := by
  have h' := congrArg UInt32.toNat h
  rw [toNat_advance,toNat_advance] at h'
  omega

theorem distance_inj {a b b' : SeqNum} : distance a b = distance a b' ↔ b = b' := by
  constructor
  · intro h
    rw [← advance_distance a b,h,advance_distance]
  · rintro rfl; rfl

theorem distance_eq_zero {a b : SeqNum} : distance a b = 0 ↔ a = b := by
  constructor
  · intro h; simpa [h] using advance_distance a b
  · rintro rfl; exact distance_self a

theorem compare_eq_before {a b : SeqNum} :
    compare a b = .before ↔ 0 < distance a b ∧ distance a b < 2^31 := by
  have hsub : b-a < halfSpace ↔ distance a b < 2^31 := UInt32.lt_iff_toNat_lt
  unfold compare
  split
  · rename_i heq
    simp [heq]
  · rename_i hne
    have hpos : 0 < distance a b := Nat.pos_of_ne_zero (mt distance_eq_zero.mp hne)
    split <;> simp_all

theorem compare_eq_after {a b : SeqNum} : compare a b = .after ↔ 2^31 ≤ distance a b := by
  have hb := compare_eq_before (a:=a) (b:=b)
  have he := compare_eq_equal (a:=a) (b:=b)
  cases h : compare a b with
  | equal =>
    have hab : a = b := he.mp h
    subst b
    simp
  | before =>
    have hlt := (hb.mp h).2
    simp only [reduceCtorEq,false_iff]
    omega
  | after =>
    have hpos : distance a b ≠ 0 := fun h0 => by simp [he.mpr (distance_eq_zero.mp h0)] at h
    have hnb : ¬(0 < distance a b ∧ distance a b < 2^31) := fun hd => by simp [hb.mpr hd] at h
    simp only [true_iff]
    omega

/-- Within half the circle positions compare as their offsets do; an offset that is exactly half
the circle ahead still counts as ahead. -/
theorem compare_advance (base : SeqNum) {x y : ℕ} (hy : y < x+2^31) (hx : x ≤ y+2^31) :
    compare (base.advance x) (base.advance y) =
      if x < y then .before else if x = y then .equal else .after := by
  split
  · rename_i hlt
    rw [compare_eq_before,distance_advance base (by omega) (by omega)]
    omega
  · split
    · rename_i heq
      simp [heq]
    · rw [compare_eq_after,distance_eq,toNat_advance,toNat_advance]
      omega

theorem compare_of_lt_distance {a b : SeqNum} {n : ℕ} (h : compare a b = .before)
    (hn : n < distance a b) : compare (a.advance n) b = .before := by
  have hd := (compare_eq_before.mp h).2
  have hc := compare_advance a (x:=n) (y:=distance a b) (by omega) (by omega)
  rwa [advance_distance,if_pos hn] at hc

theorem distance_lt_of_reaches {a b : SeqNum} {n : ℕ} (h : compare a b = .before)
    (hn : compare (a.advance n) b = .after) : distance a b < n := by
  by_contra hle
  rcases Nat.lt_or_eq_of_le (not_lt.mp hle) with hlt | rfl
  · simp [compare_of_lt_distance h hlt] at hn
  · simp at hn

theorem compare_ne_after {a b : SeqNum} : compare a b ≠ .after ↔ distance a b < 2^31 := by
  rw [Ne,compare_eq_after,not_le]

/-- Data shorter than half the circle reaches beyond a position ahead of it exactly if it covers
more than the way to it. -/
theorem reaches_iff {a b : SeqNum} {n : ℕ} (h : compare a b ≠ .after) (hn : n < 2^31) :
    compare (a.advance n) b = .after ↔ distance a b < n := by
  have hd := compare_ne_after.mp h
  have hc := compare_advance a (x:=n) (y:=distance a b) (by omega) (by omega)
  rw [advance_distance] at hc
  rw [hc]
  split
  · simp only [reduceCtorEq,false_iff]
    omega
  · split
    · simp only [reduceCtorEq,false_iff]
      omega
    · simp only [true_iff]
      omega

theorem distance_advance_right {a b : SeqNum} {n : ℕ} (h : distance a b+n < 2^32) :
    distance a (b.advance n) = distance a b+n := by
  have hb : b.advance n = a.advance (distance a b+n) := by
    rw [← advance_advance,advance_distance]
  rw [hb,distance_advance_self a h]

theorem distance_inj_left {a a' b : SeqNum} : distance a b = distance a' b ↔ a = a' := by
  refine ⟨fun h => ?_,fun h => h ▸ rfl⟩
  have hn := a.toNat_lt
  have hn' := a'.toNat_lt
  have hb := b.toNat_lt
  rw [distance_eq,distance_eq] at h
  apply UInt32.toNat_inj.mp
  omega

end SeqNum

namespace Receiver

theorem rank_eq (r : Receiver) (key : SeqNum) :
    r.rank key = (SeqNum.distance r.nextSeq key + (2^31-1)) % 2^32 := by
  have hn := r.nextSeq.toNat_lt
  have hk := key.toNat_lt
  have hh : (SeqNum.halfSpace+1).toNat = 2^31+1 := rfl
  simp only [rank,origin,SeqNum.distance_eq,UInt32.toNat_add (SeqNum.halfSpace+1),hh]
  omega

/-- In circular order the positions behind the next one come first, then itself, then the rest. -/
theorem compare_eq_rank (r : Receiver) (key : SeqNum) :
    SeqNum.compare key r.nextSeq =
      if r.rank key < 2^31-1 then .before else if r.rank key = 2^31-1 then .equal else .after := by
  have hn := r.nextSeq.toNat_lt
  have hk := key.toNat_lt
  split
  · rename_i h
    rw [rank_eq,SeqNum.distance_eq] at h
    rw [SeqNum.compare_eq_before,SeqNum.distance_eq]
    omega
  · rename_i h
    split
    · rename_i h'
      rw [rank_eq,SeqNum.distance_eq] at h'
      rw [SeqNum.compare_eq_equal]
      apply UInt32.toNat_inj.mp
      omega
    · rename_i h'
      rw [rank_eq,SeqNum.distance_eq] at h h'
      rw [SeqNum.compare_eq_after,SeqNum.distance_eq]
      omega

end Receiver
end Reassembly
