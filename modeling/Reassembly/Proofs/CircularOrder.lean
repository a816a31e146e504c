import Reassembly.Proofs.AtRest

/-! The circle seen from a stream and from the next position. Offsets less than half the circle
apart lie on it as they lie on the line, and seen from the next position what is behind it comes
before it, the furthest first, and what is ahead of it after it, the nearest first. The first and
the furthest start of a receiver are the least and the greatest in this order. -/
namespace Reassembly
namespace SeqNum

def ofOffset (base x : ℕ) : SeqNum := .ofNat ((base+x)%2^32)

variable {base x y : ℕ} {next a b : SeqNum}

theorem ofOffset_eq_advance (base x : ℕ) : ofOffset base x = advance (.ofNat base) x := by
  apply UInt32.toNat_inj.mp
  simp [ofOffset,toNat_advance]

theorem compare_ofOffset_of_near (h : |(x:ℤ)-y| < 2^31) :
    compare (ofOffset base x) (ofOffset base y) =
      if x < y then .before else if x = y then .equal else .after := by
  have ⟨hlow,hhigh⟩ := abs_lt.mp h
  rw [ofOffset_eq_advance,ofOffset_eq_advance]
  exact compare_advance _ (by omega) (by omega)

theorem distance_ofOffset (hle : x ≤ y) (hlt : y-x < 2^32) :
    distance (ofOffset base x) (ofOffset base y) = y-x := by
  rw [ofOffset_eq_advance,ofOffset_eq_advance]
  exact distance_advance _ hle (by omega)

theorem compare_ofOffset_of_opposite (h : |(x:ℤ)-y| = 2^31) :
    compare (ofOffset base x) (ofOffset base y) = .after := by
  rcases le_total x y with hle | hle
  · rw [abs_of_nonpos (by omega)] at h
    rw [compare_eq_after,distance_ofOffset hle (by omega)]
    omega
  · -- The way forward from the larger offset leads past the wrap, so its distance is no difference.
    rw [abs_of_nonneg (by omega)] at h
    rw [ofOffset_eq_advance,ofOffset_eq_advance,compare_advance _ (by omega) (by omega),
      if_neg (by omega),if_neg (by omega)]

/-- Positions compare as offsets less than half the circle apart do, exactly half of it apart they
are each after the other, they are as far apart as the offsets up to a whole turn, and going forward
by any length goes forward in the stream. -/
theorem positions_follow_offsets (base x y len : ℕ) :
    let p := ofOffset base x
    let q := ofOffset base y
    (|(x:ℤ)-y| < 2^31 →
      (compare p q = .before ↔ x < y) ∧ (compare p q = .equal ↔ x = y) ∧
        (compare p q = .after ↔ y < x)) ∧
      (|(x:ℤ)-y| = 2^31 → compare p q = .after ∧ compare q p = .after) ∧
      (x ≤ y → y-x < 2^32 → distance p q = y-x) ∧
      p.advance len = ofOffset base (x+len) := by
  intro p q
  refine ⟨fun h => ?_,fun h => ?_,fun hle hlt => distance_ofOffset hle hlt,?_⟩
  · have hcompare : compare p q = if x < y then .before else if x = y then .equal else .after :=
      compare_ofOffset_of_near h
    rcases lt_trichotomy x y with hlt | heq | hgt
    · simp [hcompare,hlt,hlt.ne,hlt.not_gt]
    · simp [hcompare,heq]
    · simp [hcompare,hgt,hgt.ne',hgt.not_gt]
  · exact ⟨compare_ofOffset_of_opposite h,compare_ofOffset_of_opposite (abs_sub_comm (x:ℤ) y ▸ h)⟩
  · change (ofOffset base x).advance len = ofOffset base (x+len)
    rw [ofOffset_eq_advance,ofOffset_eq_advance,advance_advance]

/-- How far around the circle a position is met, on a turn that begins just past half the circle
behind the next one. -/
def around (next key : SeqNum) : ℤ := ((key.toNat:ℤ)-next.toNat-2^31-1)%2^32

theorem around_self (next : SeqNum) : around next next = 2^31-1 := by simp [around]

theorem around_of_before (h : compare a next = .before) :
    around next a = 2^31-1-distance a next := by
  have ⟨hpos,hlt⟩ := compare_eq_before.mp h
  have ha := a.toNat_lt
  have hn := next.toNat_lt
  rw [distance_eq] at hpos hlt
  rw [around,distance_eq]
  omega

theorem around_of_after (h : compare a next = .after) :
    around next a = 2^31-1+distance next a := by
  have ⟨_,hle⟩ := compare_eq_after_iff.mp h
  have ha := a.toNat_lt
  have hn := next.toNat_lt
  rw [distance_eq] at hle
  rw [around,distance_eq]
  omega

theorem compare_opposite (next : SeqNum) : compare (next.advance (2^31)) next = .after := by
  rw [compare_eq_after,distance_eq,toNat_advance]
  have hn := next.toNat_lt
  omega

/-- The order has what is behind the next position first, the furthest behind before the nearer,
then that position itself, and then what is ahead of it, the nearer before the furthest, and last
of all the position half the circle away. -/
structure SeenFrom (next : SeqNum) (order : SeqNum → ℤ) : Prop where
  behind_first : ∀ {a}, compare a next = .before → order a < order next
  ahead_last : ∀ {a}, compare a next = .after → order next < order a
  behind : ∀ {a b}, compare a next = .before → compare b next = .before →
    (order a < order b ↔ distance b next < distance a next)
  ahead : ∀ {a b}, compare a next = .after → compare b next = .after →
    (order a < order b ↔ distance next a < distance next b)
  opposite : ∀ {a}, a ≠ next.advance (2^31) → order a < order (next.advance (2^31))

theorem seenFrom_around (next : SeqNum) : SeenFrom next (around next) := by
  have hself := around_self next
  refine ⟨fun h => ?_,fun h => ?_,fun ha hb => ?_,fun ha hb => ?_,fun {a} hne => ?_⟩
  · have ⟨hpos,_⟩ := compare_eq_before.mp h
    rw [around_of_before h,hself]
    omega
  · have ⟨hpos,_⟩ := compare_eq_after_iff.mp h
    rw [around_of_after h,hself]
    omega
  · rw [around_of_before ha,around_of_before hb]
    omega
  · rw [around_of_after ha,around_of_after hb]
    omega
  · -- No position ahead is further away than half the circle, and only this one is as far.
    have hhalf : distance next (next.advance (2^31)) = 2^31 := distance_advance_self next (by omega)
    rw [around_of_after (compare_opposite next),hhalf]
    cases hcompare : compare a next with
    | before =>
      rw [around_of_before hcompare]
      omega
    | equal =>
      rw [compare_eq_equal.mp hcompare,hself]
      omega
    | after =>
      have ⟨_,hle⟩ := compare_eq_after_iff.mp hcompare
      have hother : distance next a ≠ 2^31 :=
        fun heq => hne (distance_inj.mp (heq.trans hhalf.symm))
      rw [around_of_after hcompare]
      omega

end SeqNum

namespace Receiver

variable {r : Receiver} {first key k : SeqNum}

theorem around_eq_rank (r : Receiver) (key : SeqNum) :
    SeqNum.around r.nextSeq key = r.rank key := by
  have hn := r.nextSeq.toNat_lt
  rw [SeqNum.around,rank_eq,SeqNum.distance_eq]
  omega

theorem around_lt_of_rank_le (hne : key ≠ k) (hle : r.rank key ≤ r.rank k) :
    SeqNum.around r.nextSeq key < SeqNum.around r.nextSeq k := by
  have hrank : r.rank key ≠ r.rank k := mt SeqNum.distance_inj.mp hne
  rw [around_eq_rank,around_eq_rank]
  omega

theorem firstKey?_of_waits (h : r.pending ≠ .empty) : ∃ first, r.firstKey? = some first ∧
    r.pending.contains first ∧ ∀ key, r.pending.contains key → key ≠ first →
      SeqNum.around r.nextSeq first < SeqNum.around r.nextSeq key := by
  have hsome : r.firstKey? ≠ none := mt Pending.firstFrom?_eq_none h
  obtain ⟨first,hfirst⟩ := Option.ne_none_iff_exists'.mp hsome
  have ⟨hheld,hleast⟩ := Pending.firstFrom?_eq_some hfirst
  refine ⟨first,hfirst,hheld,fun key hkey hne => ?_⟩
  obtain ⟨payload,hpayload⟩ := Option.isSome_iff_exists.mp hkey
  exact around_lt_of_rank_le hne.symm (hleast key payload hpayload)

theorem furthestKey?_of_waits (h : r.pending ≠ .empty) : ∃ furthest,
    r.furthestKey? = some furthest ∧ r.pending.contains furthest ∧
      ∀ key, r.pending.contains key → key ≠ furthest →
        SeqNum.around r.nextSeq key < SeqNum.around r.nextSeq furthest := by
  have hsome : r.furthestKey? ≠ none := mt Pending.lastFrom?_eq_none h
  obtain ⟨furthest,hfurthest⟩ := Option.ne_none_iff_exists'.mp hsome
  have ⟨hheld,hmost⟩ := Pending.lastFrom?_eq_some hfurthest
  refine ⟨furthest,hfurthest,hheld,fun key hkey hne => ?_⟩
  obtain ⟨payload,hpayload⟩ := Option.isSome_iff_exists.mp hkey
  exact around_lt_of_rank_le hne (hmost key payload hpayload)

theorem all_ahead_of_first (hfirst : r.firstKey? = some first)
    (hahead : SeqNum.compare first r.nextSeq = .after) (hkey : r.pending.contains key) :
    SeqNum.compare key r.nextSeq = .after := by
  have hseen := SeqNum.seenFrom_around r.nextSeq
  have hlast := hseen.ahead_last hahead
  obtain ⟨payload,hpayload⟩ := Option.isSome_iff_exists.mp hkey
  have hle : SeqNum.around r.nextSeq first ≤ SeqNum.around r.nextSeq key := by
    rw [around_eq_rank,around_eq_rank]
    exact_mod_cast (Pending.firstFrom?_eq_some hfirst).2 key payload hpayload
  cases hcompare : SeqNum.compare key r.nextSeq with
  | before => exact absurd (hseen.behind_first hcompare) (hlast.trans_le hle).not_gt
  | equal => exact absurd hle (SeqNum.compare_eq_equal.mp hcompare ▸ hlast.not_ge)
  | after => rfl

/-- In a receiver with something waiting, the first start is the only least and the furthest the
only greatest of the starts on the turn around the circle that begins just past half of it behind
the next position. Seen so, what is behind comes first and what is ahead last, each in the order of
its distance; so nothing that waits has been reached if the first start lies ahead. -/
theorem first_and_furthest_in_circular_order (r : Receiver) (hwaits : r.pending ≠ .empty) :
    (∃ first, r.firstKey? = some first ∧ r.pending.contains first ∧
      ∀ key, r.pending.contains key → key ≠ first →
        SeqNum.around r.nextSeq first < SeqNum.around r.nextSeq key) ∧
      (∃ furthest, r.furthestKey? = some furthest ∧ r.pending.contains furthest ∧
        ∀ key, r.pending.contains key → key ≠ furthest →
          SeqNum.around r.nextSeq key < SeqNum.around r.nextSeq furthest) ∧
      SeqNum.SeenFrom r.nextSeq (SeqNum.around r.nextSeq) ∧
      SeqNum.compare (r.nextSeq.advance (2^31)) r.nextSeq = .after ∧
      ∀ first, r.firstKey? = some first → SeqNum.compare first r.nextSeq = .after →
        ∀ key, r.pending.contains key → SeqNum.compare key r.nextSeq = .after :=
  ⟨firstKey?_of_waits hwaits,furthestKey?_of_waits hwaits,SeqNum.seenFrom_around r.nextSeq,
    SeqNum.compare_opposite r.nextSeq,
    fun _ hfirst hahead _ hkey => all_ahead_of_first hfirst hahead hkey⟩

/-- One start behind the next position and the wrap, one ahead, and one half the circle away. -/
def encircled : Receiver :=
  {nextSeq := 0x10
   pending := ((Pending.empty.insert 0x20 [1]).insert 0xfffffff8 [2,3]).insert 0x80000010 [4]
   pendingBytes := 4}

theorem order_of_encircled :
    encircled.pending ≠ .empty ∧ encircled.firstKey? = some 0xfffffff8 ∧
      encircled.furthestKey? = some 0x80000010 ∧
      SeqNum.around 0x10 0xfffffff8 < SeqNum.around 0x10 0x20 ∧
      SeqNum.around 0x10 0x20 < SeqNum.around 0x10 0x80000010 := by
  have hwaits : encircled.pending ≠ .empty := by decide
  have hfirst : encircled.firstKey? = some 0xfffffff8 := by decide
  have hfurthest : encircled.furthestKey? = some 0x80000010 := by decide
  obtain ⟨⟨first,hfirst',_,hleast⟩,⟨furthest,hfurthest',_,hmost⟩,_⟩ :=
    first_and_furthest_in_circular_order encircled hwaits
  obtain rfl := Option.some.inj (hfirst.symm.trans hfirst')
  obtain rfl := Option.some.inj (hfurthest.symm.trans hfurthest')
  exact ⟨hwaits,hfirst,hfurthest,hleast 0x20 (by decide) (by decide),
    hmost 0x20 (by decide) (by decide)⟩

end Receiver
end Reassembly
