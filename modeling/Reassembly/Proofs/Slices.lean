import Reassembly.Proofs.Ingesting

/-! Runs whose segments are all cut from one stream. Offsets into the stream take the place of
positions on the circle: a receiver is anchored when everything that waits lies in the half of the
circle ahead of some offset, and then its rounds and verdicts are those of plain offsets. -/
namespace Reassembly

structure Slice where
  offset : ℕ
  length : ℕ
  deriving DecidableEq, Repr

namespace Slice

def stop (x : Slice) : ℕ := x.offset+x.length

def bytes (x : Slice) (S : Bytes) : Bytes := (S.drop x.offset).take x.length

def op (x : Slice) (S : Bytes) (initial : SeqNum) : Receiver.Op :=
  .ingest (initial.advance x.offset) (x.bytes S)

def ops (S : Bytes) (initial : SeqNum) (xs : List Slice) : List Receiver.Op :=
  xs.map fun x => x.op S initial

/-- The slice is a part of the stream and not empty. -/
structure InStream (x : Slice) (S : Bytes) : Prop where
  some : 0 < x.length
  inside : x.stop ≤ S.length

structure InWindow (x : Slice) (n : ℕ) : Prop where
  near : x.stop ≤ n+2^31
  recent : n < x.offset+2^31

/-- What is left of the slice from offset `n` on. -/
def after (x : Slice) (n : ℕ) : Slice := ⟨n,x.stop-n⟩

instance (x : Slice) (S : Bytes) : Decidable (x.InStream S) :=
  decidable_of_iff (0 < x.length ∧ x.stop ≤ S.length)
    ⟨fun h => ⟨h.1,h.2⟩,fun h => ⟨h.some,h.inside⟩⟩

instance (x : Slice) (n : ℕ) : Decidable (x.InWindow n) :=
  decidable_of_iff (x.stop ≤ n+2^31 ∧ n < x.offset+2^31)
    ⟨fun h => ⟨h.1,h.2⟩,fun h => ⟨h.near,h.recent⟩⟩

theorem InStream.length_bytes {x : Slice} {S : Bytes} (h : x.InStream S) :
    (x.bytes S).length = x.length := by
  have hinside := h.inside
  simp only [bytes,List.length_take,List.length_drop,stop] at *
  omega

theorem InStream.eq_of_bytes {x y : Slice} {S : Bytes} (hx : x.InStream S) (hy : y.InStream S)
    (hoffset : x.offset = y.offset) (hbytes : x.bytes S = y.bytes S) : x = y := by
  have hlength := congrArg List.length hbytes
  rw [hx.length_bytes,hy.length_bytes] at hlength
  cases x
  cases y
  simp_all

theorem InStream.bytes_ne_nil {x : Slice} {S : Bytes} (h : x.InStream S) : x.bytes S ≠ [] := by
  have hlength := h.length_bytes
  have hsome := h.some
  intro he
  simp [he] at hlength
  omega

theorem drop_bytes (x : Slice) (S : Bytes) {n : ℕ} (h : x.offset ≤ n) :
    (x.bytes S).drop (n-x.offset) = (x.after n).bytes S := by
  have hoffset : x.offset+(n-x.offset) = n := by omega
  have hlength : x.length-(n-x.offset) = x.offset+x.length-n := by omega
  simp only [bytes,Slice.after,stop,List.drop_take,List.drop_drop,hoffset,hlength]

theorem take_stop (x : Slice) (S : Bytes) : S.take x.stop = S.take x.offset ++ x.bytes S :=
  List.take_add

structure Ahead (x : Slice) (S : Bytes) (n : ℕ) : Prop extends InStream x S where
  beyond : n < x.offset
  near : x.stop ≤ n+2^31

theorem stop_after {x : Slice} {n : ℕ} (h : n ≤ x.stop) : (x.after n).stop = x.stop :=
  Nat.add_sub_of_le h

theorem InStream.after {x : Slice} {S : Bytes} {n : ℕ} (h : x.InStream S) (hn : n < x.stop) :
    (x.after n).InStream S :=
  ⟨Nat.sub_pos_of_lt hn,(stop_after hn.le).le.trans h.inside⟩

theorem Ahead.after {x : Slice} {S : Bytes} {n₀ n : ℕ} (h : x.Ahead S n₀) (hn : n₀ < n)
    (hstop : n < x.stop) : (x.after n).Ahead S n₀ :=
  ⟨h.toInStream.after hstop,hn,(stop_after hstop.le).le.trans h.near⟩

theorem InStream.offset_lt_stop {x : Slice} {S : Bytes} (h : x.InStream S) : x.offset < x.stop :=
  Nat.lt_add_of_pos_right h.some

theorem Ahead.offset_lt {x : Slice} {S : Bytes} {n : ℕ} (h : x.Ahead S n) : x.offset < n+2^31 :=
  h.offset_lt_stop.trans_le h.near

/-- Positions of slices ahead of two offsets that are at most half the circle apart do not
collide. -/
theorem Ahead.offset_eq {x y : Slice} {S : Bytes} {initial : SeqNum} {m n : ℕ} (hx : x.Ahead S m)
    (hy : y.Ahead S n) (hm : m ≤ n+2^31) (hn : n ≤ m+2^31)
    (h : initial.advance x.offset = initial.advance y.offset) : x.offset = y.offset := by
  have hx₁ := hx.beyond
  have hx₂ := hx.offset_lt
  have hy₁ := hy.beyond
  have hy₂ := hy.offset_lt
  exact initial.advance_inj h (by omega) (by omega)

end Slice

namespace Receiver

def handed (events : List Event) : Bytes := (Event.deliveries events).flatMap (·.2)

@[simp] theorem handed_append (es fs : List Event) : handed (es++fs) = handed es ++ handed fs := by
  simp [handed]

/-- Every slice of a run is in the stream and, when its turn comes, in the window. -/
def SlicesInWindow (S : Bytes) (initial : SeqNum) : Receiver → List Slice → Prop
  | _, [] => True
  | r, x::xs => x.InStream S ∧ x.InWindow r.stats.bytesDelivered ∧
      SlicesInWindow S initial (r.step (x.op S initial)).receiver xs

instance slicesInWindowDecidable (S : Bytes) (initial : SeqNum) :
    (r : Receiver) → (xs : List Slice) → Decidable (SlicesInWindow S initial r xs)
  | _, [] => .isTrue trivial
  | _, _::xs => @instDecidableAnd _ _ _
      (@instDecidableAnd _ _ _ (slicesInWindowDecidable S initial _ xs))

theorem SlicesInWindow.of_prefix {S : Bytes} {initial : SeqNum} {r : Receiver}
    {xs ys : List Slice} (h : SlicesInWindow S initial r ys) (hp : xs <+: ys) :
    SlicesInWindow S initial r xs := by
  induction xs generalizing r ys with
  | nil => trivial
  | cons x xs ih =>
    obtain ⟨zs,rfl⟩ := hp
    exact ⟨h.1,h.2.1,ih h.2.2 (List.prefix_append xs zs)⟩

/-- The next position is the number of bytes handed on, and what waits lies in the half of the
circle ahead of offset `n₀`, which the next position has not left. -/
structure Anchored (S : Bytes) (initial : SeqNum) (n₀ : ℕ) (r : Receiver) : Prop where
  next : r.nextSeq = initial.advance r.stats.bytesDelivered
  low : n₀ ≤ r.stats.bytesDelivered
  high : r.stats.bytesDelivered ≤ n₀+2^31
  inside : r.stats.bytesDelivered ≤ S.length
  waits : ∀ {key payload}, r.pending.get? key = some payload →
    ∃ y : Slice, y.Ahead S n₀ ∧ key = initial.advance y.offset ∧ payload = y.bytes S

/-- A round of draining, in offsets. -/
inductive SliceRound (S : Bytes) (initial : SeqNum) (n₀ : ℕ) (r : Receiver) :
    Receiver → List Event → Prop
  | handOn {y : Slice} (ahead : y.Ahead S n₀) (starts : y.offset = r.stats.bytesDelivered)
      (held : r.pending.get? (initial.advance y.offset) = some (y.bytes S)) :
      SliceRound S initial n₀ r
        ((r.without (initial.advance y.offset) (y.bytes S)).deliver (y.bytes S)).1
        ((r.without (initial.advance y.offset) (y.bytes S)).deliver (y.bytes S)).2
  | refile {y : Slice} {filing t note events} (ahead : y.Ahead S n₀)
      (starts : y.offset < r.stats.bytesDelivered) (stops : r.stats.bytesDelivered < y.stop)
      (held : r.pending.get? (initial.advance y.offset) = some (y.bytes S))
      (filed : Filed (r.without (initial.advance y.offset) (y.bytes S))
        (initial.advance r.stats.bytesDelivered) ((y.after r.stats.bytesDelivered).bytes S)
        filing t events)
      (silent : Event.delivery? note = none) : SliceRound S initial n₀ r t (note::events)
  | discard {y : Slice} {note} (ahead : y.Ahead S n₀)
      (starts : y.offset < r.stats.bytesDelivered) (stops : y.stop ≤ r.stats.bytesDelivered)
      (held : r.pending.get? (initial.advance y.offset) = some (y.bytes S))
      (silent : Event.delivery? note = none) :
      SliceRound S initial n₀ r (r.without (initial.advance y.offset) (y.bytes S)) [note]

inductive SlicePlaced (S : Bytes) (initial : SeqNum) (x : Slice) (r : Receiver) :
    Outcome → Receiver → List Event → Prop
  | old {events} (stops : x.stop ≤ r.stats.bytesDelivered)
      (silent : Event.deliveries events = []) :
      SlicePlaced S initial x r .duplicate r.countDuplicate events
  | reached {s notes trimmed} (starts : x.offset ≤ r.stats.bytesDelivered)
      (stops : r.stats.bytesDelivered < x.stop) (still : Still r s) (same : s.pending = r.pending)
      (silent : Event.deliveries notes = []) :
      SlicePlaced S initial x r (.delivered trimmed)
        (s.deliver ((x.after r.stats.bytesDelivered).bytes S)).1
        (notes ++ (s.deliver ((x.after r.stats.bytesDelivered).bytes S)).2)
  | ahead {filing t events} (starts : r.stats.bytesDelivered < x.offset)
      (filed : Filed r (initial.advance x.offset) (x.bytes S) filing t events) :
      SlicePlaced S initial x r filing.outcome (t.countFiling filing)
        (events ++ t.refusal (initial.advance x.offset) (x.bytes S) filing)

variable {S : Bytes} {initial : SeqNum} {n₀ : ℕ} {r t : Receiver} {events : List Event}

theorem Anchored.compare_offset (h : Anchored S initial n₀ r) {x : ℕ} (hlow : n₀ < x)
    (hhigh : x ≤ n₀+2^31) : SeqNum.compare (initial.advance x) r.nextSeq =
      if x < r.stats.bytesDelivered then .before
      else if x = r.stats.bytesDelivered then .equal else .after := by
  have h₁ := h.low
  have h₂ := h.high
  rw [h.next]
  exact SeqNum.compare_advance initial (by omega) (by omega)

theorem Anchored.compare_start (h : Anchored S initial n₀ r) {y : Slice} (hy : y.Ahead S n₀) :
    SeqNum.compare (initial.advance y.offset) r.nextSeq =
      if y.offset < r.stats.bytesDelivered then .before
      else if y.offset = r.stats.bytesDelivered then .equal else .after :=
  h.compare_offset hy.beyond hy.offset_lt.le

theorem Anchored.compare_stop (h : Anchored S initial n₀ r) {y : Slice} (hy : y.Ahead S n₀) :
    SeqNum.compare ((initial.advance y.offset).advance (y.bytes S).length) r.nextSeq =
      if y.stop < r.stats.bytesDelivered then .before
      else if y.stop = r.stats.bytesDelivered then .equal else .after := by
  rw [hy.length_bytes,SeqNum.advance_advance]
  exact h.compare_offset (hy.beyond.trans hy.offset_lt_stop) hy.near

theorem Round.slices (h : Round r t events) (hr : Anchored S initial n₀ r) :
    SliceRound S initial n₀ r t events := by
  have hlow := hr.low
  have hhigh := hr.high
  cases h with
  | handOn first held =>
    obtain ⟨y,hy,hkey,rfl⟩ := hr.waits held
    have hbeyond := hy.beyond
    have hlt := hy.offset_lt
    rw [hr.next] at hkey
    have hoffset : r.stats.bytesDelivered = y.offset :=
      initial.advance_inj hkey (by omega) (by omega)
    rw [hr.next,hoffset] at held
    rw [hr.next,hoffset]
    exact .handOn hy hoffset.symm held
  | @refile key payload filing t es first behind held reaches filed =>
    obtain ⟨y,hy,rfl,rfl⟩ := hr.waits held
    have hbeyond := hy.beyond
    rw [hr.compare_start hy] at behind
    rw [hr.compare_stop hy] at reaches
    have hstarts : y.offset < r.stats.bytesDelivered := by grind
    have hstops : r.stats.bytesDelivered < y.stop := by grind
    rw [hr.next,initial.distance_advance hstarts.le (by omega),Slice.drop_bytes _ _ hstarts.le]
      at filed
    exact .refile hy hstarts hstops held filed rfl
  | @discard key payload first behind held ends =>
    obtain ⟨y,hy,rfl,rfl⟩ := hr.waits held
    rw [hr.compare_start hy] at behind
    rw [hr.compare_stop hy] at ends
    have hstarts : y.offset < r.stats.bytesDelivered := by grind
    have hstops : y.stop ≤ r.stats.bytesDelivered := by grind
    exact .discard hy hstarts hstops held rfl

theorem Placed.slice {x : Slice} {outcome : Outcome}
    (h : Placed r (initial.advance x.offset) (x.bytes S) outcome t events)
    (hn : r.nextSeq = initial.advance r.stats.bytesDelivered) (hx : x.InStream S)
    (hw : x.InWindow r.stats.bytesDelivered) : SlicePlaced S initial x r outcome t events := by
  have hnear := hw.near
  have hrecent := hw.recent
  have hlt := hx.offset_lt_stop
  have hlength := hx.length_bytes
  have hend : SeqNum.compare ((initial.advance x.offset).advance (x.bytes S).length) r.nextSeq =
      if x.stop < r.stats.bytesDelivered then .before
      else if x.stop = r.stats.bytesDelivered then .equal else .after := by
    rw [hlength,SeqNum.advance_advance,hn]
    exact SeqNum.compare_advance initial (by omega) hnear
  have hstart : SeqNum.compare (initial.advance x.offset) r.nextSeq =
      if x.offset < r.stats.bytesDelivered then .before
      else if x.offset = r.stats.bytesDelivered then .equal else .after := by
    rw [hn]
    exact SeqNum.compare_advance initial hrecent (by omega)
  have hdistance : x.offset ≤ r.stats.bytesDelivered →
      SeqNum.distance (initial.advance x.offset) r.nextSeq = r.stats.bytesDelivered-x.offset := by
    intro hle
    rw [hn]
    exact initial.distance_advance hle (by omega)
  cases h with
  | behind ends =>
    rw [hend] at ends
    exact .old (by grind) rfl
  | covered starts short =>
    rw [hstart] at starts
    have hle : x.offset < r.stats.bytesDelivered := by grind
    rw [hdistance hle.le,hlength] at short
    exact .old (by simp only [Slice.stop]; omega) rfl
  | cut starts ends long =>
    rw [hstart] at starts
    have hle : x.offset < r.stats.bytesDelivered := by grind
    rw [hdistance hle.le,hlength] at long
    rw [hdistance hle.le,Slice.drop_bytes _ _ hle.le]
    have hstops : r.stats.bytesDelivered < x.stop := by simp only [Slice.stop]; omega
    have hstill : Still r r.countTrimmed := ⟨⟨rfl,rfl⟩,rfl,rfl⟩
    exact @SlicePlaced.reached _ _ _ _ r.countTrimmed [_] _ hle.le hstops hstill rfl rfl
  | next starts ends =>
    have heq := SeqNum.compare_eq_equal.mpr starts
    rw [hstart] at heq
    have hoffset : x.offset = r.stats.bytesDelivered := by grind
    have hwhole : x.after r.stats.bytesDelivered = x := by
      rw [← hoffset]
      simp [Slice.after,Slice.stop]
    have hreached := @SlicePlaced.reached S initial x r r [] false hoffset.le (hoffset ▸ hlt)
      (.refl r) rfl rfl
    rwa [hwhole] at hreached
  | ahead starts ends filed =>
    rw [hstart] at starts
    exact .ahead (by grind) filed

end Receiver
end Reassembly
