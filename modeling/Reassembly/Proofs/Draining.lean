import Reassembly.Proofs.CapTransparency

/-! Draining where the store is consistent. What is left of a payload fits where the payload was, so
no round of draining is refused room or gives anything up for it: the rest comes to wait at the next
position, unless what waits there already is at least as long. -/
namespace Reassembly
namespace Pending

/-- All that waits is shorter than half the circle. -/
def Short (p : Pending) : Prop := ∀ e ∈ p.entries, e.2.length < 2^31

variable {p : Pending} {key : SeqNum} {payload : Bytes}

theorem Short.length_lt (h : p.Short) (hk : p.get? key = some payload) : payload.length < 2^31 :=
  h _ (get?_eq_some_iff.mp hk)

theorem Short.erase (h : p.Short) (key : SeqNum) : (p.erase key).Short :=
  fun e he => h e (List.mem_of_mem_filter he)

theorem Short.insert (h : p.Short) (hp : payload.length < 2^31) : (p.insert key payload).Short := by
  intro e he
  rcases mem_insertEntry he with rfl | he
  · exact hp
  · exact h e he

end Pending

namespace Receiver

/-- One round of draining at a consistent receiver. -/
inductive FreeRound (r : Receiver) : Receiver → List Event → Prop
  | handOn {payload} (first : r.firstKey? = some r.nextSeq)
      (held : r.pending.get? r.nextSeq = some payload) :
      FreeRound r ((r.without r.nextSeq payload).deliver payload).1
        ((r.without r.nextSeq payload).deliver payload).2
  | discard {key payload} (first : r.firstKey? = some key)
      (behind : SeqNum.compare key r.nextSeq = .before)
      (held : r.pending.get? key = some payload)
      (ends : SeqNum.compare (key.advance payload.length) r.nextSeq ≠ .after) :
      FreeRound r (r.without key payload) [.stale key payload.length]
  | absorb {key payload longer} (first : r.firstKey? = some key)
      (behind : SeqNum.compare key r.nextSeq = .before)
      (held : r.pending.get? key = some payload)
      (reaches : SeqNum.compare (key.advance payload.length) r.nextSeq = .after)
      (waits : r.pending.get? r.nextSeq = some longer)
      (short : (payload.drop (SeqNum.distance key r.nextSeq)).length ≤ longer.length) :
      FreeRound r (r.without key payload) [.refiled key (SeqNum.distance key r.nextSeq) r.nextSeq]
  | refile {key payload growth} (first : r.firstKey? = some key)
      (behind : SeqNum.compare key r.nextSeq = .before)
      (held : r.pending.get? key = some payload)
      (reaches : SeqNum.compare (key.advance payload.length) r.nextSeq = .after)
      (long : ∀ shorter, r.pending.get? r.nextSeq = some shorter →
        shorter.length < (payload.drop (SeqNum.distance key r.nextSeq)).length) :
      FreeRound r ((r.without key payload).holding r.nextSeq
          (payload.drop (SeqNum.distance key r.nextSeq)) growth)
        [.refiled key (SeqNum.distance key r.nextSeq) r.nextSeq]

/-- Such rounds until none is left, the receiver being consistent all the while. -/
inductive FreelyDrains : Receiver → Receiver → List Event → Prop
  | done {r} (consistent : Consistent r) (rest : r.drainRound? = none) : FreelyDrains r r []
  | round {r s t es fs} (consistent : Consistent r) (first : FreeRound r s es)
      (rest : FreelyDrains s t fs) : FreelyDrains r t (es++fs)

variable {r t : Receiver} {key : SeqNum} {payload : Bytes} {events : List Event}

theorem ne_next_of_behind (h : SeqNum.compare key r.nextSeq = .before) : key ≠ r.nextSeq := by
  rintro rfl
  simp at h

theorem drainRound?_refile (hr : Consistent r) (first : r.firstKey? = some key)
    (behind : SeqNum.compare key r.nextSeq = .before) (held : r.pending.get? key = some payload)
    (reaches : SeqNum.compare (key.advance payload.length) r.nextSeq = .after) :
    let rest := payload.drop (SeqNum.distance key r.nextSeq)
    let stored := (r.without key payload).storeFreely r.nextSeq rest
    r.drainRound? =
      some (stored.2.1,.refiled key (SeqNum.distance key r.nextSeq) r.nextSeq::stored.2.2) := by
  intro rest stored
  have htake : r.take? key = some (payload,r.without key payload) :=
    take?_eq_some_iff.mpr ⟨held,rfl⟩
  have hstore : (r.without key payload).store r.nextSeq rest = stored :=
    store_of_fits (hr.refile_fits held _)
  simp only [drainRound?,first,behind,htake,Option.map_some,without_nextSeq,reaches,if_true]
  rw [hstore]

theorem Consistent.freeRound (hr : Consistent r) (h : r.drainRound? = some (t,events)) :
    FreeRound r t events := by
  cases drainRound?_eq_some h with
  | handOn first held => exact .handOn first held
  | discard first behind held ends => exact .discard first behind held ends
  | @refile key payload _ _ es first behind held reaches _ =>
    have hround := drainRound?_refile hr first behind held reaches
    have hnext : (r.without key payload).pending.get? r.nextSeq = r.pending.get? r.nextSeq := by
      simp [(ne_next_of_behind behind).symm]
    simp only [h,storeFreely,hnext] at hround
    cases hwaits : r.pending.get? r.nextSeq with
    | none =>
      rw [hwaits] at hround
      cases hround
      exact .refile first behind held reaches (by simp [hwaits])
    | some other =>
      rw [hwaits] at hround
      by_cases hle : (payload.drop (SeqNum.distance key r.nextSeq)).length ≤ other.length
      · simp only [if_pos hle] at hround
        cases hround
        exact .absorb first behind held reaches hwaits hle
      · simp only [if_neg hle] at hround
        cases hround
        refine .refile first behind held reaches fun shorter hs => ?_
        rw [hwaits] at hs
        cases hs
        exact not_le.mp hle

theorem Consistent.drain_freely (hr : Consistent r) : FreelyDrains r r.drain.1 r.drain.2 := by
  fun_induction drain r with
  | case1 r h => exact .done hr h
  | case2 r s events h t rest he ih =>
    have hrest := ih ((drainRound?_eq_some h).consistent hr)
    rw [he] at hrest
    exact .round hr (hr.freeRound h) hrest

theorem FreeRound.short (h : FreeRound r t events) (hr : r.pending.Short) : t.pending.Short := by
  cases h with
  | handOn => exact hr.erase _
  | discard => exact hr.erase _
  | absorb => exact hr.erase _
  | refile _ _ held =>
    have hlt := hr.length_lt held
    refine (hr.erase _).insert ?_
    rw [List.length_drop]
    omega

end Receiver
end Reassembly
