import Reassembly.Receiver.Room

/-! Handing on what waits, once the next position has come to it. A round takes the first
waiting payload in circular order: one that starts at the next position is handed on, one that
starts behind it is cut and filed again, and one ahead ends the work. Each round lowers
`Receiver.backlog`, so there are at most twice as many rounds as waiting payloads. -/
namespace Reassembly
namespace Receiver

/-- One round, or nothing if every waiting payload lies ahead. -/
def drainRound? (r : Receiver) : Option (Receiver × List Event) :=
  match r.firstKey? with
  | none => none
  | some key =>
    match SeqNum.compare key r.nextSeq with
    | .after => none
    | .equal => (r.take? key).map fun (payload,s) => s.deliver payload
    | .before => (r.take? key).map fun (payload,s) =>
      if SeqNum.compare (key.advance payload.length) s.nextSeq = .after then
        let covered := SeqNum.distance key s.nextSeq
        let (_,t,events) := s.store s.nextSeq (payload.drop covered)
        (t,.refiled key covered s.nextSeq::events)
      else (s,[.stale key payload.length])

/-- Two rounds for each waiting payload, less one for the payload that is next. -/
def backlog (r : Receiver) : Nat :=
  2*r.pending.size - if r.pending.contains r.nextSeq then 1 else 0

theorem size_pos_of_contains {p : Pending} {key : SeqNum} (h : p.contains key = true) :
    0 < p.size := by
  obtain ⟨_,hp⟩ := Option.isSome_iff_exists.1 h
  exact List.length_pos_of_mem (Pending.mem_of_get? hp)

/-- Filing at the next position after a payload has been taken away costs less than it. -/
theorem backlog_store_next (r : Receiver) (payload : Bytes) :
    (r.store r.nextSeq payload).2.1.backlog < 2*(r.pending.size+1) -
      if r.pending.contains r.nextSeq then 1 else 0 := by
  have room := fun growth entries =>
    makeRoom_shrinks r r.nextSeq payload.length growth entries
  have filed : ∀ growth entries filing,
      (r.pending.contains r.nextSeq = false ∨ filing = Filing.replaced) →
      (r.file r.nextSeq payload growth entries filing).2.1.backlog < 2*(r.pending.size+1) -
        if r.pending.contains r.nextSeq then 1 else 0 := by
    intro growth entries filing _
    have ⟨hn,hs⟩ := room growth entries
    unfold file
    generalize r.makeRoom r.nextSeq payload.length growth entries = made at hn hs ⊢
    obtain ⟨ok,s,events⟩ := made
    simp only at hn hs
    cases ok
    · simp only [backlog,hn]
      rcases hs with hs | hs
      · rw [hs]; split <;> omega
      · split <;> split <;> omega
    · have hc : (s.pending.insert r.nextSeq payload).contains s.nextSeq = true := by
        simp [Pending.contains,hn]
      have hle := s.pending.size_insert_le r.nextSeq payload
      simp only [backlog,hc,if_true]
      rcases hs with hs | hs
      · rw [hs] at hle ⊢
        split
        · rename_i hin
          rw [Pending.size_insert_of_contains hin]; omega
        · omega
      · split <;> omega
  unfold store
  split
  · rename_i hg
    exact filed _ _ _ (.inl (by simp [Pending.contains,hg]))
  · split
    · simp only [backlog]; split <;> omega
    · exact filed _ _ _ (.inr rfl)

theorem backlog_drainRound? {r s : Receiver} {events : List Event}
    (h : r.drainRound? = some (s,events)) : s.backlog < r.backlog := by
  unfold drainRound? at h
  split at h
  · simp at h
  · rename_i key _
    split at h
    · simp at h
    · rename_i hk
      obtain ⟨⟨payload,t⟩,ht,he⟩ := Option.map_eq_some_iff.1 h
      cases he
      have hlt := size_lt_of_take? ht
      have hin : r.pending.contains r.nextSeq = true := by
        simp [Pending.contains,← SeqNum.compare_eq_equal.1 hk,(take?_eq_some ht).1]
      have hpos := size_pos_of_contains hin
      simp only [backlog,hin,if_true]
      split <;> omega
    · rename_i hk
      obtain ⟨⟨payload,t⟩,ht,he⟩ := Option.map_eq_some_iff.1 h
      have hlt := size_lt_of_take? ht
      obtain ⟨_,hp,hn⟩ := take?_eq_some ht
      have hne : r.nextSeq ≠ key := by
        intro heq
        rw [heq] at hk
        simp at hk
      have hc : t.pending.contains t.nextSeq = r.pending.contains r.nextSeq := by
        simp [Pending.contains,hp,hn,hne]
      have small : 2*(t.pending.size+1) - (if t.pending.contains t.nextSeq then 1 else 0) ≤
          r.backlog := by
        simp only [backlog,hc]; split <;> omega
      simp only at he
      split at he
      · have := backlog_store_next t (payload.drop (SeqNum.distance key t.nextSeq))
        cases he
        exact Nat.lt_of_lt_of_le this small
      · cases he
        simp only [backlog,hc]
        split
        · rename_i hin
          have := size_pos_of_contains hin
          omega
        · omega

def drain (r : Receiver) : Receiver × List Event :=
  match _h : r.drainRound? with
  | none => (r,[])
  | some (s,events) =>
    let (t,rest) := s.drain
    (t,events++rest)
termination_by r.backlog
decreasing_by exact backlog_drainRound? _h

end Receiver
end Reassembly
