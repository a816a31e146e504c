import Reassembly.Proofs.Completeness
import Reassembly.Proofs.Indifference
import Reassembly.Proofs.ShortStream

/-! A stream picked up on its way. A receiver that starts at some offset does what one does that has
handed on the bytes before it, since the counters are never looked at; so slices that reach back
before the start are cut there, and the rest is put together as usual. -/
namespace Reassembly
namespace Receiver

open Slice

/-- The receiver as it would be if it had handed on `n` bytes before. -/
def resumed (n : ℕ) (r : Receiver) : Receiver :=
  {r with stats := {r.stats with bytesDelivered := n+r.stats.bytesDelivered}}

variable (n : ℕ) (r : Receiver) (seq : SeqNum) (data : Bytes)

theorem unnoticed_resumed : Unnoticed (resumed n) where
  next _ := rfl
  pending _ := rfl
  pendingBytes _ := rfl
  without _ _ _ := rfl
  deliver _ _ := by simp [resumed,deliver,Nat.add_assoc]
  segment _ := rfl
  trimmed _ := rfl
  filing _ f := by cases f <;> rfl

theorem sparesLimits_resumed : SparesLimits (resumed n) := ⟨fun _ => rfl,fun _ => rfl,fun _ _ _ _ => rfl⟩

theorem ingest_resumed :
    (r.resumed n).ingest seq data = changeAll (resumed n) (r.ingest seq data) :=
  ((unnoticed_resumed n).unheeded.ingest_of_limits r seq data (sparesLimits_resumed n)).trans
    (retellAll_id _)

theorem step_resumed (op : Op) :
    (r.resumed n).step op = {r.step op with receiver := (r.step op).receiver.resumed n} := by
  cases op with
  | ingest seq data =>
    rw [step,ingest_resumed]
    rfl
  | reset | setSink | clearSink => rfl

theorem run_resumed (ops : List Op) : (r.resumed n).run ops = (r.run ops).resumed n := by
  induction ops generalizing r with
  | nil => rfl
  | cons op ops ih =>
    rw [run,step_resumed]
    exact ih _

theorem trace_resumed (ops : List Op) : (r.resumed n).trace ops = r.trace ops := by
  induction ops generalizing r with
  | nil => rfl
  | cons op ops ih =>
    rw [trace_cons,trace_cons,step_resumed]
    exact congrArg _ (ih _)

variable {n r}
variable {S : Bytes} {first : SeqNum}

theorem anchored_resumed (first : SeqNum) (hn : n ≤ S.length) (overflow : Overflow) (sink : ℕ) :
    let g := (uncapped (first.advance n) overflow sink).resumed n
    Anchored S first g.stats.bytesDelivered g :=
  ⟨rfl,le_rfl,Nat.le_add_right _ _,hn,fun hk => by simp [resumed,uncapped,start,setSink] at hk⟩

/-- The bytes before the start count as one slice that was seen. -/
theorem accounted_resumed (S : Bytes) (first : SeqNum) (n : ℕ) (overflow : Overflow) (sink : ℕ) :
    let g := (uncapped (first.advance n) overflow sink).resumed n
    Accounted S first g.stats.bytesDelivered [⟨0,n⟩] g := by
  have hcount : ((uncapped (first.advance n) overflow sink).resumed n).stats.bytesDelivered = n :=
    rfl
  refine ⟨fun j hj => ⟨⟨0,n⟩,by simp,Nat.zero_le j,?_⟩,fun x hx => .inl ?_,?_,?_⟩
  · simpa [stop,hcount] using hj
  · simp [List.mem_singleton.mp hx,stop,hcount]
  all_goals simp [stock,resumed,uncapped,start,setSink]

/-- How far a stream is covered from an offset on. -/
def Reaches (S : Bytes) (n : ℕ) (covered : ℕ → Prop) (m : ℕ) : Prop :=
  IsGreatest {m | n ≤ m ∧ m ≤ S.length ∧ ∀ j, n ≤ j → j < m → covered j} m

theorem Accounted.reaches {xs : List Slice}
    (h : Accounted S first r.stats.bytesDelivered ([⟨0,n⟩] ++ withData xs) r)
    (hlow : n ≤ r.stats.bytesDelivered) (hinside : r.stats.bytesDelivered ≤ S.length) :
    Reaches S n (Covered xs) r.stats.bytesDelivered := by
  have hreach := h.reach hinside
  refine ⟨⟨hlow,hinside,fun j hj hlt => ?_⟩,fun m hm => hreach.2 ⟨hm.2.1,fun j hlt => ?_⟩⟩
  · obtain ⟨x,hx,hcovers⟩ := h.covered j hlt
    rcases List.mem_append.mp hx with hx | hx
    · have hstop := hcovers.2
      rw [List.mem_singleton.mp hx] at hstop
      simp only [stop] at hstop
      omega
    · exact covered_withData.mp ⟨x,hx,hcovers⟩
  · by_cases hj : n ≤ j
    · obtain ⟨x,hx,hcovers⟩ := covered_withData.mpr (hm.2.2 j hj hlt)
      exact ⟨x,by simp [hx],hcovers⟩
    · exact ⟨⟨0,n⟩,by simp,Nat.zero_le j,by simpa [stop] using hj⟩

/-- Without caps a short stream is handed on from the offset where it is picked up to where the
slices cease to cover it. -/
theorem picked_up (first : SeqNum) (hS : S.length < 2^31) (hn : n ≤ S.length)
    (overflow : Overflow) (sink : ℕ) {xs : List Slice} (hxs : ∀ x ∈ xs, x.PartOf S) :
    let r := uncapped (first.advance n) overflow sink
    let t := r.run (ops S first xs)
    Reaches S n (Covered xs) (n+t.stats.bytesDelivered) ∧
      r.taken (ops S first xs) = (S.take (n+t.stats.bytesDelivered)).drop n ∧
      t.nextSeq = first.advance (n+t.stats.bytesDelivered) := by
  intro r t
  -- Shifted by `n` this is a receiver of the whole stream, at which the earlier results apply.
  have hr := anchored_resumed first hn overflow sink
  have ha := accounted_resumed S first n overflow sink
  have hrun : (r.resumed n).run (ops S first xs) = t.resumed n := run_resumed n r _
  have ⟨ht,hextends⟩ := run_anchored_of_short hS hxs hr
  have hta := run_accounted (slicesInWindow_of_short hS hxs hr) hr rfl ha
  rw [run_withData,hrun] at hta
  rw [hrun] at ht hextends
  rw [trace_resumed] at hextends
  refine ⟨hta.reaches (Nat.le_add_right _ _) ht.inside,?_,ht.next⟩
  have htake : S.take (n+t.stats.bytesDelivered) = S.take n ++ handed (r.trace (ops S first xs)) :=
    hextends
  have hsink : r.sink = some sink := rfl
  rw [taken,chunks_trace_slices,hsink,flatMap_handedTo,htake,
    List.drop_left' (List.length_take_of_le hn)]

end Receiver
end Reassembly
