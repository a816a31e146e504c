import Reassembly.Proofs.ShortStream
import Reassembly.Proofs.Completeness

/-! A stream that is sent again from its beginning, in order, is completed. Whatever came before,
each piece starts no further than the next position has come, so that it is handed on to its end
and neither what waits nor a full store stands in its way. -/
namespace Reassembly
namespace Receiver

/-- Pieces of a stream, one after the other from a position on. -/
def inOrder (position : SeqNum) : List Bytes → List Op
  | [] => []
  | p::ps => .ingest position p::inOrder (position.advance p.length) ps

end Receiver

namespace Slice

def cuts (n : ℕ) : List Bytes → List Slice
  | [] => []
  | p::ps => ⟨n,p.length⟩::cuts (n+p.length) ps

variable {S : Bytes} {n : ℕ}

theorem bytes_of_drop {p rest : Bytes} (h : S.drop n = p ++ rest) :
    (⟨n,p.length⟩ : Slice).bytes S = p := by
  simp [bytes,h]

theorem drop_of_drop {p rest : Bytes} (h : S.drop n = p ++ rest) :
    S.drop (n+p.length) = rest := by
  rw [← List.drop_drop,h,List.drop_left]

theorem ops_cuts (initial : SeqNum) {parts : List Bytes} (h : S.drop n = parts.flatten) :
    ops S initial (cuts n parts) = Receiver.inOrder (initial.advance n) parts := by
  induction parts generalizing n with
  | nil => rfl
  | cons p ps ih =>
    rw [List.flatten_cons] at h
    have hrest := ih (drop_of_drop h)
    rw [Receiver.inOrder,SeqNum.advance_advance,← hrest]
    exact congrArg (fun q => Receiver.Op.ingest (initial.advance n) q::ops S initial (cuts _ ps))
      (bytes_of_drop h)

theorem ops_append_inOrder (initial : SeqNum) (xs : List Slice) {parts : List Bytes}
    (h : S.drop 0 = parts.flatten) :
    ops S initial xs ++ Receiver.inOrder initial parts = ops S initial (xs ++ cuts 0 parts) := by
  have hcuts := ops_cuts initial h
  rw [initial.advance_zero] at hcuts
  rw [← hcuts,ops,ops,ops,List.map_append]

theorem partOf_cuts {parts : List Bytes} (h : S.drop n = parts.flatten) :
    ∀ x ∈ cuts n parts, x.PartOf S := by
  induction parts generalizing n with
  | nil => simp [cuts]
  | cons p ps ih =>
    rw [List.flatten_cons] at h
    refine List.forall_mem_cons.mpr ⟨fun hp => ?_,ih (drop_of_drop h)⟩
    have hlength := congrArg List.length h
    have hpos : 0 < p.length := hp
    rw [List.length_drop,List.length_append] at hlength
    change n+p.length ≤ S.length
    omega

end Slice

namespace Receiver

open Slice

variable {S : Bytes} {initial : SeqNum} {n : ℕ} {r : Receiver}

/-- The next position keeps up with the pieces. -/
theorem run_cuts_passes (hS : S.length < 2^31) {parts : List Bytes}
    (hparts : S.drop n = parts.flatten) (hr : Anchored S initial r.stats.bytesDelivered r)
    (hn : n ≤ r.stats.bytesDelivered) :
    n+parts.flatten.length ≤
      (r.run (Slice.ops S initial (cuts n parts))).stats.bytesDelivered := by
  induction parts generalizing n r with
  | nil => exact hn
  | cons p ps ih =>
    have hx := (List.forall_mem_cons.mp (partOf_cuts hparts)).1
    rw [List.flatten_cons] at hparts ⊢
    have hrest := drop_of_drop hparts
    rw [List.length_append,← Nat.add_assoc]
    rcases Nat.eq_zero_or_pos p.length with hzero | hpos
    · have hstep := step_of_zero (x := ⟨n,p.length⟩) r S initial hzero
      have hsame : (r.step ((⟨n,p.length⟩ : Slice).op S initial)).receiver = r := by rw [hstep]
      exact ih hrest (hsame.symm ▸ hr) (by rw [hsame]; omega)
    · have hin : (⟨n,p.length⟩ : Slice).InStream S := ⟨hpos,hx hpos⟩
      have hw := hin.inWindow hS hr.inside
      have h := ingest_ingested r (initial.advance n) ((⟨n,p.length⟩ : Slice).bytes S)
      exact ih hrest (h.anchored hin hw hr).1 (h.passes hin hw hr hn)

/-- After any slices of a short stream, whatever became of them, its pieces in order from the
beginning complete it, and nothing is left to wait. -/
theorem retransmission_completes (S : Bytes) (hS : S.length < 2^31) (initial : SeqNum)
    (limits : Limits) (sink : ℕ) (xs : List Slice) (hxs : ∀ x ∈ xs, x.PartOf S)
    (parts : List Bytes) (hparts : parts.flatten = S) :
    let r := (start initial limits).setSink sink
    let ops := Slice.ops S initial xs ++ inOrder initial parts
    r.taken ops = S ∧ (r.run ops).nextSeq = initial.advance S.length ∧
      (r.run ops).pending = .empty ∧ (r.run ops).pendingBytes = 0 := by
  intro r ops
  have hdrop : S.drop 0 = parts.flatten := hparts.symm
  have hops : ops = Slice.ops S initial (xs ++ cuts 0 parts) := ops_append_inOrder initial xs hdrop
  have hall : ∀ x ∈ xs ++ cuts 0 parts, x.PartOf S := fun x hx =>
    (List.mem_append.mp hx).elim (hxs x) (partOf_cuts hdrop x)
  have hr : Anchored S initial r.stats.bytesDelivered r := anchored_start S initial limits sink
  have hend : Anchored S initial (r.run ops).stats.bytesDelivered (r.run ops) :=
    hops ▸ (run_anchored_of_short hS hall hr).1
  -- The pieces carry the next position to the end from wherever the slices have left it.
  have hcomplete : (r.run ops).stats.bytesDelivered = S.length := by
    have hfirst := (run_anchored_of_short hS hxs hr).1
    have hpasses := run_cuts_passes hS hdrop hfirst (Nat.zero_le _)
    rw [ops_cuts initial hdrop,initial.advance_zero,← run_append,hparts,Nat.zero_add] at hpasses
    exact Nat.le_antisymm hend.inside hpasses
  have htaken : r.taken ops = S.take (r.run ops).stats.bytesDelivered :=
    hops ▸ taken_of_short limits sink hS hall
  have hempty := hend.pending_eq_empty hcomplete
  refine ⟨?_,?_,hempty,?_⟩
  · rw [htaken,hcomplete,List.take_length]
  · rw [hend.next,hcomplete]
  · have hr : Consistent r := (consistent_start initial limits).congr rfl rfl rfl
    rw [(run_consistent ops hr).counted,hempty,Pending.bytes_empty]

/-- Slices of which some are given up, some refused, and one is left waiting. -/
def leftovers : List Slice := [⟨9,3⟩,⟨4,3⟩,⟨6,4⟩,⟨0,1⟩,⟨3,3⟩,⟨8,0⟩,⟨5,4⟩]

theorem letters_after_leftovers :
    (∀ x ∈ leftovers, x.PartOf letters) ∧
      (cramped.run (Slice.ops letters 0xfffffffc leftovers)).stats.bytesDelivered = 1 ∧
      (cramped.run (Slice.ops letters 0xfffffffc leftovers)).pending ≠ .empty ∧
      (cramped.run (Slice.ops letters 0xfffffffc leftovers)).stats.evictions = 2 ∧
      (cramped.run (Slice.ops letters 0xfffffffc leftovers)).stats.overflowDrops = 2 ∧
      cramped.taken (Slice.ops letters 0xfffffffc leftovers ++
        inOrder 0xfffffffc [[0,1,2],[3,4],[5],[6,7,8,9,10,11]]) = letters := by
  have hparts : ∀ x ∈ leftovers, x.PartOf letters := by decide
  have ⟨htaken,_⟩ := retransmission_completes letters (by decide) 0xfffffffc
    {maxSegments := some 1, maxBytes := some 4, overflow := .evictFurthest} 7 leftovers hparts
    [[0,1,2],[3,4],[5],[6,7,8,9,10,11]] (by decide)
  exact ⟨hparts,by decide +kernel,by decide +kernel,by decide +kernel,by decide +kernel,htaken⟩

end Receiver
end Reassembly
