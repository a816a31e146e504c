import Mathlib.Data.List.MinMax
import Mathlib.Data.Prod.Lex
import Reassembly.Proofs.Draining

/-! What draining hands on, told without its rounds. Of the payloads that start no later than the
next position and end beyond it, the one that reaches furthest is handed on from there; the others
are forgotten, and so on with what lies ahead. The rounds reach the same choice by cutting one
payload at a time and letting the rests meet at the next position. -/
namespace Reassembly
namespace Pending

/-- What waits ahead of the next position. -/
def ahead (next : SeqNum) (p : Pending) : Pending :=
  p.keep fun key => SeqNum.compare key next = .after

/-- The entries that start no later than the next position and end beyond it. -/
def due (next : SeqNum) (p : Pending) : List (SeqNum × Bytes) :=
  p.entries.filter fun e => SeqNum.compare e.1 next ≠ .after ∧
    SeqNum.compare (e.1.advance e.2.length) next = .after

/-- The part of an entry from the next position on. -/
def beyond (next : SeqNum) (e : SeqNum × Bytes) : Bytes := e.2.drop (SeqNum.distance e.1 next)

/-- An entry that reaches further takes precedence; of two that reach equally far, the one that
starts at the next position, or else the one that starts further behind. -/
def precedence (next : SeqNum) (e : SeqNum × Bytes) : ℕ ×ₗ ℕ :=
  toLex ((beyond next e).length,if e.1 = next then 2^31 else SeqNum.distance e.1 next)

def foremost? (next : SeqNum) (p : Pending) : Option (SeqNum × Bytes) :=
  (p.due next).argmax (precedence next)

/-- The data to hand on next. -/
def part? (next : SeqNum) (p : Pending) : Option Bytes := (p.foremost? next).map (beyond next)

theorem size_ahead_lt {next : SeqNum} {p : Pending} {data : Bytes} (h : p.part? next = some data) :
    (p.ahead next).size < p.size := by
  obtain ⟨e,he,-⟩ := Option.map_eq_some_iff.mp h
  have hdue := List.mem_filter.mp (List.argmax_mem he)
  refine List.length_filter_lt_length_iff_exists.mpr ⟨e,hdue.1,?_⟩
  simpa using (of_decide_eq_true hdue.2).1

/-- The data handed on in turn, each with its position, the next position after it, and what is left
to wait. -/
def greedy (next : SeqNum) (p : Pending) : List (SeqNum × Bytes) × SeqNum × Pending :=
  match _h : p.part? next with
  | none => ([],next,p.ahead next)
  | some data =>
    let (parts,last,left) := (p.ahead next).greedy (next.advance data.length)
    ((next,data)::parts,last,left)
termination_by p.size
decreasing_by exact size_ahead_lt _h

variable {p q : Pending} {next key : SeqNum} {payload data : Bytes} {e f : SeqNum × Bytes}

theorem greedy_of_none (h : p.part? next = none) : p.greedy next = ([],next,p.ahead next) := by
  rw [greedy]
  split
  · rfl
  · rename_i hsome
    simp [h] at hsome

theorem greedy_of_some (h : p.part? next = some data) :
    p.greedy next = ((next,data)::((p.ahead next).greedy (next.advance data.length)).1,
      ((p.ahead next).greedy (next.advance data.length)).2) := by
  rw [greedy]
  split
  · rename_i hnone
    simp [h] at hnone
  · rename_i data' hsome
    rw [h] at hsome
    cases hsome
    rfl

theorem greedy_congr (hpart : p.part? next = q.part? next) (hahead : p.ahead next = q.ahead next) :
    p.greedy next = q.greedy next := by
  cases hp : p.part? next with
  | none => rw [greedy_of_none hp,greedy_of_none (hpart.symm.trans hp),hahead]
  | some data => rw [greedy_of_some hp,greedy_of_some (hpart.symm.trans hp),hahead]

@[simp] theorem beyond_next (next : SeqNum) (payload : Bytes) :
    beyond next (next,payload) = payload := by
  simp [beyond]

theorem length_beyond : (beyond next (key,payload)).length =
    payload.length-SeqNum.distance key next := List.length_drop

theorem mem_due (hp : p.Short) : (key,payload) ∈ p.due next ↔
    p.get? key = some payload ∧ SeqNum.distance key next < 2^31 ∧
      SeqNum.distance key next < payload.length := by
  rw [due,List.mem_filter,← get?_eq_some_iff,decide_eq_true_eq]
  refine and_congr_right fun hk => ?_
  rw [← SeqNum.compare_ne_after]
  exact and_congr_right fun hc => SeqNum.reaches_iff hc (hp.length_lt hk)

theorem mem_due_next (hp : p.Short) (hk : p.get? next = some payload) (hpayload : payload ≠ []) :
    (next,payload) ∈ p.due next :=
  (mem_due hp).mpr ⟨hk,by simp,by simpa using List.length_pos_iff.mpr hpayload⟩

theorem precedence_inj (hp : p.Short) (he : e ∈ p.due next) (hf : f ∈ p.due next)
    (h : precedence next e = precedence next f) : e = f := by
  obtain ⟨key,payload⟩ := e
  obtain ⟨key',payload'⟩ := f
  obtain ⟨hheld,hbehind,-⟩ := (mem_due hp).mp he
  obtain ⟨hheld',hbehind',-⟩ := (mem_due hp).mp hf
  have hstart := congrArg (fun x => (ofLex x).2) h
  simp only [precedence,ofLex_toLex] at hstart
  have hkey : key = key' := by
    split at hstart <;> split at hstart
    · rename_i hk hk'
      exact hk.trans hk'.symm
    · omega
    · omega
    · exact SeqNum.distance_inj_left.mp hstart
  subst hkey
  rw [hheld] at hheld'
  cases hheld'
  rfl

theorem foremost?_eq_some_iff (hp : p.Short) : p.foremost? next = some e ↔
    e ∈ p.due next ∧ ∀ f ∈ p.due next, precedence next f ≤ precedence next e := by
  rw [foremost?,← Option.mem_def,List.mem_argmax_iff]
  refine ⟨fun ⟨he,hmost,_⟩ => ⟨he,hmost⟩,fun ⟨he,hmost⟩ => ⟨he,hmost,fun f hf hle => ?_⟩⟩
  rw [precedence_inj hp he hf (le_antisymm hle (hmost f hf))]

theorem precedence_le_iff : precedence next e ≤ precedence next f ↔
    (beyond next e).length < (beyond next f).length ∨
      (beyond next e).length = (beyond next f).length ∧
        (if e.1 = next then 2^31 else SeqNum.distance e.1 next) ≤
          if f.1 = next then 2^31 else SeqNum.distance f.1 next :=
  Prod.Lex.toLex_le_toLex

theorem mem_due_erase : e ∈ (p.erase key).due next ↔ e.1 ≠ key ∧ e ∈ p.due next := by
  simp only [due,erase,List.mem_filter,decide_eq_true_eq]
  tauto

theorem mem_due_insert (hp : p.Short) (hd : data ≠ []) (hl : data.length < 2^31) :
    e ∈ (p.insert next data).due next ↔ e = (next,data) ∨ e.1 ≠ next ∧ e ∈ p.due next := by
  obtain ⟨key,payload⟩ := e
  have hpos := List.length_pos_iff.mpr hd
  rw [mem_due (hp.insert hl),mem_due hp,get?_insert]
  by_cases hk : key = next
  · subst hk
    simp only [if_true,Option.some.injEq,SeqNum.distance_self,Prod.mk.injEq,true_and,ne_eq,
      not_true_eq_false,false_and,or_false]
    refine ⟨fun h => h.1.symm,?_⟩
    rintro rfl
    exact ⟨rfl,by norm_num,hpos⟩
  · simp [hk]

theorem eq_of_mem_due (hp : p.Short) (hk : p.get? key = some payload) (he : e ∈ p.due next)
    (hkey : e.1 = key) : e = (key,payload) := by
  obtain ⟨k,v⟩ := e
  cases hkey
  have hheld := ((mem_due hp).mp he).1
  rw [hk] at hheld
  cases hheld
  rfl

/-- Nothing changes when an entry goes that another takes precedence over. -/
theorem foremost?_erase (hp : p.Short) (hk : p.get? key = some payload) (hf : f ∈ p.due next)
    (hlt : precedence next (key,payload) < precedence next f) :
    (p.erase key).foremost? next = p.foremost? next := by
  refine Option.ext fun e => ?_
  rw [foremost?_eq_some_iff (hp.erase key),foremost?_eq_some_iff hp,mem_due_erase]
  have hfk : f.1 ≠ key := fun heq => hlt.ne (by rw [eq_of_mem_due hp hk hf heq])
  constructor
  · rintro ⟨⟨-,he⟩,hmost⟩
    have hfe := hmost f (mem_due_erase.mpr ⟨hfk,hf⟩)
    refine ⟨he,fun g hg => ?_⟩
    by_cases hgk : g.1 = key
    · rw [eq_of_mem_due hp hk hg hgk]
      exact hlt.le.trans hfe
    · exact hmost g (mem_due_erase.mpr ⟨hgk,hg⟩)
  · rintro ⟨he,hmost⟩
    refine ⟨⟨fun hek => ?_,he⟩,fun g hg => hmost g (mem_due_erase.mp hg).2⟩
    rw [eq_of_mem_due hp hk he hek] at hmost
    exact absurd (hmost f hf) (not_le.mpr hlt)

def refile (next : SeqNum) (p : Pending) (key : SeqNum) (payload : Bytes) : Pending :=
  (p.erase key).insert next (beyond next (key,payload))

/-- The entry at `key` starts furthest behind of all that are due, and what is left of it is longer
than what waits at the next position. -/
structure Cut (next : SeqNum) (p : Pending) (key : SeqNum) (payload : Bytes) : Prop where
  small : p.Short
  held : p.get? key = some payload
  other : key ≠ next
  behind : SeqNum.distance key next < 2^31
  reaches : SeqNum.distance key next < payload.length
  furthest : ∀ e ∈ p.due next, SeqNum.distance e.1 next ≤ SeqNum.distance key next
  longer : ∀ shorter, p.get? next = some shorter →
    shorter.length < (beyond next (key,payload)).length

namespace Cut

theorem mem_due (h : Cut next p key payload) : (key,payload) ∈ p.due next :=
  (Pending.mem_due h.small).mpr ⟨h.held,h.behind,h.reaches⟩

theorem length_beyond_pos (h : Cut next p key payload) :
    0 < (beyond next (key,payload)).length := by
  have hreaches := h.reaches
  rw [length_beyond]
  omega

theorem length_beyond_lt (h : Cut next p key payload) :
    (beyond next (key,payload)).length < 2^31 := by
  have hlt := h.small.length_lt h.held
  rw [length_beyond]
  omega

theorem small_refile (h : Cut next p key payload) : (p.refile next key payload).Short :=
  (h.small.erase key).insert h.length_beyond_lt

theorem mem_due_refile (h : Cut next p key payload) :
    e ∈ (p.refile next key payload).due next ↔
      e = (next,beyond next (key,payload)) ∨ e.1 ≠ next ∧ e.1 ≠ key ∧ e ∈ p.due next := by
  rw [refile,mem_due_insert (h.small.erase key) (List.ne_nil_of_length_pos h.length_beyond_pos)
    h.length_beyond_lt,mem_due_erase]

/-- If the entry that is cut has precedence, its rest has it afterwards. -/
theorem foremost?_self (h : Cut next p key payload)
    (hmost : ∀ f ∈ p.due next, precedence next f ≤ precedence next (key,payload)) :
    (p.refile next key payload).foremost? next = some (next,beyond next (key,payload)) := by
  refine (foremost?_eq_some_iff h.small_refile).mpr ⟨h.mem_due_refile.mpr (.inl rfl),fun f hf => ?_⟩
  rcases h.mem_due_refile.mp hf with rfl | ⟨hfn,-,hf⟩
  · exact le_rfl
  · have hle := precedence_le_iff.mp (hmost f hf)
    have hfurthest := h.furthest f hf
    have hbehind := h.behind
    rw [if_neg hfn,if_neg h.other] at hle
    rw [precedence_le_iff,beyond_next,if_neg hfn,if_pos rfl]
    omega

/-- Another entry that has precedence is not at the next position, where only less would wait, and
starts less far behind than the one that is cut; so it reaches further and keeps it. -/
theorem foremost?_other (h : Cut next p key payload) (he : e ∈ p.due next) (hek : e.1 ≠ key)
    (hmost : ∀ f ∈ p.due next, precedence next f ≤ precedence next e) :
    (p.refile next key payload).foremost? next = some e := by
  have hle := precedence_le_iff.mp (hmost _ h.mem_due)
  have hen : e.1 ≠ next := by
    rintro rfl
    have hlonger := h.longer e.2 ((Pending.mem_due h.small).mp he).1
    have hwhole : beyond e.1 e = e.2 := beyond_next e.1 e.2
    rw [hwhole] at hle
    omega
  have hfarther : (beyond next (key,payload)).length < (beyond next e).length := by
    have hfurthest := h.furthest e he
    have hdistance : SeqNum.distance e.1 next ≠ SeqNum.distance key next :=
      fun heq => hek (SeqNum.distance_inj_left.mp heq)
    rw [if_neg h.other,if_neg hen] at hle
    dsimp only at hle
    omega
  refine (foremost?_eq_some_iff h.small_refile).mpr
    ⟨h.mem_due_refile.mpr (.inr ⟨hen,hek,he⟩),fun f hf => ?_⟩
  rcases h.mem_due_refile.mp hf with rfl | ⟨-,-,hf⟩
  · rw [precedence_le_iff,beyond_next]
    exact .inl hfarther
  · exact hmost f hf

theorem part?_eq (h : Cut next p key payload) :
    (p.refile next key payload).part? next = p.part? next := by
  obtain ⟨e,he⟩ : ∃ e, p.foremost? next = some e := Option.ne_none_iff_exists'.mp fun hnone =>
    List.ne_nil_of_mem h.mem_due (List.argmax_eq_none.mp hnone)
  obtain ⟨hdue,hmost⟩ := (foremost?_eq_some_iff h.small).mp he
  by_cases hek : e.1 = key
  · obtain rfl := eq_of_mem_due h.small h.held hdue hek
    rw [part?,part?,he,h.foremost?_self hmost,Option.map_some,Option.map_some,beyond_next]
  · rw [part?,part?,he,h.foremost?_other hdue hek hmost]

end Cut

theorem part?_erase_of_ends (hk : p.get? key = some payload)
    (hends : SeqNum.compare (key.advance payload.length) next ≠ .after) :
    (p.erase key).part? next = p.part? next := by
  have hdue : (p.erase key).due next = p.due next := by
    rw [due,due,erase,List.filter_filter]
    refine List.filter_congr fun e he => ?_
    by_cases hek : e.1 = key
    · have heq := get?_eq_some_iff.mpr he
      rw [hek,hk] at heq
      cases heq
      simp [hek,hends]
    · simp [hek]
  rw [part?,part?,foremost?,foremost?,hdue]

theorem part?_erase_of_absorbed (hp : p.Short) (hk : p.get? key = some payload) (hne : key ≠ next)
    (hbehind : SeqNum.distance key next < 2^31) (hwaits : p.get? next = some data)
    (hdata : data ≠ []) (hle : (beyond next (key,payload)).length ≤ data.length) :
    (p.erase key).part? next = p.part? next := by
  have hlt : precedence next (key,payload) < precedence next (next,data) := by
    rw [← not_le,precedence_le_iff,beyond_next,if_pos rfl,if_neg hne]
    dsimp only
    omega
  rw [part?,part?,foremost?_erase hp hk (mem_due_next hp hwaits hdata) hlt]

theorem part?_of_alone (hp : p.Short) (hk : p.get? next = some payload) (hpayload : payload ≠ [])
    (halone : ∀ {key payload}, p.get? key = some payload → SeqNum.distance key next < 2^31 →
      key = next) : p.part? next = some payload := by
  have hforemost : p.foremost? next = some (next,payload) := by
    refine (foremost?_eq_some_iff hp).mpr ⟨mem_due_next hp hk hpayload,fun f hf => ?_⟩
    obtain ⟨hheld,hbehind,-⟩ := (mem_due hp).mp hf
    rw [eq_of_mem_due hp hk hf (halone hheld hbehind)]
  simp [part?,hforemost]

theorem part?_of_all_ahead (h : ∀ {key payload}, p.get? key = some payload →
    SeqNum.compare key next = .after) : p.part? next = none := by
  have hdue : p.due next = [] := by
    refine List.filter_eq_nil_iff.mpr fun e he => ?_
    simp [h (get?_eq_some_iff.mpr he)]
  simp [part?,foremost?,hdue]

@[simp] theorem get?_ahead (next : SeqNum) (p : Pending) (key : SeqNum) :
    (p.ahead next).get? key = if SeqNum.compare key next = .after then p.get? key else none := by
  simp [ahead]

theorem ahead_erase (h : SeqNum.compare key next ≠ .after) :
    (p.erase key).ahead next = p.ahead next := by
  refine eq_of_get? fun k => ?_
  by_cases hk : k = key <;> simp [hk,h]

theorem ahead_of_alone (halone : ∀ {key payload}, p.get? key = some payload →
    SeqNum.distance key next < 2^31 → key = next) : p.ahead next = p.erase next := by
  refine eq_of_get? fun k => ?_
  rw [get?_ahead,get?_erase]
  by_cases hk : k = next
  · simp [hk]
  · rw [if_neg hk]
    cases hheld : p.get? k with
    | none => simp
    | some payload =>
      have hafter : SeqNum.compare k next = .after := by
        by_contra hc
        exact hk (halone hheld (SeqNum.compare_ne_after.mp hc))
      rw [if_pos hafter]

theorem ahead_insert (h : SeqNum.compare key next ≠ .after) (payload : Bytes) :
    (p.insert key payload).ahead next = p.ahead next := by
  refine eq_of_get? fun k => ?_
  by_cases hk : k = key <;> simp [hk,h]

theorem ahead_of_all_ahead (h : ∀ {key payload}, p.get? key = some payload →
    SeqNum.compare key next = .after) : p.ahead next = p := by
  refine eq_of_get? fun k => ?_
  rw [get?_ahead]
  cases hk : p.get? k with
  | none => simp
  | some payload => simp [h hk]

end Pending

namespace Receiver

variable {r t : Receiver} {key : SeqNum} {payload : Bytes} {events : List Event}

theorem distance_le_of_firstKey? (h : r.firstKey? = some key) {k : SeqNum} {p : Bytes}
    (hk : r.pending.get? k = some p) (hbehind : SeqNum.distance k r.nextSeq < 2^31) :
    SeqNum.distance k r.nextSeq ≤ SeqNum.distance key r.nextSeq := by
  have hle : r.rank key ≤ r.rank k := (Pending.firstFrom?_eq_some h).2 k p hk
  have hnext := r.nextSeq.toNat_lt
  have hkey := key.toNat_lt
  have hk' := k.toNat_lt
  rw [rank_eq,rank_eq] at hle
  simp only [SeqNum.distance_eq] at hle hbehind ⊢
  omega

theorem FreeRound.greedy_eq (h : FreeRound r t events) (hr : Consistent r)
    (hs : r.pending.Short) : r.pending.greedy r.nextSeq =
      (Event.deliveries events ++ (t.pending.greedy t.nextSeq).1,
        (t.pending.greedy t.nextSeq).2) := by
  cases h with
  | @handOn payload first held =>
    have halone : ∀ {k p}, r.pending.get? k = some p → SeqNum.distance k r.nextSeq < 2^31 →
        k = r.nextSeq := by
      intro k p hk hbehind
      have hle := distance_le_of_firstKey? first hk hbehind
      rw [SeqNum.distance_self] at hle
      exact SeqNum.distance_eq_zero.mp (Nat.le_zero.mp hle)
    have hpart : r.pending.part? r.nextSeq = some payload :=
      Pending.part?_of_alone hs held (hr.nonempty held) halone
    rw [Pending.greedy_of_some hpart,Pending.ahead_of_alone halone]
    rfl
  | discard first behind held ends =>
    exact Pending.greedy_congr (Pending.part?_erase_of_ends held ends).symm
      (Pending.ahead_erase (by simp [behind])).symm
  | absorb first behind held reaches waits short =>
    have hbehind := (SeqNum.compare_eq_before.mp behind).2
    exact Pending.greedy_congr
      (Pending.part?_erase_of_absorbed hs held (ne_next_of_behind behind) hbehind waits
        (hr.nonempty waits) short).symm
      (Pending.ahead_erase (by simp [behind])).symm
  | @refile key payload _ first behind held reaches long =>
    have hbehind := (SeqNum.compare_eq_before.mp behind).2
    have hcovers := SeqNum.distance_lt_of_reaches behind reaches
    have hcut : Pending.Cut r.nextSeq r.pending key payload := by
      refine ⟨hs,held,ne_next_of_behind behind,hbehind,hcovers,fun e he => ?_,long⟩
      obtain ⟨hheld,hb,-⟩ := (Pending.mem_due hs).mp he
      exact distance_le_of_firstKey? first hheld hb
    exact Pending.greedy_congr hcut.part?_eq.symm
      ((Pending.ahead_insert (by simp) _).trans (Pending.ahead_erase (by simp [behind]))).symm

theorem FreelyDrains.greedy_eq (h : FreelyDrains r t events) (hs : r.pending.Short) :
    r.pending.greedy r.nextSeq = (Event.deliveries events,t.nextSeq,t.pending) := by
  induction h with
  | @done r _ rest =>
    have hahead : ∀ {key payload}, r.pending.get? key = some payload →
        SeqNum.compare key r.nextSeq = .after := drainRound?_eq_none rest
    rw [Pending.greedy_of_none (Pending.part?_of_all_ahead hahead),
      Pending.ahead_of_all_ahead hahead]
    rfl
  | round consistent first _ ih =>
    rw [first.greedy_eq consistent hs,ih (first.short hs),Event.deliveries_append]

/-- Draining a consistent receiver hands on what the greedy choice does, and ends at the same next
position with the same payloads waiting. -/
theorem drain_is_greedy (hr : Consistent r) (hs : r.pending.Short) :
    r.pending.greedy r.nextSeq =
        (Event.deliveries r.drain.2,r.drain.1.nextSeq,r.drain.1.pending) ∧
      Event.chunks r.drain.2 =
        Event.handedTo r.sink (r.pending.greedy r.nextSeq).1 := by
  have h := hr.drain_freely.greedy_eq hs
  rw [h]
  exact ⟨rfl,(drain_drains r).chunks_eq⟩

/-- Three payloads that reach equally far beyond position 0, one of which starts there; one that
ends behind it; and two that come next. -/
def tangle : List Op :=
  [.ingest 0xfffffffc [1,2,3,4,5,6],.ingest 0xfffffffe [3,4,5,6],.ingest 0 [7,8],
    .ingest 0xfffffffa [9],.ingest 1 [6,7,8,9],.ingest 5 [0],.reset 0]

theorem greedy_of_tangle :
    ((start 0xfffffff0 {}).run tangle).pending.size = 6 ∧
      ((start 0xfffffff0 {}).run tangle).pending.Short ∧
      ((start 0xfffffff0 {}).run tangle).pending.greedy 0 =
        ([(0,[7,8]),(2,[7,8,9]),(5,[0])],6,.empty) ∧
      Event.deliveries ((start 0xfffffff0 {}).run tangle).drain.2 =
        [(0,[7,8]),(2,[7,8,9]),(5,[0])] := by
  have hr : Consistent ((start 0xfffffff0 {}).run tangle) :=
    run_consistent tangle (consistent_start _ _)
  have hs : ((start 0xfffffff0 {}).run tangle).pending.Short := by
    rw [Pending.Short]
    decide +kernel
  have hgreedy : ((start 0xfffffff0 {}).run tangle).pending.greedy 0 =
      ([(0,[7,8]),(2,[7,8,9]),(5,[0])],6,.empty) := by
    decide +kernel
  have hdrain := (drain_is_greedy hr hs).1
  exact ⟨by decide +kernel,hs,hgreedy,(congrArg Prod.fst (hdrain.symm.trans hgreedy))⟩

end Receiver
end Reassembly
