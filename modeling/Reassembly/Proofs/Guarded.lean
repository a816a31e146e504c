import Reassembly.Proofs.DrainBound
import Reassembly.Proofs.Eviction

/-! Operations that check what they take for granted: that a payload named by the circular order is
held, that no more is taken off a count than it amounts to, and that data is cut no further than it
reaches. Each returns what the plain operation does, unless the store is not consistent; then it may
lapse. So no run comes to a lapse. -/
namespace Reassembly
namespace Receiver

/-- What does not hold although an operation takes it for granted. -/
inductive Lapse
  | notHeld
  | countBelowZero
  | cutTooFar
  deriving DecidableEq, Repr

namespace Guarded

/-- Goes on only if `p` holds. -/
def require (p : Prop) [Decidable p] (lapse : Lapse) : Except Lapse Unit :=
  if p then .ok () else .error lapse

def minus (whole part : ℕ) : Except Lapse ℕ := do
  require (part ≤ whole) .countBelowZero
  return whole-part

/-- Takes a payload out of the store, which has to hold and to count it. -/
def take (r : Receiver) (key : SeqNum) : Except Lapse (Bytes × Receiver) :=
  match r.pending.get? key with
  | none => .error .notHeld
  | some payload => do
    let pendingBytes ← minus r.pendingBytes payload.length
    return (payload,{r with pending := r.pending.erase key, pendingBytes})

def fitsAfterFreeing (r : Receiver) (freedEntries freedBytes growth entries : ℕ) :
    Except Lapse Bool := do
  let size ← minus r.pending.size freedEntries
  let bytes ← minus r.pendingBytes freedBytes
  return r.limits.maxSegments.all (fun max => size+entries ≤ max) &&
    r.limits.maxBytes.all (fun max => bytes+growth ≤ max)

theorem size_lt_of_take {r s : Receiver} {key : SeqNum} {payload : Bytes}
    (h : take r key = .ok (payload,s)) : s.pending.size < r.pending.size := by
  unfold take at h
  split at h
  · cases h
  · rename_i hheld
    unfold minus require at h
    split at h
    · cases h
      exact Pending.size_erase_lt hheld
    · cases h

/-- What lies furthest has to be held. Whether there is room now takes nothing off a count, so that
`fits` needs no guard. -/
def evictUntilFits (r : Receiver) (seq : SeqNum) (growth entries : ℕ) :
    Except Lapse (Bool × Receiver × List Event) :=
  if r.fits growth entries then .ok (true,r,[])
  else
    match r.furthestKey? with
    | none => .ok (false,r,[])
    | some key =>
      if r.rank key ≤ r.rank seq then .ok (false,r,[])
      else
        match _h : take r key with
        | .error lapse => .error lapse
        | .ok (payload,s) => do
          let (ok,t,events) ← evictUntilFits s.countEvicted seq growth entries
          return (ok,t,.evicted key payload.length::events)
termination_by r.pending.size
decreasing_by exact size_lt_of_take (s:=s) _h

def makeRoom (r : Receiver) (seq : SeqNum) (len growth entries : ℕ) :
    Except Lapse (Bool × Receiver × List Event) :=
  if r.fits growth entries then .ok (true,r,[])
  else if r.limits.maxBytes.any (fun max => max < len) then .ok (false,r,[])
  else
    match r.limits.overflow with
    | .dropNew => .ok (false,r,[])
    | .evictFurthest => do
      let freed := r.further seq
      let enough ← fitsAfterFreeing r freed.length (Pending.bytesIn freed) growth entries
      if enough then evictUntilFits r seq growth entries else return (false,r,[])

def file (r : Receiver) (seq : SeqNum) (payload : Bytes) (growth entries : ℕ) (filing : Filing) :
    Except Lapse (Filing × Receiver × List Event) := do
  match ← makeRoom r seq payload.length growth entries with
  | (true,s,events) => return (filing,s.holding seq payload growth,events)
  | (false,s,events) => return (.rejected,s,events)

def store (r : Receiver) (seq : SeqNum) (payload : Bytes) :
    Except Lapse (Filing × Receiver × List Event) :=
  match r.pending.get? seq with
  | none => file r seq payload payload.length 1 .inserted
  | some held =>
    if payload.length ≤ held.length then .ok (.kept,r,[])
    else do
      let growth ← minus payload.length held.length
      file r seq payload growth 0 .replaced

def drainRound? (r : Receiver) : Except Lapse (Option (Receiver × List Event)) :=
  match r.firstKey? with
  | none => .ok none
  | some key =>
    match SeqNum.compare key r.nextSeq with
    | .after => .ok none
    | .equal => do
      let (payload,s) ← take r key
      return some (s.deliver payload)
    | .before => do
      let (payload,s) ← take r key
      if SeqNum.compare (key.advance payload.length) s.nextSeq = .after then
        let covered := SeqNum.distance key s.nextSeq
        require (covered < payload.length) .cutTooFar
        let (_,t,events) ← store s s.nextSeq (payload.drop covered)
        return some (t,.refiled key covered s.nextSeq::events)
      else return some (s,[.stale key payload.length])

/-- The guarded operation returns `a`, or lapses where `P` does not hold. -/
def Faithful {α : Type} (P : Prop) (x : Except Lapse α) (a : α) : Prop :=
  x = .ok a ∨ ¬P ∧ ∃ lapse, x = .error lapse

section

variable {α β : Type} {P Q : Prop} {x : Except Lapse α} {a : α} {b : β}

theorem faithful_ok (P : Prop) (a : α) : Faithful P (.ok a) a := .inl rfl

theorem Faithful.eq_ok (h : Faithful P x a) (hP : P) : x = .ok a := h.resolve_right fun hn => hn.1 hP

theorem Faithful.eq_of_ok {c : α} (h : Faithful P x a) (hx : x = .ok c) : a = c := by
  rcases h with h | ⟨_,lapse,h⟩ <;> rw [hx] at h <;> cases h
  rfl

theorem Faithful.mono (hPQ : P → Q) (h : Faithful Q x a) : Faithful P x a :=
  h.imp_right fun hn => ⟨fun hP => hn.1 (hPQ hP),hn.2⟩

theorem Faithful.bind {f : α → Except Lapse β} (h : Faithful P x a) (hf : Faithful P (f a) b) :
    Faithful P (x >>= f) b := by
  rcases h with rfl | ⟨hn,lapse,rfl⟩
  · exact hf
  · exact .inr ⟨hn,lapse,rfl⟩

theorem faithful_require {p : Prop} [Decidable p] (lapse : Lapse) (h : P → p) :
    Faithful P (require p lapse) () := by
  by_cases hp : p
  · exact .inl (if_pos hp)
  · exact .inr ⟨fun hP => hp (h hP),lapse,if_neg hp⟩

theorem faithful_minus {whole part : ℕ} (h : P → part ≤ whole) :
    Faithful P (minus whole part) (whole-part) := (faithful_require _ h).bind (faithful_ok _ _)

end

variable {r s : Receiver} {seq key : SeqNum} {payload data : Bytes} {growth entries : ℕ}

theorem take_faithful (held : r.pending.get? key = some payload) :
    Faithful (Consistent r) (take r key) (payload,r.without key payload) := by
  have hle : Consistent r → payload.length ≤ r.pendingBytes := by
    intro hr
    rw [hr.counted,Pending.bytes_eq_of_get? held]
    exact Nat.le_add_right _ _
  rw [take,held]
  exact (faithful_minus hle).bind (faithful_ok _ _)

theorem fitsAfterFreeing_faithful :
    Faithful (Consistent r) (fitsAfterFreeing r (r.further seq).length
        (Pending.bytesIn (r.further seq)) growth entries)
      (r.fitsAfterFreeing (r.further seq).length (Pending.bytesIn (r.further seq)) growth
        entries) := by
  have hentries : Consistent r → (r.further seq).length ≤ r.pending.size :=
    fun _ => List.length_filter_le _ _
  have hbytes : Consistent r → Pending.bytesIn (r.further seq) ≤ r.pendingBytes :=
    fun hr => hr.counted ▸ bytesIn_further_le r seq
  exact (faithful_minus hentries).bind ((faithful_minus hbytes).bind (faithful_ok _ _))

theorem evictUntilFits_faithful :
    Faithful (Consistent r) (evictUntilFits r seq growth entries)
      (r.evictUntilFits seq growth entries) := by
  fun_induction Receiver.evictUntilFits r seq growth entries with
  | case1 r hfits =>
    rw [evictUntilFits,if_pos hfits]
    exact faithful_ok _ _
  | case2 r hfits hkey =>
    rw [evictUntilFits,if_neg hfits,hkey]
    exact faithful_ok _ _
  | case3 r hfits key hkey hle =>
    rw [evictUntilFits,if_neg hfits,hkey]
    dsimp only
    rw [if_pos hle]
    exact faithful_ok _ _
  | case4 r hfits key hkey hfurther hnone =>
    obtain ⟨payload,held⟩ := Option.isSome_iff_exists.mp (Pending.lastFrom?_eq_some hkey).1
    simp [take?,held] at hnone
  | case5 r hfits key hkey hfurther payload s htaken s' ok t events he ih =>
    obtain ⟨held,rfl⟩ := take?_eq_some_iff.mp htaken
    rw [he] at ih
    have hleft : Consistent r → Consistent s' := fun hr => (hr.without held).congr rfl rfl rfl
    rw [evictUntilFits,if_neg hfits,hkey]
    dsimp only
    rw [if_neg hfurther]
    split
    · rename_i lapse hlapse
      have hn : ¬Consistent r := by
        intro hr
        rw [(take_faithful held).eq_ok hr] at hlapse
        cases hlapse
      exact .inr ⟨hn,lapse,rfl⟩
    · rename_i hok
      cases (take_faithful held).eq_of_ok hok
      exact (ih.mono hleft).bind (faithful_ok _ _)

theorem makeRoom_faithful {len : ℕ} :
    Faithful (Consistent r) (makeRoom r seq len growth entries)
      (r.makeRoom seq len growth entries) := by
  rw [makeRoom,Receiver.makeRoom]
  split
  · exact faithful_ok _ _
  · split
    · exact faithful_ok _ _
    · cases r.limits.overflow with
      | dropNew => exact faithful_ok _ _
      | evictFurthest =>
        refine fitsAfterFreeing_faithful.bind ?_
        dsimp only
        split
        · exact evictUntilFits_faithful
        · exact faithful_ok _ _

theorem file_faithful {filing : Filing} :
    Faithful (Consistent r) (file r seq payload growth entries filing)
      (r.file seq payload growth entries filing) := by
  refine makeRoom_faithful.bind ?_
  rw [Receiver.file]
  obtain ⟨ok,s,events⟩ := r.makeRoom seq payload.length growth entries
  cases ok <;> exact faithful_ok _ _

theorem store_faithful :
    Faithful (Consistent r) (store r seq payload) (r.store seq payload) := by
  rw [store,Receiver.store]
  cases r.pending.get? seq with
  | none => exact file_faithful
  | some held =>
    dsimp only
    split
    · exact faithful_ok _ _
    · rename_i hlong
      exact (faithful_minus fun _ => (not_le.mp hlong).le).bind file_faithful

theorem drainRound?_faithful :
    Faithful (Consistent r) (drainRound? r) r.drainRound? := by
  rw [drainRound?,Receiver.drainRound?]
  cases hfirst : r.firstKey? with
  | none => exact faithful_ok _ _
  | some key =>
    obtain ⟨payload,held⟩ := Option.isSome_iff_exists.mp (Pending.firstFrom?_eq_some hfirst).1
    have htake : r.take? key = some (payload,r.without key payload) :=
      take?_eq_some_iff.mpr ⟨held,rfl⟩
    have hguarded := take_faithful held
    dsimp only
    rw [htake]
    cases hbehind : SeqNum.compare key r.nextSeq with
    | after => exact faithful_ok _ _
    | equal => exact hguarded.bind (faithful_ok _ _)
    | before =>
      refine hguarded.bind ?_
      by_cases hreaches : SeqNum.compare (key.advance payload.length) r.nextSeq = .after
      · simp only [Option.map_some,without_nextSeq,hreaches,if_true]
        have hlt := SeqNum.distance_lt_of_reaches hbehind hreaches
        have hleft : Consistent r → Consistent (r.without key payload) := fun hr => hr.without held
        exact (faithful_require _ fun _ => hlt).bind
          ((store_faithful.mono hleft).bind (faithful_ok _ _))
      · simp only [Option.map_some,without_nextSeq,hreaches,if_false]
        exact faithful_ok _ _

/-- Each guarded round is a round, and so lowers the backlog. -/
theorem backlog_drainRound? {events : List Event} (h : drainRound? r = .ok (some (s,events))) :
    s.backlog < r.backlog := Receiver.backlog_drainRound? (drainRound?_faithful.eq_of_ok h)

def drain (r : Receiver) : Except Lapse (Receiver × List Event) :=
  match _h : drainRound? r with
  | .error lapse => .error lapse
  | .ok none => .ok (r,[])
  | .ok (some (s,events)) => do
    let (t,rest) ← drain s
    return (t,events++rest)
termination_by r.backlog
decreasing_by exact backlog_drainRound? _h

theorem drain_faithful : Faithful (Consistent r) (drain r) r.drain := by
  have hround := fun r : Receiver => drainRound?_faithful (r:=r)
  fun_induction drain r with
  | case1 r lapse h =>
    have hn : ¬Consistent r := by
      intro hr
      rw [(hround r).eq_ok hr] at h
      cases h
    exact .inr ⟨hn,lapse,rfl⟩
  | case2 r h =>
    rw [drain_of_none ((hround r).eq_of_ok h)]
    exact faithful_ok _ _
  | case3 r s events h ih =>
    have hsome := (hround r).eq_of_ok h
    have hleft : Consistent r → Consistent s := (drainRound?_eq_some hsome).consistent
    rw [drain_of_some hsome]
    exact (ih.mono hleft).bind (faithful_ok _ _)

def deliverOrStore (r : Receiver) (seq : SeqNum) (data : Bytes) (trimmed : Bool) :
    Except Lapse (Outcome × Receiver × List Event) :=
  if seq = r.nextSeq then
    let (s,events) := r.deliver data
    .ok (.delivered trimmed,s,events)
  else do
    match ← store r seq data with
    | (.inserted,s,events) => return (.buffered trimmed,s.countBuffered,events)
    | (.replaced,s,events) => return (.buffered trimmed,s.countBuffered,events)
    | (.kept,s,events) => return (.duplicate,s.countDuplicate,events)
    | (.rejected,s,events) => return (.dropped,s.countDropped,
        events++[.refused seq data.length s.pending.size s.pendingBytes])

/-- What is left of a segment may be empty, but it is cut no further than its end. -/
def place (r : Receiver) (seq : SeqNum) (data : Bytes) :
    Except Lapse (Outcome × Receiver × List Event) :=
  if SeqNum.compare (seq.advance data.length) r.nextSeq = .before then
    .ok (.duplicate,r.countDuplicate,[.retransmitted seq data.length r.nextSeq])
  else if SeqNum.compare seq r.nextSeq = .before then do
    let covered := SeqNum.distance seq r.nextSeq
    require (covered ≤ data.length) .cutTooFar
    let rest := data.drop covered
    if rest.isEmpty then return (.duplicate,r.countDuplicate,[])
    else
      let (outcome,s,events) ← deliverOrStore r.countTrimmed r.nextSeq rest true
      return (outcome,s,.trimmed seq covered r.nextSeq::events)
  else deliverOrStore r seq data false

def ingest (r : Receiver) (seq : SeqNum) (data : Bytes) :
    Except Lapse (Outcome × Receiver × List Event) :=
  if data.isEmpty then .ok (.empty,r,[])
  else do
    let (outcome,s,events) ← place r.countSegment seq data
    let (t,rest) ← drain s
    return (outcome,t,events++rest)

theorem deliverOrStore_faithful {trimmed : Bool} :
    Faithful (Consistent r) (deliverOrStore r seq data trimmed)
      (r.deliverOrStore seq data trimmed) := by
  rw [deliverOrStore,Receiver.deliverOrStore]
  split
  · exact faithful_ok _ _
  · refine store_faithful.bind ?_
    obtain ⟨filing,s,events⟩ := r.store seq data
    cases filing <;> exact faithful_ok _ _

theorem place_faithful : Faithful (Consistent r) (place r seq data) (r.place seq data) := by
  rw [place,Receiver.place]
  split
  · exact faithful_ok _ _
  · rename_i hends
    split
    · rename_i hstarts
      have hle : SeqNum.distance seq r.nextSeq ≤ data.length := by
        by_contra hlt
        exact hends (SeqNum.compare_of_lt_distance hstarts (not_le.mp hlt))
      have hcounted : Consistent r → Consistent r.countTrimmed := fun hr => hr.congr rfl rfl rfl
      refine (faithful_require _ fun _ => hle).bind ?_
      dsimp only
      split
      · exact faithful_ok _ _
      · exact (deliverOrStore_faithful.mono hcounted).bind (faithful_ok _ _)
    · exact deliverOrStore_faithful

theorem ingest_faithful : Faithful (Consistent r) (ingest r seq data) (r.ingest seq data) := by
  rw [ingest,Receiver.ingest]
  split
  · exact faithful_ok _ _
  · rename_i hd
    have hcounted : Consistent r → Consistent r.countSegment := fun hr => hr.congr rfl rfl rfl
    have hplaced : Consistent r → Consistent (r.countSegment.place seq data).2.1 := fun hr =>
      (place_placed _ seq data).consistent (hcounted hr) (by simpa using hd)
    refine (place_faithful.mono hcounted).bind ?_
    exact (drain_faithful.mono hplaced).bind (faithful_ok _ _)

/-- After any run, a segment of any size is taken in without a lapse, and the guarded operation
returns what the plain one does. -/
theorem ingest_never_lapses (initial : SeqNum) (limits : Limits) (ops : List Op) (seq : SeqNum)
    (data : Bytes) :
    let r := (start initial limits).run ops
    ingest r seq data = .ok (r.ingest seq data) := by
  intro r
  have hr : Consistent r := run_consistent ops (consistent_start initial limits)
  exact ingest_faithful.eq_ok hr

/-- Where the counter is short of what waits, taking a payload out lapses. -/
example :
    ingest {start 0 {} with pending := Pending.empty.insert 1 [1,2], pendingBytes := 1} 0 [0] =
      .error .countBelowZero := by
  decide +kernel

end Guarded
end Receiver
end Reassembly
