import Mathlib.Data.UInt
import Reassembly.Proofs.Pending
import Reassembly.Receiver.Ingest

/-! Nothing depends on where the circle of positions begins. Turning it by a constant turns the
receiver, its operations and its events, and every operation commutes with the turn; the store,
which is kept in the order of plain numbers, is the only place where this takes an argument. -/
namespace Reassembly
namespace SeqNum

theorem distance_add (a b c : SeqNum) : distance (a+c) (b+c) = distance a b := by
  rw [distance,add_sub_add_right_eq_sub,distance]

theorem compare_add (a b c : SeqNum) : compare (a+c) (b+c) = compare a b := by
  simp only [compare,add_left_inj,add_sub_add_right_eq_sub]

theorem advance_add (a c : SeqNum) (n : ℕ) : (a+c).advance n = a.advance n + c :=
  add_right_comm a c _

end SeqNum

namespace Pending

/-- The store of some entries, the first of which counts where two start at the same place. -/
def ofEntries : List (SeqNum × Bytes) → Pending
  | [] => .empty
  | e::es => (ofEntries es).insert e.1 e.2

theorem get?_ofEntries (es : List (SeqNum × Bytes)) (key : SeqNum) :
    (ofEntries es).get? key = lookIn key es := by
  induction es with
  | nil => rfl
  | cons e es ih => rw [ofEntries,get?_insert,ih,lookIn]

def turnEntry (c : SeqNum) (e : SeqNum × Bytes) : SeqNum × Bytes := (e.1+c,e.2)

theorem turnEntry_injective (c : SeqNum) : Function.Injective (turnEntry c) := by
  rintro ⟨k,p⟩ ⟨l,q⟩ h
  simpa [turnEntry] using h

theorem lookIn_map_turnEntry (c key : SeqNum) (es : List (SeqNum × Bytes)) :
    lookIn key (es.map (turnEntry c)) = lookIn (key-c) es := by
  induction es with
  | nil => rfl
  | cons e es ih => simp only [List.map_cons,lookIn,turnEntry,ih,sub_eq_iff_eq_add]

theorem bytesIn_map_turnEntry (c : SeqNum) (es : List (SeqNum × Bytes)) :
    bytesIn (es.map (turnEntry c)) = bytesIn es := by
  simp [bytesIn_eq_sum,turnEntry,Function.comp_def]

/-- The store with every start moved on by `c`, in order again. -/
def turn (c : SeqNum) (p : Pending) : Pending := ofEntries (p.entries.map (turnEntry c))

variable (c key origin : SeqNum) (payload : Bytes) (p : Pending)

@[simp] theorem get?_turn : (p.turn c).get? key = p.get? (key-c) := by
  rw [turn,get?_ofEntries,lookIn_map_turnEntry,get?]

theorem perm_turn : (p.turn c).entries.Perm (p.entries.map (turnEntry c)) := by
  apply (List.perm_ext_iff_of_nodup (entries_nodup _)
    (p.entries_nodup.map (turnEntry_injective c))).mpr
  rintro ⟨k,v⟩
  rw [← get?_eq_some_iff,get?_turn,get?_eq_some_iff]
  constructor
  · intro h
    exact List.mem_map.mpr ⟨_,h,by simp [turnEntry]⟩
  · intro h
    obtain ⟨e,he,hkv⟩ := List.mem_map.mp h
    obtain ⟨rfl,rfl⟩ := Prod.mk.inj hkv
    simpa using he

@[simp] theorem size_turn : (p.turn c).size = p.size := by
  simpa [size] using (p.perm_turn c).length_eq

theorem turn_insert : (p.insert key payload).turn c = (p.turn c).insert (key+c) payload := by
  refine eq_of_get? fun k => ?_
  simp only [get?_turn,get?_insert,sub_eq_iff_eq_add]

theorem turn_erase : (p.erase key).turn c = (p.turn c).erase (key+c) := by
  refine eq_of_get? fun k => ?_
  simp only [get?_turn,get?_erase,sub_eq_iff_eq_add]

theorem firstFrom?_turn : (p.turn c).firstFrom? (origin+c) = (p.firstFrom? origin).map (·+c) := by
  cases h : p.firstFrom? origin with
  | none =>
    rw [firstFrom?_eq_none h]
    rfl
  | some first =>
    obtain ⟨hheld,hleast⟩ := firstFrom?_eq_some h
    refine firstFrom?_eq_some_iff.mpr ⟨by simpa using hheld,fun k q hk => ?_⟩
    rw [get?_turn] at hk
    have hle := hleast (k-c) q hk
    rwa [← SeqNum.distance_add origin first c,← SeqNum.distance_add origin (k-c) c,
      sub_add_cancel] at hle

theorem lastFrom?_turn : (p.turn c).lastFrom? (origin+c) = (p.lastFrom? origin).map (·+c) := by
  cases h : p.lastFrom? origin with
  | none =>
    rw [lastFrom?_eq_none h]
    rfl
  | some last =>
    obtain ⟨hheld,hmost⟩ := lastFrom?_eq_some h
    refine lastFrom?_eq_some_iff.mpr ⟨by simpa using hheld,fun k q hk => ?_⟩
    rw [get?_turn] at hk
    have hle := hmost (k-c) q hk
    rwa [← SeqNum.distance_add origin last c,← SeqNum.distance_add origin (k-c) c,
      sub_add_cancel] at hle

end Pending

def Event.turn (c : SeqNum) : Event → Event
  | .opened initial limits => .opened (initial+c) limits
  | .moved source target pending => .moved (source+c) (target+c) pending
  | .retransmitted seq len next => .retransmitted (seq+c) len (next+c)
  | .trimmed seq covered next => .trimmed (seq+c) covered (next+c)
  | .refused seq len pending pendingBytes => .refused (seq+c) len pending pendingBytes
  | .refiled key covered next => .refiled (key+c) covered (next+c)
  | .stale key len => .stale (key+c) len
  | .delivered sink start data => .delivered sink (start+c) data
  | .evicted key len => .evicted (key+c) len
  | .released segments bytes => .released segments bytes

theorem Event.chunks_map_turn (c : SeqNum) (events : List Event) :
    chunks (events.map (turn c)) = chunks events := by
  have hchunk : chunk? ∘ turn c = chunk? := by
    funext e
    cases e with
    | delivered sink => cases sink <;> rfl
    | _ => rfl
  rw [chunks,List.filterMap_map,hchunk,chunks]

namespace Receiver

def turn (c : SeqNum) (r : Receiver) : Receiver :=
  {r with nextSeq := r.nextSeq+c, pending := r.pending.turn c}

def turnBoth (c : SeqNum) (x : Receiver × List Event) : Receiver × List Event :=
  (x.1.turn c,x.2.map (Event.turn c))

def turnAll {α : Type} (c : SeqNum) (x : α × Receiver × List Event) : α × Receiver × List Event :=
  (x.1,turnBoth c x.2)

def Op.turn (c : SeqNum) : Op → Op
  | .ingest seq data => .ingest (seq+c) data
  | .reset seq => .reset (seq+c)
  | .setSink sink => .setSink sink
  | .clearSink => .clearSink

def Step.turn (c : SeqNum) (s : Step) : Step :=
  ⟨s.outcome,s.receiver.turn c,s.events.map (Event.turn c)⟩

/-- Two steps that differ only in where the circle begins: `c` positions further in the second. -/
structure Step.Turned (c : SeqNum) (s t : Step) : Prop where
  outcome : t.outcome = s.outcome
  chunks : Event.chunks t.events = Event.chunks s.events
  events : t.events = s.events.map (Event.turn c)
  stats : t.receiver.stats = s.receiver.stats
  pendingBytes : t.receiver.pendingBytes = s.receiver.pendingBytes
  next : t.receiver.nextSeq = s.receiver.nextSeq+c
  pending : t.receiver.pending.entries.Perm
    (s.receiver.pending.entries.map fun e => (e.1+c,e.2))
  setup : t.receiver.limits = s.receiver.limits ∧ t.receiver.sink = s.receiver.sink

theorem Step.turned_turn (c : SeqNum) (s : Step) : Step.Turned c s (s.turn c) where
  outcome := rfl
  chunks := Event.chunks_map_turn c s.events
  events := rfl
  stats := rfl
  pendingBytes := rfl
  next := rfl
  pending := s.receiver.pending.perm_turn c
  setup := ⟨rfl,rfl⟩

variable (c seq key : SeqNum) (r : Receiver) (payload data : Bytes) (growth entries : ℕ)

@[simp] theorem turn_nextSeq : (r.turn c).nextSeq = r.nextSeq+c := rfl
@[simp] theorem turn_limits : (r.turn c).limits = r.limits := rfl
@[simp] theorem turn_pending : (r.turn c).pending = r.pending.turn c := rfl
@[simp] theorem turn_pendingBytes : (r.turn c).pendingBytes = r.pendingBytes := rfl

theorem start_turn (initial : SeqNum) (limits : Limits) :
    start (initial+c) limits = (start initial limits).turn c := rfl

theorem origin_turn : (r.turn c).origin = r.origin+c := (add_assoc _ _ _).symm

theorem rank_turn : (r.turn c).rank (key+c) = r.rank key := by
  rw [rank,origin_turn,SeqNum.distance_add,rank]

theorem firstKey?_turn : (r.turn c).firstKey? = r.firstKey?.map (·+c) := by
  rw [firstKey?,origin_turn,turn_pending,Pending.firstFrom?_turn,firstKey?]

theorem furthestKey?_turn : (r.turn c).furthestKey? = r.furthestKey?.map (·+c) := by
  rw [furthestKey?,origin_turn,turn_pending,Pending.lastFrom?_turn,furthestKey?]

theorem take?_turn : (r.turn c).take? (key+c) = (r.take? key).map (Prod.map id (turn c)) := by
  simp [take?,turn,Pending.turn_erase,Function.comp_def]

theorem deliver_turn : (r.turn c).deliver data = turnBoth c (r.deliver data) := by
  simp [deliver,turnBoth,turn,Event.turn,SeqNum.advance_add]

theorem fitsAfterFreeing_turn (freedEntries freedBytes : ℕ) :
    (r.turn c).fitsAfterFreeing freedEntries freedBytes growth entries =
      r.fitsAfterFreeing freedEntries freedBytes growth entries := by
  rw [fitsAfterFreeing,turn_limits,turn_pending,Pending.size_turn,turn_pendingBytes,fitsAfterFreeing]

theorem fits_turn : (r.turn c).fits growth entries = r.fits growth entries :=
  fitsAfterFreeing_turn c r growth entries 0 0

/-- The payloads further ahead are the same ones, in an order of their own. -/
theorem further_turn :
    ((r.turn c).further (seq+c)).Perm ((r.further seq).map (Pending.turnEntry c)) := by
  refine ((r.pending.perm_turn c).filter _).trans (List.Perm.of_eq ?_)
  rw [List.filter_map]
  congr 1
  refine List.filter_congr fun e _ => ?_
  simp only [Function.comp_apply,Pending.turnEntry,rank_turn]

theorem length_further_turn : ((r.turn c).further (seq+c)).length = (r.further seq).length := by
  simpa using (r.further_turn c seq).length_eq

theorem bytesIn_further_turn :
    Pending.bytesIn ((r.turn c).further (seq+c)) = Pending.bytesIn (r.further seq) := by
  rw [← Pending.bytesIn_map_turnEntry c (r.further seq),Pending.bytesIn_eq_sum,
    Pending.bytesIn_eq_sum]
  exact ((r.further_turn c seq).map fun e => e.2.length).sum_eq

theorem evictUntilFits_turn :
    (r.turn c).evictUntilFits (seq+c) growth entries =
      turnAll c (r.evictUntilFits seq growth entries) := by
  fun_induction evictUntilFits r seq growth entries with
  | case1 r hfits =>
    rw [evictUntilFits,fits_turn,if_pos hfits]
    rfl
  | case2 r hfits hkey =>
    rw [evictUntilFits,fits_turn,if_neg hfits,furthestKey?_turn,hkey]
    rfl
  | case3 r hfits key hkey hle =>
    rw [evictUntilFits,fits_turn,if_neg hfits,furthestKey?_turn,hkey]
    simp only [Option.map_some,rank_turn,if_pos hle]
    rfl
  | case4 r hfits key hkey hle htake =>
    rw [evictUntilFits,fits_turn,if_neg hfits,furthestKey?_turn,hkey]
    simp only [Option.map_some,rank_turn,if_neg hle]
    split
    · rfl
    · rename_i htaken
      simp [take?_turn,htake] at htaken
  | case5 r hfits key hkey hle payload s htake s' ok t events he ih =>
    rw [evictUntilFits,fits_turn,if_neg hfits,furthestKey?_turn,hkey]
    simp only [Option.map_some,rank_turn,if_neg hle]
    split
    · rename_i htaken
      simp [take?_turn,htake] at htaken
    · rename_i htaken
      rw [take?_turn,htake] at htaken
      cases htaken
      have hrest := ih.trans (congrArg (turnAll c) he)
      exact congrArg (fun x => (x.1,x.2.1,Event.evicted (key+c) payload.length::x.2.2)) hrest

theorem makeRoom_turn (len : ℕ) :
    (r.turn c).makeRoom (seq+c) len growth entries =
      turnAll c (r.makeRoom seq len growth entries) := by
  simp only [makeRoom,fits_turn,turn_limits,length_further_turn,bytesIn_further_turn,
    fitsAfterFreeing_turn,evictUntilFits_turn]
  split
  · rfl
  · split
    · rfl
    · cases r.limits.overflow with
      | dropNew => rfl
      | evictFurthest =>
        dsimp only
        split <;> rfl

theorem file_turn (filing : Filing) :
    (r.turn c).file (seq+c) payload growth entries filing =
      turnAll c (r.file seq payload growth entries filing) := by
  rw [file,makeRoom_turn,file]
  obtain ⟨ok,s,events⟩ := r.makeRoom seq payload.length growth entries
  cases ok with
  | false => rfl
  | true => simp only [turnAll,turnBoth,turn,Pending.turn_insert]

theorem store_turn : (r.turn c).store (seq+c) payload = turnAll c (r.store seq payload) := by
  simp only [store,turn_pending,Pending.get?_turn,add_sub_cancel_right,file_turn]
  cases r.pending.get? seq with
  | none => rfl
  | some held =>
    dsimp only
    split <;> rfl

theorem drainRound?_turn : (r.turn c).drainRound? = r.drainRound?.map (turnBoth c) := by
  rw [drainRound?,firstKey?_turn,drainRound?]
  cases r.firstKey? with
  | none => rfl
  | some key =>
    simp only [Option.map_some,turn_nextSeq,SeqNum.compare_add,take?_turn]
    cases SeqNum.compare key r.nextSeq with
    | after => rfl
    | equal =>
      cases r.take? key with
      | none => rfl
      | some taken => exact congrArg some (deliver_turn c taken.2 taken.1)
    | before =>
      cases r.take? key with
      | none => rfl
      | some taken =>
        obtain ⟨payload,s⟩ := taken
        simp only [Option.map_some,Prod.map_apply,id,turn_nextSeq,SeqNum.advance_add,
          SeqNum.compare_add,SeqNum.distance_add,store_turn]
        split <;> rfl

theorem drain_turn : (r.turn c).drain = turnBoth c r.drain := by
  fun_induction drain r with
  | case1 r hround =>
    rw [drain]
    split
    · rfl
    · rename_i hturned
      simp [drainRound?_turn,hround] at hturned
  | case2 r s events hround t rest he ih =>
    rw [drain]
    split
    · rename_i hturned
      simp [drainRound?_turn,hround] at hturned
    · rename_i hturned
      rw [drainRound?_turn,hround] at hturned
      cases hturned
      simp only [turnBoth,ih,he,List.map_append]

theorem deliverOrStore_turn (trimmed : Bool) :
    (r.turn c).deliverOrStore (seq+c) data trimmed =
      turnAll c (r.deliverOrStore seq data trimmed) := by
  simp only [deliverOrStore,turn_nextSeq,add_left_inj,deliver_turn,store_turn]
  split
  · rfl
  · obtain ⟨filing,s,events⟩ := r.store seq data
    cases filing <;> simp [turnAll,turnBoth,Event.turn] <;> rfl

theorem place_turn : (r.turn c).place (seq+c) data = turnAll c (r.place seq data) := by
  have hcount : (r.turn c).countTrimmed = r.countTrimmed.turn c := rfl
  simp only [place,turn_nextSeq,SeqNum.advance_add,SeqNum.compare_add,SeqNum.distance_add,hcount,
    deliverOrStore_turn]
  split
  · rfl
  · split
    · split <;> rfl
    · rfl

theorem ingest_turn : (r.turn c).ingest (seq+c) data = turnAll c (r.ingest seq data) := by
  have hcount : (r.turn c).countSegment = r.countSegment.turn c := rfl
  simp only [ingest,hcount,place_turn]
  split
  · rfl
  · simp [turnAll,turnBoth,drain_turn]

theorem step_turn (op : Op) : (r.turn c).step (op.turn c) = (r.step op).turn c := by
  cases op with
  | ingest seq data => simp [step,Op.turn,ingest_turn,turnAll,turnBoth,Step.turn]
  | reset seq => simp [step,Op.turn,reset,Step.turn,turn,Event.turn]
  | setSink | clearSink => rfl

theorem steps_turn (ops : List Op) :
    (r.turn c).steps (ops.map (Op.turn c)) = (r.steps ops).map (Step.turn c) := by
  induction ops generalizing r with
  | nil => rfl
  | cons op ops ih =>
    have hnext : ((r.step op).turn c).receiver = (r.step op).receiver.turn c := rfl
    rw [List.map_cons,steps,step_turn,hnext,ih,steps,List.map_cons]

/-- Where the circle begins is never seen: with `c` added to every position that goes in, each step
of a run has the same outcome, chunks and counters, and `c` is added to every position it keeps. -/
theorem steps_turned (c initial : SeqNum) (limits : Limits) (ops : List Op) :
    List.Forall₂ (Step.Turned c) ((start initial limits).steps ops)
      ((start (initial+c) limits).steps (ops.map (Op.turn c))) := by
  rw [start_turn,steps_turn,List.forall₂_map_right_iff]
  exact List.forall₂_same.mpr fun s _ => s.turned_turn c

end Receiver
end Reassembly
