import Mathlib.Data.List.Forall2
import Reassembly.CommandLine.Packets
import Reassembly.Packet.Draft
import Reassembly.Proofs.ConnectionDelivery
import Reassembly.Proofs.DumpGrammar
import Reassembly.Proofs.ReportReading
import Reassembly.Proofs.StreamOutput

/-! Successive connections of a flow in one dump. The first SYN opens a connection, and so does
every SYN once FIN or RST has come; whatever its segments did to the receiver before, the streams
are written one after the other. -/
namespace Reassembly

open Connection (opened)

theorem DumpEvent.chunks_connection (events : List ConnectionEvent) :
    chunks (events.map .connection) = (ConnectionEvent.chunks events).map (·.2) := by
  induction events with
  | nil => rfl
  | cons e es ih =>
    have hfirst : chunks [.connection e] = (ConnectionEvent.chunks [e]).map (·.2) := by
      cases e with
      | receiver event => cases h : event.chunk? <;> simp [chunks,data?,ConnectionEvent.chunks,h]
      | opened | finished => rfl
    rw [List.map_cons,← List.singleton_append,chunks_append,ih,hfirst,← List.map_append,
      ← ConnectionEvent.chunks_append]
    rfl

namespace Follower

def takeAll (f : Follower) : List (ℕ × Segment) → Follower × List DumpEvent
  | [] => (f,[])
  | (line,s)::ss =>
    let (g,events) := f.take line s
    let (h,rest) := g.takeAll ss
    (h,events++rest)

def handed (f : Follower) (ss : List (ℕ × Segment)) : Bytes :=
  (DumpEvent.chunks (f.takeAll ss).2).flatten

def following (f : Follower) (c : Connection) : Follower := {f with connection := some c}

variable {f : Follower} {c d : Connection} {s : Segment} {found renewed : List DumpEvent}
  {line : ℕ}

theorem takeAll_append (f : Follower) (xs ys : List (ℕ × Segment)) :
    (f.takeAll (xs++ys)).1 = ((f.takeAll xs).1.takeAll ys).1 ∧
      f.handed (xs++ys) = f.handed xs ++ (f.takeAll xs).1.handed ys := by
  induction xs generalizing f with
  | nil => exact ⟨rfl,rfl⟩
  | cons x xs ih =>
    have ⟨hlast,hdata⟩ := ih (f.take x.1 x.2).1
    refine ⟨hlast,?_⟩
    simp only [handed,takeAll,List.cons_append,DumpEvent.chunks_append,List.flatten_append] at hdata ⊢
    rw [hdata,List.append_assoc]

/-- The reader gives the segments to a connection, which it follows from then on. -/
def Feeds (f : Follower) (ns : List (ℕ × Segment)) (c : Connection) : Prop :=
  (f.takeAll ns).1 = f.following (c.run (ns.map Prod.snd)) ∧ f.handed ns = c.taken (ns.map Prod.snd)

theorem Feeds.cons {ns : List (ℕ × Segment)} (hfirst : f.Feeds [(line,s)] c)
    (hrest : (f.following (c.process s).2.1).Feeds ns (c.process s).2.1) :
    f.Feeds ((line,s)::ns) c := by
  have ⟨hlast,hdata⟩ := takeAll_append f [(line,s)] ns
  have hnext : (f.takeAll [(line,s)]).1 = f.following (c.process s).2.1 := hfirst.1
  rw [hnext] at hlast hdata
  constructor
  · exact hlast.trans hrest.1
  · rw [← List.singleton_append,hdata,hfirst.2,hrest.2]
    exact (Connection.taken_cons c s _).symm

theorem feeds_of_renew (hcurrent : f.current s = (c,found)) (hflow : s.flow = c.flow)
    (hrenew : f.renew c line s = (d,renewed)) (hfound : DumpEvent.chunks found = [])
    (hrenewed : DumpEvent.chunks renewed = []) : f.Feeds [(line,s)] d := by
  have hdone : ∀ outcome, DumpEvent.chunks [.processed line s.seq s.payload.length outcome] = [] :=
    fun _ => rfl
  have hdata : DumpEvent.chunks (f.take line s).2 =
      (ConnectionEvent.chunks (d.process s).2.2).map (·.2) := by
    simp only [take,hcurrent,if_pos hflow,hrenew,DumpEvent.chunks_append,hfound,hrenewed,hdone,
      DumpEvent.chunks_connection,List.nil_append,List.append_nil]
  constructor
  · simp only [takeAll,take,hcurrent,if_pos hflow,hrenew]
    rfl
  · simp [handed,takeAll,hdata,Connection.taken,Connection.trace,List.flatMap]

theorem feeds_next (hc : f.connection = some c) (hflow : s.flow = c.flow) (hsyn : s.isSyn = false)
    (line : ℕ) : f.Feeds [(line,s)] c :=
  feeds_of_renew (by rw [current,hc]) hflow (by rw [renew,hsyn]; rfl) rfl rfl

theorem feeds_rest {ns : List (ℕ × Segment)} (hc : f.connection = some c)
    (hns : ∀ s ∈ ns.map Prod.snd, s.flow = c.flow ∧ s.isSyn = false) : f.Feeds ns c := by
  induction ns generalizing f c with
  | nil =>
    have hsame : f = f.following c := by rw [following,← hc]
    exact ⟨hsame,rfl⟩
  | cons n ns ih =>
    have ⟨⟨hflow,hsyn⟩,hrest⟩ := List.forall_mem_cons.mp hns
    exact (feeds_next hc hflow hsyn n.1).cons (ih rfl hrest)

/-- A SYN of the flow would open a connection. -/
def IsFree (f : Follower) (flow : Flow) : Prop :=
  ∀ c, f.connection = some c → c.flow = flow ∧ c.finished = true

theorem chunks_close (c : Connection) : DumpEvent.chunks (close c) = [] := by
  rw [close,Receiver.close]
  split <;> rfl

theorem chunks_restarted (f : Follower) (c : Connection) (line : ℕ) (s : Segment) :
    DumpEvent.chunks (.restarted line s.flow::(f.openConnection s).2 ++ close c) = [] := by
  rw [DumpEvent.chunks_append,chunks_close]
  rfl

theorem feeds_syn (hfree : f.IsFree s.flow) (hsyn : s.isSyn = true) (line : ℕ) :
    f.Feeds [(line,s)] (f.openConnection s).1 := by
  cases hc : f.connection with
  | none =>
    have hcurrent : f.current s =
        ((f.openConnection s).1,.following s.flow::(f.openConnection s).2) := by
      rw [current,hc]
    -- With no idle time allowed, the connection just opened is given up for another like it.
    cases hidle : Connection.isIdle 0 f.idleTimeout with
    | false =>
      have hrenew : f.renew (f.openConnection s).1 line s = ((f.openConnection s).1,[]) := by
        simp [renew,Connection.isExpired,hidle,openConnection,Connection.start,Connection.setSink]
      exact feeds_of_renew hcurrent rfl hrenew rfl rfl
    | true =>
      have hrenew : f.renew (f.openConnection s).1 line s = ((f.openConnection s).1,
          .restarted line s.flow::(f.openConnection s).2 ++ close (f.openConnection s).1) := by
        simp [renew,hsyn,Connection.isExpired,hidle]
      exact feeds_of_renew hcurrent rfl hrenew rfl (chunks_restarted ..)
  | some c =>
    obtain ⟨hflow,hfinished⟩ := hfree c hc
    have hrenew : f.renew c line s = ((f.openConnection s).1,
        .restarted line s.flow::(f.openConnection s).2 ++ close c) := by
      simp [renew,hsyn,Connection.isExpired,hfinished]
    exact feeds_of_renew (by rw [current,hc]) hflow.symm hrenew rfl (chunks_restarted ..)

end Follower

/-- A connection of a flow from its SYN on, with segments in any order that cover a stream. -/
structure Session (flow : Flow) where
  stream : Bytes
  syn : Segment
  rest : List Segment
  short : stream.length < 2^31
  opens : syn.isSyn = true
  bare : syn.payload = []
  onFlow : ∀ s ∈ syn::rest, s.flow = flow
  goesOn : ∀ s ∈ rest, s.isSyn = false ∧ s.TakenFrom stream (syn.seq.advance 1)
  covered : ∀ j < stream.length, ∃ s ∈ rest, (s.slice (syn.seq.advance 1)).Covers j

namespace Session

variable {flow : Flow} (x : Session flow) (overflow : Overflow)

def segments : List Segment := x.syn::x.rest

def Ends : Prop := ∃ s ∈ x.rest, s.isFin = true ∨ s.isRst = true

/-- A receiver that was given this session only. -/
def receiver (limits : Limits) : Receiver :=
  ((Receiver.start (x.syn.seq.advance 1) limits).setSink 0).run
    (x.rest.map fun s => .ingest s.seq s.payload)

theorem dataStart_syn : Connection.dataStart x.syn = x.syn.seq.advance 1 := if_pos x.opens

theorem brings : Connection.Brings x.stream x.syn.seq 0 (opened x.syn overflow 0) x.segments := by
  refine ⟨?_,fun _ => ⟨(x.syn.seq.advance_zero).symm,rfl⟩,Connection.brings_of_not_syn x.goesOn⟩
  rw [Segment.TakenFrom,Segment.slice,x.bare]
  rfl

theorem taken_segments : (opened x.syn overflow 0).taken x.segments = x.stream := by
  have hc : (opened x.syn overflow 0).receiver =
      Receiver.uncapped ((x.syn.seq.advance 1).advance 0) overflow 0 := by
    rw [SeqNum.advance_zero,← x.dataStart_syn]
    rfl
  obtain ⟨m,hm,htaken,_⟩ := (x.brings overflow).hands_on x.short (Nat.zero_le _) hc
  have hall : x.stream.length ≤ m := hm.2 ⟨Nat.zero_le _,le_rfl,fun j _ hj =>
    have ⟨s,hs,hcovers⟩ := x.covered j hj
    ⟨s,List.mem_cons_of_mem _ hs,hcovers⟩⟩
  rw [htaken,List.take_of_length_le hall,List.drop_zero]

theorem ops_rest {ss : List Segment} (h : ∀ s ∈ ss, s.isSyn = false) :
    ss.flatMap Segment.ops = ss.map fun s => .ingest s.seq s.payload := by
  induction ss with
  | nil => rfl
  | cons s ss ih =>
    have ⟨hs,hrest⟩ := List.forall_mem_cons.mp h
    rw [List.flatMap_cons,ih hrest,Segment.ops_of_not_syn hs]
    rfl

theorem run_segments :
    ((opened x.syn overflow 0).run x.segments).receiver = x.receiver {overflow} := by
  have hsyn : ((opened x.syn overflow 0).process x.syn).2.1.receiver =
      (Receiver.start (x.syn.seq.advance 1) {overflow}).setSink 0 := by
    rw [Connection.process_receiver,Segment.ops_of_syn x.opens,x.bare,← x.dataStart_syn]
    rfl
  rw [segments,Connection.run,Connection.run_receiver,hsyn,ops_rest fun s hs => (x.goesOn s hs).1]
  rfl

variable {f : Follower}

theorem feeds_segments (hlimits : f.limits = {overflow}) (hfree : f.IsFree flow)
    {ns : List (ℕ × Segment)} (hns : ns.map Prod.snd = x.segments) :
    f.Feeds ns (opened x.syn overflow 0) := by
  obtain ⟨⟨line,s⟩,ns,rfl,rfl,hrest⟩ := List.map_eq_cons_iff.mp hns
  have ⟨hflow,hflows⟩ := List.forall_mem_cons.mp x.onFlow
  have hopen : (f.openConnection x.syn).1 = opened x.syn overflow 0 := by
    rw [Follower.openConnection,hlimits]
    rfl
  refine (hopen ▸ Follower.feeds_syn (hflow ▸ hfree) x.opens line).cons
    (Follower.feeds_rest rfl fun s hs => ?_)
  have hs : s ∈ x.rest := hrest ▸ hs
  exact ⟨(hflows s hs).trans hflow.symm,(x.goesOn s hs).1⟩

theorem takeAll_segments (hlimits : f.limits = {overflow}) (hfree : f.IsFree flow)
    {ns : List (ℕ × Segment)} (hns : ns.map Prod.snd = x.segments) :
    (f.takeAll ns).1 = f.following ((opened x.syn overflow 0).run x.segments) ∧
      f.handed ns = x.stream := by
  have ⟨hlast,hdata⟩ := x.feeds_segments overflow hlimits hfree hns
  rw [hns] at hlast hdata
  exact ⟨hlast,hdata.trans (x.taken_segments overflow)⟩

/-- Once a session has ended, a SYN opens another connection. -/
theorem isFree_of_ends (hends : x.Ends) :
    (f.following ((opened x.syn overflow 0).run x.segments)).IsFree flow := by
  rintro c hc
  obtain rfl : (opened x.syn overflow 0).run x.segments = c := Option.some.inj hc
  obtain ⟨s,hs,hfinal⟩ := hends
  refine ⟨?_,(Connection.run_finished _ _).mpr (.inr ⟨s,List.mem_cons_of_mem _ hs,hfinal⟩)⟩
  rw [Connection.run_flow]
  exact x.onFlow x.syn List.mem_cons_self

theorem takeAll_ended {xs : List (Session flow)} (hxs : ∀ x ∈ xs, x.Ends)
    (hlimits : f.limits = {overflow}) (hfree : f.IsFree flow) {ns : List (ℕ × Segment)}
    (hns : ns.map Prod.snd = xs.flatMap segments) :
    (f.takeAll ns).1.limits = {overflow} ∧ (f.takeAll ns).1.IsFree flow ∧
      f.handed ns = xs.flatMap stream := by
  induction xs generalizing f ns with
  | nil =>
    obtain rfl := List.map_eq_nil_iff.mp hns
    exact ⟨hlimits,hfree,rfl⟩
  | cons x xs ih =>
    have ⟨hends,hrest⟩ := List.forall_mem_cons.mp hxs
    obtain ⟨ms,ns,rfl,hms,hns⟩ := List.map_eq_append_iff.mp hns
    have ⟨hfirst,hstream⟩ := x.takeAll_segments overflow hlimits hfree hms
    have ⟨hlast,hdata⟩ := f.takeAll_append ms ns
    rw [hfirst] at hlast hdata
    have ⟨hlimits',hfree',hrest'⟩ := ih (f := f.following _) hrest hlimits
      (x.isFree_of_ends overflow hends) hns
    rw [hlast,hdata,hstream,hrest']
    exact ⟨hlimits',hfree',rfl⟩

/-- The reader follows the last session when all are over. -/
theorem takeAll_sessions {xs : List (Session flow)} (hends : ∀ x ∈ xs.dropLast, x.Ends)
    (hlimits : f.limits = {overflow}) (hnone : f.connection = none) {ns : List (ℕ × Segment)}
    (hns : ns.map Prod.snd = xs.flatMap segments) :
    ((f.takeAll ns).1.connection.map Connection.receiver =
        xs.getLast?.map fun x => x.receiver {overflow}) ∧
      f.handed ns = xs.flatMap stream := by
  have hfree : f.IsFree flow := fun c hc => by rw [hnone] at hc; cases hc
  rcases List.eq_nil_or_concat' xs with rfl | ⟨xs,x,rfl⟩
  · obtain rfl := List.map_eq_nil_iff.mp hns
    exact ⟨by rw [Follower.takeAll,hnone]; rfl,rfl⟩
  · rw [List.dropLast_concat] at hends
    rw [List.flatMap_append,List.flatMap_singleton] at hns
    obtain ⟨ms,ns,rfl,hms,hns⟩ := List.map_eq_append_iff.mp hns
    have ⟨hlimits',hfree',hstreams⟩ := takeAll_ended overflow hends hlimits hfree hms
    have ⟨hfollowing,hstream⟩ := x.takeAll_segments overflow hlimits' hfree' hns
    have ⟨hlast,hdata⟩ := f.takeAll_append ms ns
    rw [hlast,hfollowing,hdata,hstreams,hstream,List.getLast?_concat,List.flatMap_append,
      List.flatMap_singleton]
    exact ⟨congrArg some (x.run_segments overflow),rfl⟩

end Session

namespace Dump

theorem readFrom_of_holds {ls : List (List Char)} {ss : List Segment}
    (h : List.Forall₂ Holds (ls.filter hasPacket) ss) (f : Follower) (number : ℕ) :
    ∃ ns, ns.map Prod.snd = ss ∧
      readFrom f number ls = ⟨none,(f.takeAll ns).1,(f.takeAll ns).2⟩ := by
  induction ls generalizing f number ss with
  | nil =>
    cases h
    exact ⟨[],rfl,rfl⟩
  | cons l ls ih =>
    cases hpacket : hasPacket l with
    | false =>
      rw [List.filter_cons_of_neg (by simp [hpacket])] at h
      obtain ⟨ns,hns,hread⟩ := ih h f (number+1)
      refine ⟨ns,hns,?_⟩
      rw [readFrom,readLine_of_remark hpacket]
      simp only [hread,List.nil_append]
    | true =>
      rw [List.filter_cons_of_pos hpacket] at h
      cases h with
      | @cons _ s _ _ hfirst hrest =>
        obtain ⟨ns,hns,hread⟩ := ih hrest (f.take number s).1 (number+1)
        refine ⟨(number,s)::ns,congrArg _ hns,?_⟩
        rw [readFrom,readLine_of_holds hpacket hfirst]
        simp only [hread]
        rfl

end Dump

theorem Limits.eq_of_unbounded {limits : Limits} (h : limits.isBounded = false) :
    limits = {overflow := limits.overflow} := by
  obtain ⟨maxSegments,maxBytes,overflow⟩ := limits
  cases maxSegments <;> cases maxBytes <;> simp_all [isBounded]

namespace Note

/-- What is noted about a dump is no text. -/
theorem texts_between (before after : List DumpEvent) (notes : List Note) :
    texts (ofDumpEvents before ++ notes ++ ofDumpEvents after) = texts notes := by
  simp [texts,ofDumpEvents,List.filterMap_map]

end Note

theorem Text.ofUtf8?_utf8 (cs : List Char) : ofUtf8? (utf8 cs) = some (String.ofList cs) := by
  have hbytes : (⟨(utf8 cs).toArray⟩ : ByteArray) = (String.ofList cs).toByteArray := by
    apply ByteArray.ext
    simp [String.ofList,List.utf8Encode,utf8]
  rw [ofUtf8?,hbytes,String.fromUTF8?,dif_pos (String.ofList cs).isValidUTF8]
  rfl

theorem Ending.ofStream_of_room {target : Target} {d : Disk} (h : target.isFull d = false)
    (chunks : List Bytes) (summary : ℕ → List Note) :
    ofStream target chunks summary d =
      {printed := target.printed chunks.flatten, disk := target.store d chunks.flatten,
        notes := summary chunks.flatten.length} := by
  simp only [ofStream,h,Buffer.finish_ofChunks]

namespace Packets

theorem texts_summary (written : ℕ) (f : Follower) (stats : Bool) :
    Note.texts (summary written f stats) =
      if stats then (f.connection.map Connection.receiver).elim "" Receiver.report else "" := by
  cases hc : f.connection <;> cases stats <;> simp [summary,hc,Note.texts,entry,finished]

theorem closed_eq (f : Follower) : ∃ events, closed f = Note.ofDumpEvents events := by
  rw [closed]
  split
  · exact ⟨[],rfl⟩
  · exact ⟨_,rfl⟩

/-- Without caps the streams of successive connections are written one after the other, to standard
output or to a file. What is reported is the state of a receiver that was given the last of them only,
and all its figures can be read off the report. -/
theorem run_writes_sessions {flow : Flow} (xs : List (Session flow))
    (hends : ∀ x ∈ xs.dropLast, x.Ends) (s : Settings) (hs : s.limits.isBounded = false)
    (path : String) (output : Option String) (stats : Bool) (d d' : Disk) (text : String)
    (htext : d.readText path = .ok text)
    (hlists : Dump.Lists text.toList (xs.flatMap Session.segments)) (target : Target)
    (htarget : Target.create d output = .ok (target,d')) (hroom : target.isFull d' = false) :
    let e := run s path output stats d
    e.failure = none ∧ e.Delivers d (xs.flatMap Session.stream) output ∧
      (Note.texts e.notes = if stats then
        xs.getLast?.elim "" fun x => (x.receiver s.limits).report else "") ∧
      ∀ x ∈ xs.getLast?, stats = true →
        Figures.read? (Note.texts e.notes) = some (x.receiver s.limits).figures := by
  intro e
  have hlimits := Limits.eq_of_unbounded hs
  obtain ⟨ns,hns,hread⟩ := Dump.readFrom_of_holds hlists
    {limits := s.limits, idleTimeout := s.idleTimeout} 1
  -- From here on only the connection at the end and the data handed on matter.
  have ⟨hlast,hdata⟩ := Session.takeAll_sessions
    (f := {limits := s.limits, idleTimeout := s.idleTimeout}) s.limits.overflow hends hlimits rfl hns
  rw [Follower.handed] at hdata
  generalize Follower.takeAll _ ns = result at hread hlast hdata
  obtain ⟨after,hafter⟩ := closed_eq result.1
  have he : e = (Ending.ofStream target (DumpEvent.chunks result.2) (summary · result.1 stats)
      d').between (Note.ofDumpEvents result.2) (Note.ofDumpEvents after) := by
    simp only [e,run,htext,htarget,Dump.read,hread,hafter,Dump.Result.chunks]
  rw [Ending.ofStream_of_room hroom,hdata] at he
  have htexts : Note.texts e.notes = if stats then
      xs.getLast?.elim "" fun x => (x.receiver s.limits).report else "" := by
    rw [he,Ending.between,Note.texts_between,texts_summary,hlast,hlimits]
    cases xs.getLast? <;> rfl
  refine ⟨by rw [he]; rfl,?_,htexts,fun x hx hstats => ?_⟩
  · exact Target.delivers_of_create htarget (by rw [he]; rfl) (by rw [he]; rfl)
  · rw [htexts,if_pos hstats,Option.mem_def.mp hx,Option.elim_some,Figures.read?_report]

def draft (flags : Flags) (seq : SeqNum) (payload : Bytes) : Draft where
  source := ⟨.v4 (Octets.ofList 4 [10,0,0,1]),40000⟩
  target := ⟨.v4 (Octets.ofList 4 [10,0,0,2]),80⟩
  flags := flags
  seq := seq
  payload := payload

def held (d : Draft) : Segment := ⟨⟨d.source,d.target⟩,d.seq,d.ack,d.flags,0xffff,d.payload⟩

/-- The end of the stream comes first, and all of it comes twice. -/
def earlier : Session (held (draft 0 0 [])).flow where
  stream := [1,2,3,4,5]
  syn := held (draft Flags.syn 0xfffffffc [])
  rest := [held (draft Flags.fin 0 [4,5]),held (draft Flags.ack 0xfffffffe [2,3,4]),
    held (draft Flags.ack 0xfffffffd [1,2]),held (draft Flags.ack 0xfffffffd [1,2,3,4,5])]
  short := by decide
  opens := by decide
  bare := by decide
  onFlow := by decide +kernel
  goesOn := by decide +kernel
  covered := by decide +kernel

def later : Session (held (draft 0 0 [])).flow where
  stream := [6,7,8]
  syn := held (draft Flags.syn 77 [])
  rest := [held (draft Flags.ack 80 [8]),held (draft Flags.psh 78 [6,7])]
  short := by decide
  opens := by decide
  bare := by decide
  onFlow := by decide +kernel
  goesOn := by decide +kernel
  covered := by decide +kernel

def drafts : List Draft :=
  [draft Flags.syn 0xfffffffc [],draft Flags.fin 0 [4,5],draft Flags.ack 0xfffffffe [2,3,4],
    draft Flags.ack 0xfffffffd [1,2],draft Flags.ack 0xfffffffd [1,2,3,4,5],draft Flags.syn 77 [],
    draft Flags.ack 80 [8],draft Flags.psh 78 [6,7]]

def holding (text : List Char) : Disk := ⟨[(["dump"],.file (Text.utf8 text))]⟩

theorem readText_holding (text : List Char) :
    (holding text).readText "dump" = .ok (String.ofList text) := by
  have hpath : (holding text).locate "dump" = .ok ["dump"] := rfl
  have hfind : (holding text).find? ["dump"] = some (.file (Text.utf8 text)) := rfl
  simp only [Disk.readText,Disk.read,hpath,hfind,Text.ofUtf8?_utf8]

theorem streams_of_reconnection :
    let text := Dump.write (drafts.map Draft.bytes)
    let e := run {} "dump" (some "out") true (holding text)
    earlier.Ends ∧ (holding text).readText "dump" = .ok (String.ofList text) ∧
      Dump.Lists text (earlier.segments ++ later.segments) ∧
      e.failure = none ∧ e.printed = [] ∧
      e.disk.find? ["out"] = some (.file [1,2,3,4,5,6,7,8]) ∧
      e.disk.read "out" = .ok [1,2,3,4,5,6,7,8] ∧
      Figures.read? (Note.texts e.notes) = some {
        nextSeq := 81, pendingSegments := 0, pendingBytes := 0
        stats := {segments := 2, buffered := 1, chunksDelivered := 2, bytesDelivered := 3}} := by
  have hends : earlier.Ends := ⟨_,List.mem_cons_self,by decide⟩
  have hlists : Dump.Lists (Dump.write (drafts.map Draft.bytes))
      (earlier.segments ++ later.segments) := Dump.lists_write (by decide +kernel)
  -- What the dump says no longer matters, and need not be computed.
  generalize Dump.write (drafts.map Draft.bytes) = text at hlists ⊢
  have hread := readText_holding text
  have hlisted : Dump.Lists (String.ofList text).toList ([earlier,later].flatMap Session.segments) := by
    rwa [String.toList_ofList]
  have htarget : Target.create (holding text) (some "out") =
      .ok (.place ["out"],(holding text).write ["out"] []) :=
    rfl
  have ⟨hfailure,⟨hprinted,here,hlocate,hwritten,helse⟩,_,hfigures⟩ := run_writes_sessions
    [earlier,later] (by simpa using hends) {} rfl "dump" (some "out") true _ _ _ hread hlisted _
    htarget rfl
  have hpath : (holding text).locate "out" = .ok ["out"] := rfl
  obtain rfl : here = ["out"] := Except.ok.inj (hlocate.symm.trans hpath)
  have hfree : (holding text).find? ["out"] = none := rfl
  have hlater : (later.receiver {}).figures = {
      nextSeq := 81, pendingSegments := 0, pendingBytes := 0
      stats := {segments := 2, buffered := 1, chunksDelivered := 2, bytesDelivered := 3}} := by
    decide +kernel
  exact ⟨hends,hread,hlists,hfailure,hprinted,hwritten,
    Disk.read_of_find? hlocate (by simp [hfree]) hwritten helse,
    (hfigures later rfl rfl).trans (congrArg some hlater)⟩

end Packets
end Reassembly
