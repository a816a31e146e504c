import Reassembly.Proofs.DumpDelivery

/-! Lines of a dump that play no part. Blank lines, comments, packets that hold no segment and,
once a flow has been chosen, segments of other flows may be put in or left out anywhere: what is
written, what is reported and whether the run succeeds stay the same. -/
namespace Reassembly
namespace Dump

/-- What stands on a line. -/
inductive Content
  | remark
  | garbled (fault : HexFault)
  | unreadable (fault : Fault)
  | segment (s : Segment)

def content (line : List Char) : Content :=
  if hasPacket line then
    match Hex.decodeText (Text.trim line) with
    | .error fault => .garbled fault
    | .ok packet =>
      match Segment.decode packet with
      | .error fault => .unreadable fault
      | .ok s => .segment s
  else .remark

def Content.flow? : Content → Option Flow
  | .segment s => some s.flow
  | _ => none

/-- The flow that is followed after a line, given the one before it: the first segment chooses. -/
def followed (flow : Option Flow) (line : List Char) : Option Flow :=
  flow.or (content line).flow?

/-- Whether the line plays no part where `flow` is followed. -/
def isIdle (flow : Option Flow) (line : List Char) : Bool :=
  match content line with
  | .remark => true
  | .garbled _ => false
  | .unreadable _ => true
  | .segment s => flow.any (· ≠ s.flow)

/-- Lines from which others are made by putting in and leaving out lines that play no part. -/
inductive Edited : Option Flow → List (List Char) → List (List Char) → Prop
  | done {flow} : Edited flow [] []
  | same {flow line ls ms} (rest : Edited (followed flow line) ls ms) :
      Edited flow (line::ls) (line::ms)
  | inserted {flow line ls ms} (idle : isIdle flow line = true) (rest : Edited flow ls ms) :
      Edited flow ls (line::ms)
  | deleted {flow line ls ms} (idle : isIdle flow line = true) (rest : Edited flow ls ms) :
      Edited flow (line::ls) ms

def unlines (ls : List (List Char)) : List Char := ls.flatMap fun l => l ++ ['\n']

theorem lines_unlines {ls : List (List Char)} (h : ∀ l ∈ ls, ∀ c ∈ l, c ≠ '\n') :
    lines (unlines ls) = ls := by
  induction ls with
  | nil => rfl
  | cons l ls ih =>
    have ⟨hl,hls⟩ := List.forall_mem_cons.mp h
    have htext : unlines (l::ls) = l ++ '\n'::unlines ls := by simp [unlines]
    rw [htext,lines_line hl,ih hls]

end Dump

namespace Follower

open Dump (Content content followed isIdle)

/-- What a reader makes of a line is decided by what stands on it. -/
theorem readLine_eq (f : Follower) (number : ℕ) (line : List Char) :
    f.readLine number line = match content line with
      | .remark => .ok (f,[])
      | .garbled fault => .error fault
      | .unreadable fault => .ok ({f with skipped := f.skipped+1},[.unreadable number fault])
      | .segment s => .ok (f.take number s) := by
  rw [content]
  cases hpacket : Dump.hasPacket line with
  | false => exact Dump.readLine_of_remark hpacket
  | true =>
    have hremark : isRemark (Text.trim line) = false := by simpa [Dump.hasPacket] using hpacket
    simp only [readLine,hremark,Bool.false_eq_true,if_false,if_true]
    cases Hex.decodeText (Text.trim line) with
    | error => rfl
    | ok packet => dsimp only; cases Segment.decode packet <;> rfl

/-- The readers differ at most in how many packets they have passed over. -/
structure Alike (f g : Follower) : Prop where
  limits : g.limits = f.limits
  idleTimeout : g.idleTimeout = f.idleTimeout
  connection : g.connection = f.connection

variable {f g : Follower} {s : Segment} {line : List Char}

theorem Alike.refl (f : Follower) : f.Alike f := ⟨rfl,rfl,rfl⟩

theorem Alike.symm (h : f.Alike g) : g.Alike f :=
  ⟨h.limits.symm,h.idleTimeout.symm,h.connection.symm⟩

theorem Alike.trans {h : Follower} (hfg : f.Alike g) (hgh : g.Alike h) : f.Alike h :=
  ⟨hgh.limits.trans hfg.limits,hgh.idleTimeout.trans hfg.idleTimeout,
    hgh.connection.trans hfg.connection⟩

theorem chunks_renew (f : Follower) (c : Connection) (number : ℕ) (s : Segment) :
    DumpEvent.chunks (f.renew c number s).2 = [] := by
  rw [renew]
  split
  · exact chunks_restarted f c number s
  · rfl

theorem renew_flow (f : Follower) {c : Connection} (number : ℕ) (h : s.flow = c.flow) :
    (f.renew c number s).1.flow = c.flow := by
  rw [renew]
  split
  · exact h
  · rfl

theorem Alike.current (h : f.Alike g) (s : Segment) : g.current s = f.current s := by
  simp only [Follower.current,openConnection,h.connection,h.limits]

theorem Alike.renew (h : f.Alike g) (c : Connection) (m n : ℕ) (s : Segment) :
    (g.renew c n s).1 = (f.renew c m s).1 := by
  simp only [Follower.renew,openConnection,h.limits,h.idleTimeout]
  split <;> rfl

theorem Alike.take (h : f.Alike g) (m n : ℕ) (s : Segment) :
    (f.take m s).1.Alike (g.take n s).1 ∧
      DumpEvent.chunks (g.take n s).2 = DumpEvent.chunks (f.take m s).2 := by
  have hdone : ∀ k outcome,
      DumpEvent.chunks [.processed k s.seq s.payload.length outcome] = [] := fun _ _ => rfl
  have hpassed : ∀ k, DumpEvent.chunks [.otherFlow k s.flow] = [] := fun _ => rfl
  simp only [Follower.take,h.current,h.renew _ m n]
  split
  · refine ⟨⟨h.limits,h.idleTimeout,rfl⟩,?_⟩
    simp only [DumpEvent.chunks_append,chunks_renew,hdone]
  · refine ⟨⟨h.limits,h.idleTimeout,rfl⟩,?_⟩
    simp only [DumpEvent.chunks_append,hpassed]

def flow? (f : Follower) : Option Flow := f.connection.map Connection.flow

theorem flow?_take (f : Follower) (number : ℕ) (s : Segment) :
    (f.take number s).1.flow? = f.flow?.or (some s.flow) := by
  have hcurrent : f.flow?.or (some s.flow) = some (f.current s).1.flow := by
    rw [current,flow?]
    cases f.connection <;> rfl
  rw [hcurrent,take]
  dsimp only
  split
  · rename_i hflow
    exact congrArg some (f.renew_flow number hflow)
  · rfl

theorem take_foreign {c : Connection} (hc : f.connection = some c) (h : c.flow ≠ s.flow)
    (number : ℕ) :
    f.Alike (f.take number s).1 ∧ DumpEvent.chunks (f.take number s).2 = [] := by
  have hcurrent : f.current s = (c,[]) := by rw [current,hc]
  simp only [take,hcurrent,if_neg h.symm]
  exact ⟨⟨rfl,rfl,hc.symm⟩,rfl⟩

end Follower

namespace Dump

variable {f g : Follower} {line : List Char} {ls ms : List (List Char)} {flow : Option Flow}

theorem readLine_of_idle (h : isIdle f.flow? line = true) (number : ℕ) :
    ∃ g events, f.readLine number line = .ok (g,events) ∧ f.Alike g ∧
      DumpEvent.chunks events = [] := by
  rw [Follower.readLine_eq]
  rw [isIdle] at h
  cases hc : content line with
  | remark => exact ⟨f,[],rfl,.refl f,rfl⟩
  | garbled => simp [hc] at h
  | unreadable fault => exact ⟨_,_,rfl,⟨rfl,rfl,rfl⟩,rfl⟩
  | segment s =>
    obtain ⟨_,hother,hne⟩ : ∃ g, f.flow? = some g ∧ g ≠ s.flow := by
      simpa [hc,Option.any_eq_true] using h
    obtain ⟨c,hconnection,rfl⟩ := Option.map_eq_some_iff.mp hother
    have ⟨halike,hchunks⟩ := Follower.take_foreign hconnection hne number
    exact ⟨_,_,rfl,halike,hchunks⟩

theorem readLine_alike (h : f.Alike g) (m n : ℕ) (line : List Char) :
    (∃ fault, f.readLine m line = .error fault ∧ g.readLine n line = .error fault) ∨
      ∃ f' g' es fs, f.readLine m line = .ok (f',es) ∧ g.readLine n line = .ok (g',fs) ∧
        f'.Alike g' ∧ DumpEvent.chunks fs = DumpEvent.chunks es ∧
        f'.flow? = followed f.flow? line := by
  rw [Follower.readLine_eq,Follower.readLine_eq,followed]
  cases content line with
  | garbled fault => exact .inl ⟨fault,rfl,rfl⟩
  | remark => exact .inr ⟨f,g,[],[],rfl,rfl,h,rfl,(Option.or_none).symm⟩
  | unreadable fault =>
    exact .inr ⟨_,_,_,_,rfl,rfl,⟨h.limits,h.idleTimeout,h.connection⟩,rfl,(Option.or_none).symm⟩
  | segment s =>
    have ⟨halike,hchunks⟩ := h.take m n s
    exact .inr ⟨(f.take m s).1,(g.take n s).1,_,_,rfl,rfl,halike,hchunks,f.flow?_take m s⟩

structure Result.Alike (x y : Result) : Prop where
  fault : y.fault.isSome = x.fault.isSome
  chunks : y.chunks = x.chunks
  follower : x.follower.Alike y.follower

theorem Result.Alike.prepend {x y : Result} (h : x.Alike y) (es fs : List DumpEvent)
    (he : DumpEvent.chunks fs = DumpEvent.chunks es) :
    Result.Alike {x with events := es++x.events} {y with events := fs++y.events} where
  fault := h.fault
  chunks := by
    have hchunks : DumpEvent.chunks y.events = DumpEvent.chunks x.events := h.chunks
    simp only [Result.chunks,DumpEvent.chunks_append,he,hchunks]
  follower := h.follower

theorem readFrom_cons {number : ℕ} {events : List DumpEvent}
    (h : f.readLine number line = .ok (g,events)) (ls : List (List Char)) :
    readFrom f number (line::ls) =
      {readFrom g (number+1) ls with events := events++(readFrom g (number+1) ls).events} := by
  rw [readFrom,h]

/-- Readers that are alike come to the same on lines of which some were put in or left out. -/
theorem readFrom_edited (h : Edited flow ls ms) (hfg : f.Alike g) (hflow : f.flow? = flow)
    (m n : ℕ) : (readFrom f m ls).Alike (readFrom g n ms) := by
  induction h generalizing f g m n with
  | done => exact ⟨rfl,rfl,hfg⟩
  | @same flow line ls ms rest ih =>
    rcases readLine_alike hfg m n line with
      ⟨fault,hf,hg⟩ | ⟨f',g',es,fs,hf,hg,halike,hchunks,hfollowed⟩
    · simp only [readFrom,hf,hg]
      exact ⟨rfl,rfl,hfg⟩
    · rw [readFrom_cons hf,readFrom_cons hg]
      exact (ih halike (hfollowed.trans (hflow ▸ rfl)) _ _).prepend es fs hchunks
  | @inserted flow line ls ms idle rest ih =>
    have hg : g.flow? = flow := (congrArg (Option.map Connection.flow) hfg.connection).trans hflow
    obtain ⟨g',fs,hread,halike,hchunks⟩ := readLine_of_idle (hg ▸ idle) n
    rw [readFrom_cons hread]
    exact (ih (hfg.trans halike) hflow m (n+1)).prepend [] fs hchunks
  | @deleted flow line ls ms idle rest ih =>
    obtain ⟨f',es,hread,halike,hchunks⟩ := readLine_of_idle (hflow ▸ idle) m
    have hf' : f'.flow? = flow :=
      (congrArg (Option.map Connection.flow) halike.connection).trans hflow
    rw [readFrom_cons hread]
    exact (ih (halike.symm.trans hfg) hf' (m+1) n).prepend es [] hchunks.symm

end Dump

namespace Packets

variable {s : Settings} {path path' : String} {output : Option String} {stats : Bool}
  {d d' out out' : Disk} {text text' : String} {target : Target}

def endingOf (path : String) (target : Target) (stats : Bool) (d : Disk) (x : Dump.Result) :
    Ending :=
  match x.fault with
  | some (line,cause) =>
    {Ending.ofStream target x.chunks (fun _ => []) d with
      failure := some (invalidLine path line cause)}
  | none => Ending.ofStream target x.chunks (summary · x.follower stats) d

/-- What is noted besides tells of the dump only. -/
theorem run_of_text (s : Settings) (path : String) (stats : Bool)
    (htext : d.readText path = .ok text) (htarget : Target.create d output = .ok (target,out)) :
    ∃ before after, run s path output stats d =
      (endingOf path target stats out (Dump.read s.limits s.idleTimeout text.toList)).between
        (Note.ofDumpEvents before) (Note.ofDumpEvents after) := by
  obtain ⟨after,hafter⟩ := closed_eq (Dump.read s.limits s.idleTimeout text.toList).follower
  refine ⟨(Dump.read s.limits s.idleTimeout text.toList).events,after,?_⟩
  simp only [run,htext,htarget,hafter]
  rfl

theorem run_of_room (s : Settings) (stats : Bool) (htext : d.readText path = .ok text)
    (htarget : Target.create d output = .ok (target,out)) (hroom : target.isFull out = false) :
    let e := run s path output stats d
    let x := Dump.read s.limits s.idleTimeout text.toList
    e.printed = target.printed x.chunks.flatten ∧ e.disk = target.store out x.chunks.flatten ∧
      e.failure = x.fault.map fun fault => invalidLine path fault.1 fault.2 := by
  intro e x
  obtain ⟨before,after,he⟩ := run_of_text s path stats htext htarget
  simp only [e,he,Ending.between,endingOf]
  split <;> rename_i hfault <;> simp [Ending.ofStream_of_room hroom,x,hfault]

/-- Two endings of a stream that goes to the same place, which show no difference but in the log and
in how a failure is put. -/
structure SameShow (target : Target) (out out' : Disk) (e e' : Ending) : Prop where
  failure : e.failure = none ↔ e'.failure = none
  texts : Note.texts e'.notes = Note.texts e.notes
  written : ∃ written, e.printed = target.printed written ∧ e'.printed = target.printed written ∧
    e.disk = target.store out written ∧ e'.disk = target.store out' written

theorem sameShow_endingOf {x y : Dump.Result} (h : x.Alike y)
    (hfull : target.isFull out' = target.isFull out) :
    SameShow target out out' (endingOf path target stats out x)
      (endingOf path' target stats out' y) := by
  have htexts : ∀ written written', Note.texts (summary written' y.follower stats) =
      Note.texts (summary written x.follower stats) := by
    intro written written'
    rw [texts_summary,texts_summary,h.follower.connection]
  have hfault := h.fault
  rw [endingOf,endingOf]
  simp only [Ending.ofStream,h.chunks,hfull]
  cases hx : x.fault <;> cases hy : y.fault <;> rw [hx,hy] at hfault
  case none.none =>
    cases (Buffer.ofChunks (target.isFull out) x.chunks).finish (target.isFull out) with
    | error => exact ⟨.rfl,rfl,_,rfl,rfl,rfl,rfl⟩
    | ok written => exact ⟨.rfl,htexts _ _,_,rfl,rfl,rfl,rfl⟩
  case some.some =>
    cases (Buffer.ofChunks (target.isFull out) x.chunks).finish (target.isFull out) <;>
      exact ⟨by simp,rfl,_,rfl,rfl,rfl,rfl⟩
  all_goals cases hfault

theorem SameShow.between {e e' : Ending} (h : SameShow target out out' e e')
    (before before' after after' : List DumpEvent) :
    SameShow target out out' (e.between (Note.ofDumpEvents before) (Note.ofDumpEvents after))
      (e'.between (Note.ofDumpEvents before') (Note.ofDumpEvents after')) where
  failure := h.failure
  texts := by
    rw [Ending.between,Ending.between,Note.texts_between,Note.texts_between]
    exact h.texts
  written := h.written

/-- Two dumps of which one is made from the other by putting in and leaving out lines that play no
part: the runs succeed or fail together, write the same data to where it was to go, and report the
same state. -/
theorem run_ignores_idle_lines (s : Settings) (path path' : String) (output : Option String)
    (stats : Bool) (d d' out out' : Disk) (text text' : String) (target : Target)
    (hedited : Dump.Edited none (Dump.lines text.toList) (Dump.lines text'.toList))
    (htext : d.readText path = .ok text) (htext' : d'.readText path' = .ok text')
    (htarget : Target.create d output = .ok (target,out))
    (htarget' : Target.create d' output = .ok (target,out'))
    (hfull : target.isFull out' = target.isFull out) :
    let e := run s path output stats d
    let e' := run s path' output stats d'
    (e.failure = none ↔ e'.failure = none) ∧ Note.texts e'.notes = Note.texts e.notes ∧
      ∃ written, e.printed = target.printed written ∧ e'.printed = target.printed written ∧
        e.disk = target.store out written ∧ e'.disk = target.store out' written ∧
        e.Delivers d written output ∧ e'.Delivers d' written output := by
  intro e e'
  have halike : (Dump.read s.limits s.idleTimeout text.toList).Alike
      (Dump.read s.limits s.idleTimeout text'.toList) :=
    Dump.readFrom_edited hedited (.refl _) rfl 1 1
  obtain ⟨before,after,he⟩ := run_of_text s path stats htext htarget
  obtain ⟨before',after',he'⟩ := run_of_text s path' stats htext' htarget'
  have hshow : SameShow target out out' e e' := by
    simp only [e,e',he,he']
    exact (sameShow_endingOf halike hfull).between before before' after after'
  obtain ⟨written,hprinted,hprinted',hdisk,hdisk'⟩ := hshow.written
  exact ⟨hshow.failure,hshow.texts,written,hprinted,hprinted',hdisk,hdisk',
    Target.delivers_of_create htarget hprinted hdisk,
    Target.delivers_of_create htarget' hprinted' hdisk'⟩

/-- A packet that opens a connection, one with data, and one of the other direction that would end
the connection if it counted. -/
def opening : Bytes := (draft Flags.syn 0xfffffffe []).bytes
def data : Bytes := (draft Flags.ack 0xffffffff [1,2,3]).bytes
def answer : Bytes :=
  {draft Flags.fin 7 [9] with source := (draft 0 0 []).target, target := (draft 0 0 []).source}.bytes

def bareLines : List (List Char) :=
  [['#',' ','a'],Hex.encode opening,Hex.encode data,[]]

def crowdedLines : List (List Char) :=
  [Hex.encode opening,['0','0'],Hex.encode answer,[' ','\r'],Hex.encode data,Hex.encode answer]

theorem run_of_read (s : Settings) (stats : Bool) {ls : List (List Char)} {chunks : List Bytes}
    (hls : Dump.lines text.toList = ls)
    (hfault : (Dump.readFrom {limits := s.limits, idleTimeout := s.idleTimeout} 1 ls).fault = none)
    (hchunks : (Dump.readFrom {limits := s.limits, idleTimeout := s.idleTimeout} 1 ls).chunks =
      chunks) (htext : d.readText path = .ok text) :
    (run s path none stats d).failure = none ∧
      (run s path none stats d).printed = chunks.flatten := by
  have ⟨hprinted,_,hfailure⟩ := run_of_room s stats htext
    (show Target.create d none = .ok (.standard,d) from rfl) rfl
  rw [Dump.read,hls] at hprinted hfailure
  rw [hchunks] at hprinted
  rw [hfault] at hfailure
  exact ⟨hfailure,hprinted⟩

theorem same_in_crowd :
    let e := run {} "dump" none true (holding (Dump.unlines bareLines))
    let e' := run {} "dump" none true (holding (Dump.unlines crowdedLines))
    Dump.Edited none bareLines crowdedLines ∧ e.failure = none ∧ e.printed = [1,2,3] ∧
      e'.failure = none ∧ e'.printed = [1,2,3] ∧ Note.texts e'.notes = Note.texts e.notes := by
  intro e e'
  have hedited : Dump.Edited none bareLines crowdedLines := by
    refine .deleted (by decide +kernel) (.same ?_)
    refine .inserted (by decide +kernel) (.inserted (by decide +kernel) ?_)
    refine .inserted (by decide +kernel) (.same ?_)
    exact .inserted (by decide +kernel) (.deleted (by decide +kernel) .done)
  have hbare : Dump.lines (String.ofList (Dump.unlines bareLines)).toList = bareLines := by
    rw [String.toList_ofList,Dump.lines_unlines]
    simp only [bareLines,List.forall_mem_cons]
    exact ⟨by simp,Dump.encode_no_break _,Dump.encode_no_break _,by simp,by simp⟩
  have hcrowded : Dump.lines (String.ofList (Dump.unlines crowdedLines)).toList = crowdedLines := by
    rw [String.toList_ofList,Dump.lines_unlines]
    simp only [crowdedLines,List.forall_mem_cons]
    exact ⟨Dump.encode_no_break _,by simp,Dump.encode_no_break _,by simp,
      Dump.encode_no_break _,Dump.encode_no_break _,by simp⟩
  have ⟨hfailure,hprinted⟩ := run_of_read {} true hbare (by decide +kernel)
    (show _ = [[1,2,3]] by decide +kernel) (readText_holding (Dump.unlines bareLines))
  have ⟨hsame,htexts,written,hwritten,hwritten',_⟩ := run_ignores_idle_lines {} "dump" "dump" none
    true _ _ _ _ _ _ .standard (by rwa [hbare,hcrowded])
    (readText_holding (Dump.unlines bareLines)) (readText_holding (Dump.unlines crowdedLines))
    rfl rfl rfl
  exact ⟨hedited,hfailure,hprinted,hsame.mp hfailure,
    (hwritten'.trans hwritten.symm).trans hprinted,htexts⟩

end Packets
end Reassembly
