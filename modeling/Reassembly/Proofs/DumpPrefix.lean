import Reassembly.Proofs.DumpEdits

/-! A dump is written as far as it is read. What the first lines lead to is written whatever comes
after them, and the first line that spells no packet ends the run with just that written. -/
namespace Reassembly
namespace Dump

/-- Something stands on the line beside white space and comments, and it spells no bytes. -/
def Garbled (line : List Char) : Prop :=
  hasPacket line = true ∧ ¬∃ packet, Hex.Spells (Text.trim line) packet

variable {f : Follower} {line : List Char} {ls : List (List Char)} {number k : ℕ}

theorem garbled_iff : Garbled line ↔ ∃ fault, content line = .garbled fault := by
  simp only [Garbled,content,← Hex.decodeText_eq_ok_iff]
  cases hasPacket line with
  | false => simp
  | true =>
    cases Hex.decodeText (Text.trim line) with
    | error fault => simp
    | ok packet =>
      dsimp only
      cases Segment.decode packet <;> simp

theorem readLine_fails_iff (f : Follower) (number : ℕ) :
    (∃ fault, f.readLine number line = .error fault) ↔ Garbled line := by
  rw [garbled_iff,Follower.readLine_eq]
  cases content line <;> simp

theorem fault_readFrom_eq_none : (readFrom f number ls).fault = none ↔ ∀ l ∈ ls, ¬Garbled l := by
  induction ls generalizing f number with
  | nil => simp [readFrom]
  | cons l ls ih =>
    rw [List.forall_mem_cons,← readLine_fails_iff f number,readFrom]
    cases f.readLine number l with
    | error fault => simp
    | ok p => simpa using ih

theorem Result.chunks_andThen (x : Result) (next : Follower → Result) :
    x.chunks <+: (x.andThen next).chunks := by
  rw [andThen]
  split
  · exact List.prefix_rfl
  · rw [chunks,chunks,DumpEvent.chunks_append]
    exact List.prefix_append _ _

theorem readFrom_of_garbled (f : Follower) (number : ℕ) (rest : List (List Char))
    (hls : ∀ l ∈ ls, ¬Garbled l) (hline : Garbled line) :
    ∃ cause, readFrom f number (ls ++ line::rest) =
      {readFrom f number ls with fault := some (number+ls.length,cause)} := by
  obtain ⟨cause,hread⟩ := (readLine_fails_iff (readFrom f number ls).follower
    (number+ls.length)).mpr hline
  refine ⟨cause,?_⟩
  rw [readFrom_append,Result.andThen,fault_readFrom_eq_none.mpr hls,readFrom,hread]
  simp

section

variable {cs cs' : List Char} (limits : Limits) (idleTimeout : ℕ)
  (h : lines cs' = (lines cs).take k)
include h

theorem chunks_read_prefix :
    (read limits idleTimeout cs').chunks <+: (read limits idleTimeout cs).chunks := by
  rw [read,read,h]
  conv_rhs => rw [← List.take_append_drop k (lines cs),readFrom_append]
  exact Result.chunks_andThen _ _

theorem read_of_garbled (hline : (lines cs)[k]? = some line) (hgarbled : Garbled line)
    (hbefore : ∀ l ∈ lines cs', ¬Garbled l) :
    (read limits idleTimeout cs').fault = none ∧ ∃ cause, read limits idleTimeout cs =
      {read limits idleTimeout cs' with fault := some (k+1,cause)} := by
  obtain ⟨hk,hget⟩ := List.getElem?_eq_some_iff.mp hline
  have hlength : (lines cs').length = k := by rw [h,List.length_take_of_le hk.le]
  have hall : lines cs' ++ line::(lines cs).drop (k+1) = lines cs := by
    rw [h,← hget,← List.drop_eq_getElem_cons hk,List.take_append_drop]
  obtain ⟨cause,hread⟩ := readFrom_of_garbled {limits, idleTimeout} 1 ((lines cs).drop (k+1))
    hbefore hgarbled
  rw [hall,hlength,Nat.add_comm 1] at hread
  exact ⟨fault_readFrom_eq_none.mpr hbefore,cause,hread⟩

end

theorem no_break_of_mem_lines {cs : List Char} : ∀ l ∈ lines cs, ∀ c ∈ l, c ≠ '\n' := by
  induction cs with
  | nil => simp [lines]
  | cons c cs ih =>
    rw [lines,List.foldr_cons,← lines]
    by_cases hc : c = '\n'
    · rw [if_pos hc]
      exact List.forall_mem_cons.mpr ⟨by simp,ih⟩
    · rw [if_neg hc]
      cases hlines : lines cs with
      | nil => simpa using hc
      | cons l ls =>
        rw [hlines] at ih
        obtain ⟨hl,hrest⟩ := List.forall_mem_cons.mp ih
        exact List.forall_mem_cons.mpr ⟨List.forall_mem_cons.mpr ⟨hc,hl⟩,hrest⟩

theorem lines_unlines_take (cs : List Char) (k : ℕ) :
    lines (unlines ((lines cs).take k)) = (lines cs).take k :=
  lines_unlines fun l hl => no_break_of_mem_lines l (List.mem_of_mem_take hl)

end Dump

namespace Packets

/-- A dump and another that has its first `k` lines only: what is written for the second begins
what is written for the first. If the line after these is the first that is garbled, then it is
named by the failure, and nothing more is written. -/
theorem run_writes_prefix (s : Settings) (path path' : String) (output : Option String)
    (stats : Bool) (d d' out out' : Disk) (text text' : String) (target : Target) (k : ℕ)
    (hlines : Dump.lines text'.toList = (Dump.lines text.toList).take k)
    (htext : d.readText path = .ok text) (htext' : d'.readText path' = .ok text')
    (htarget : Target.create d output = .ok (target,out))
    (htarget' : Target.create d' output = .ok (target,out'))
    (hroom : target.isFull out = false) (hroom' : target.isFull out' = false) :
    let e := run s path output stats d
    let e' := run s path' output stats d'
    ∃ written written', written' <+: written ∧
      e.printed = target.printed written ∧ e.disk = target.store out written ∧
      e'.printed = target.printed written' ∧ e'.disk = target.store out' written' ∧
      e.Delivers d written output ∧ e'.Delivers d' written' output ∧
      ∀ line, (Dump.lines text.toList)[k]? = some line → Dump.Garbled line →
        (∀ l ∈ (Dump.lines text.toList).take k, ¬Dump.Garbled l) →
        written' = written ∧ e'.failure = none ∧ ∃ failure, e.failure = some failure ∧
          failure.context = path ++ ":" ++ toString (k+1) ++ ": invalid hex" := by
  intro e e'
  have ⟨hprinted,hdisk,hfailure⟩ := run_of_room s stats htext htarget hroom
  have ⟨hprinted',hdisk',hfailure'⟩ := run_of_room s stats htext' htarget' hroom'
  have hbegins := (Dump.chunks_read_prefix s.limits s.idleTimeout hlines).flatten
  refine ⟨_,_,hbegins,hprinted,hdisk,hprinted',hdisk',
    Target.delivers_of_create htarget hprinted hdisk,
    Target.delivers_of_create htarget' hprinted' hdisk',fun line hline hgarbled hbefore => ?_⟩
  obtain ⟨hread',cause,hread⟩ := Dump.read_of_garbled s.limits s.idleTimeout hlines hline hgarbled
    (hlines ▸ hbefore)
  refine ⟨congrArg List.flatten (congrArg Dump.Result.chunks hread).symm,?_,
    invalidLine path (k+1) cause,?_,rfl⟩
  · simp only [e',hfailure',hread',Option.map_none]
  · simp only [e,hfailure,hread,Option.map_some]

/-- A dump whose fourth line is garbled, and which goes on after it. -/
def brokenLines : List (List Char) :=
  [['#',' ','a'],Hex.encode opening,Hex.encode data,['0','x','1'],
    Hex.encode (draft Flags.ack 2 [4,5]).bytes]

theorem written_before_break :
    let e := run {} "dump" none true (holding (Dump.unlines brokenLines))
    let e' := run {} "dump" none true (holding (Dump.unlines (brokenLines.take 3)))
    e'.failure = none ∧ e'.printed = [1,2,3] ∧ e.printed = [1,2,3] ∧
      ∃ failure, e.failure = some failure ∧ failure.context = "dump:4: invalid hex" := by
  intro e e'
  have hbreaks : ∀ l ∈ brokenLines, ∀ c ∈ l, c ≠ '\n' := by
    simp only [brokenLines,List.forall_mem_cons]
    exact ⟨by simp,Dump.encode_no_break _,Dump.encode_no_break _,by simp,Dump.encode_no_break _,
      by simp⟩
  have hlines : Dump.lines (Dump.unlines brokenLines) = brokenLines := Dump.lines_unlines hbreaks
  have hall : Dump.lines (String.ofList (Dump.unlines brokenLines)).toList = brokenLines := by
    rwa [String.toList_ofList]
  have hfirst : Dump.lines (String.ofList (Dump.unlines (brokenLines.take 3))).toList =
      brokenLines.take 3 := by
    have htake := Dump.lines_unlines_take (Dump.unlines brokenLines) 3
    rwa [hlines,← String.toList_ofList (l:=Dump.unlines _)] at htake
  have hfault : (Dump.readFrom {limits := {}, idleTimeout := ({} : Settings).idleTimeout} 1
      (brokenLines.take 3)).fault = none := by
    decide +kernel
  have ⟨hfailure',hprinted'⟩ := run_of_read {} true hfirst hfault
    (show _ = [[1,2,3]] by decide +kernel)
    (readText_holding (Dump.unlines (brokenLines.take 3)))
  have hgarbled : Dump.Garbled ['0','x','1'] := Dump.garbled_iff.mpr ⟨_,rfl⟩
  obtain ⟨written,written',_,hwritten,_,hwritten',_,_,_,hlast⟩ := run_writes_prefix {} "dump" "dump"
    none true _ _ _ _ _ _ .standard 3 (by rw [hall,hfirst])
    (readText_holding (Dump.unlines brokenLines))
    (readText_holding (Dump.unlines (brokenLines.take 3))) rfl rfl rfl rfl
  rw [hall] at hlast
  obtain ⟨rfl,_,failure,hfailure,hcontext⟩ := hlast _ rfl hgarbled
    (Dump.fault_readFrom_eq_none.mp hfault)
  exact ⟨hfailure',hprinted',(hwritten.trans hwritten'.symm).trans hprinted',failure,hfailure,
    hcontext.trans (by decide)⟩

end Packets
end Reassembly
