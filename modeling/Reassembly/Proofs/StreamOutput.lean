import Mathlib.Data.List.Basic
import Reassembly.CommandLine.Report

/-! Where a stream is found after a run. A write puts the content at its place and leaves every
other place alone, so the paths that led somewhere still do. -/
namespace Reassembly

variable {d e : Disk} {here there : Place} {content stream : Bytes} {path : String}

/-- What stands at a place that has been written to. A device takes the content and keeps nothing. -/
def Node.written (content : Bytes) : Option Node → Node
  | some (.device full) => .device full
  | _ => .file content

theorem Node.written_ne_directory (content : Bytes) (node : Option Node) :
    written content node ≠ .directory := by
  cases node with
  | none => simp [written]
  | some node => cases node <;> simp [written]

theorem Node.written_written (first second : Bytes) (node : Option Node) :
    written second (some (written first node)) = written second node := by
  cases node with
  | none => rfl
  | some node => cases node <;> rfl

namespace Disk

theorem find?_put (h : d.find? here ≠ some .directory) (node : Node) :
    (d.put here node).find? here = some node := by
  -- A place that is taken for a directory whatever the disk says is ruled out.
  have hown : ¬(here.all (· = "..") || here = ["/"]) = true := fun hfixed => h (if_pos hfixed)
  rw [find?,if_neg hown,put,List.lookup_cons_self]
  rfl

theorem lookup_filter_ne {nodes : List (Place × Node)} (h : there ≠ here) :
    (nodes.filter fun e => e.1 ≠ here).lookup there = nodes.lookup there := by
  induction nodes with
  | nil => rfl
  | cons e nodes ih =>
    by_cases he : e.1 = here
    · have hskip : (there == e.1) = false := by simp [he,h]
      rw [List.filter_cons_of_neg (by simp [he]),ih,List.lookup_cons,hskip]
    · rw [List.filter_cons_of_pos (by simp [he]),List.lookup_cons,List.lookup_cons,ih]

theorem find?_put_of_ne (h : there ≠ here) (node : Node) :
    (d.put here node).find? there = d.find? there := by
  have hskip : (there == here) = false := by simp [h]
  rw [find?,find?,put,List.lookup_cons,hskip,lookup_filter_ne h]

theorem find?_write (h : d.find? here ≠ some .directory) (content : Bytes) :
    (d.write here content).find? here = some (Node.written content (d.find? here)) := by
  cases hnode : d.find? here with
  | none => simp only [write,hnode,find?_put h,Node.written]
  | some node =>
    cases node with
    | directory => exact absurd hnode h
    | file => simp only [write,hnode,find?_put h,Node.written]
    | device full => simp only [write,hnode,Node.written]

theorem find?_write_of_ne (h : there ≠ here) (content : Bytes) :
    (d.write here content).find? there = d.find? there := by
  rw [write]
  split
  · rfl
  · exact find?_put_of_ne h _

/-- Only directories are looked at on the way. -/
theorem walk_congr (h : ∀ there, d.find? there = some .directory → e.find? there = some .directory)
    {parts : List String} (hwalk : d.walk here parts = .ok there) :
    e.walk here parts = .ok there := by
  induction parts generalizing here with
  | nil => exact hwalk
  | cons part parts ih =>
    rw [walk] at hwalk ⊢
    cases hfind : d.find? here with
    | none => simp [hfind] at hwalk
    | some node =>
      cases node with
      | directory =>
        rw [hfind] at hwalk
        rw [h _ hfind]
        exact ih hwalk
      | file | device => simp [hfind] at hwalk

theorem locate_of_locateFile (h : d.locateFile path = .ok here) :
    d.locate path = .ok here ∧ d.find? here ≠ some .directory := by
  rw [locateFile] at h
  split_ifs at h with hslash
  · split at h <;> cases h
  · cases hwalk : d.walk (Place.base path) (Place.parts path) with
    | error => simp [hwalk] at h
    | ok place =>
      simp only [hwalk] at h
      split at h
      · cases h
      · rename_i hfree
        obtain rfl := Except.ok.inj h
        exact ⟨by rw [locate,if_neg hslash,List.append_nil,hwalk],hfree⟩

theorem read_of_find? (hlocate : d.locate path = .ok here) (hfree : d.find? here ≠ some .directory)
    (hfile : e.find? here = some (.file content))
    (helse : ∀ there, there ≠ here → e.find? there = d.find? there) :
    e.read path = .ok content := by
  have hsame : e.locate path = .ok here := by
    refine walk_congr (fun there hthere => ?_) hlocate
    rw [helse there fun heq => hfree (heq ▸ hthere),hthere]
  simp only [read,hsame,hfile]

end Disk

/-- The stream is found where it was to go, and nothing else has changed: either it is printed, or a
file holds it at the place that the path leads to, and nothing is printed. -/
def Ending.Delivers (e : Ending) (d : Disk) (stream : Bytes) : Option String → Prop
  | none => e.printed = stream ∧ ∀ there, e.disk.find? there = d.find? there
  | some path => e.printed = [] ∧ ∃ here, d.locate path = .ok here ∧
      e.disk.find? here = some (Node.written stream (d.find? here)) ∧
      ∀ there, there ≠ here → e.disk.find? there = d.find? there

theorem Target.delivers_of_create {output : Option String} {target : Target} {out : Disk}
    {e : Ending} (htarget : create d output = .ok (target,out))
    (hprinted : e.printed = target.printed stream) (hdisk : e.disk = target.store out stream) :
    e.Delivers d stream output := by
  cases output with
  | none =>
    cases htarget
    exact ⟨hprinted,fun there => congrArg (Disk.find? · there) hdisk⟩
  | some path =>
    cases hlocate : d.locateFile path with
    | error => simp [create,hlocate] at htarget
    | ok here =>
      simp only [create,hlocate] at htarget
      cases htarget
      obtain ⟨hpath,hfree⟩ := Disk.locate_of_locateFile hlocate
      -- The file is emptied first and gets its content in the end.
      have hempty := Disk.find?_write hfree []
      have hstill : (d.write here []).find? here ≠ some .directory := by
        rw [hempty]
        exact fun heq => Node.written_ne_directory _ _ (Option.some.inj heq)
      refine ⟨hprinted,here,hpath,?_,fun there hne => ?_⟩
      · rw [hdisk,store,Disk.find?_write hstill,hempty,Node.written_written]
      · rw [hdisk,store,Disk.find?_write_of_ne hne,Disk.find?_write_of_ne hne]

end Reassembly
