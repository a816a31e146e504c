import Reassembly.CommandLine.Program
import Reassembly.Log.Layout

/-! The program: it takes from the disk what the command line names, runs on that, and puts back
what has changed. -/
namespace Reassembly

def probe (path : String) : IO (Option Node) := do
  try
    return some (.file (← IO.FS.readBinFile path).toList)
  catch
    | .inappropriateType _ 21 _ => return some .directory
    | _ => return none

/-- The disk as far as some paths lead. -/
def snapshot (paths : List String) : IO Disk := do
  let mut disk : Disk := ⟨[]⟩
  for path in paths do
    let parts := Place.parts path
    for n in List.range parts.length do
      let leading := parts.take (n+1)
      let here := leading.foldl Place.enter (Place.base path)
      if (disk.find? here).isNone then
        let start := if Place.isAbsolute path then "/" else ""
        if let some node ← probe (start ++ String.intercalate "/" leading) then
          disk := disk.put here node
  return disk

def putBack (paths : List String) (before after : Disk) : IO Unit := do
  for path in paths do
    if let .ok here := after.locate path then
      if let some (.file content) := after.find? here then
        if before.find? here ≠ some (.file content) then
          IO.FS.writeBinFile path ⟨content.toArray⟩

def Note.line (json : Bool) : Note → String
  | .entry e => (if json then e.json else e.plain) ++ "\n"
  | .text s => s

def runProgram (ws : List String) : IO UInt32 := do
  let environment ← IO.getEnv "TCPREASM_CONFIG"
  let paths := match Invocation.ofWords environment ws with
    | .ok i => i.paths
    | .error _ => []
  let before ← snapshot paths
  let report := Program.run environment ws before
  putBack paths before report.disk
  let out ← IO.getStdout
  out.write ⟨report.printed.toArray⟩
  out.flush
  let err ← IO.getStderr
  for note in report.notes do
    err.putStr (note.line report.json)
  return UInt32.ofNat report.exit

end Reassembly

def main (ws : List String) : IO UInt32 := Reassembly.runProgram ws
