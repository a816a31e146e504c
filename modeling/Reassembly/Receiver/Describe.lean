import Reassembly.Receiver.Ingest

/-! Descriptions of outcomes and receivers: in one line, and as a report of all counters. -/
namespace Reassembly

def boolText (b : Bool) : String := if b then "true" else "false"

def Outcome.describe : Outcome → String
  | .empty => "Empty"
  | .duplicate => "Duplicate"
  | .delivered trimmed => "Delivered \x7b trimmed: " ++ boolText trimmed ++ " \x7d"
  | .buffered trimmed => "Buffered \x7b trimmed: " ++ boolText trimmed ++ " \x7d"
  | .dropped => "Dropped"

def Stats.fields (s : Stats) : List (String × Nat) :=
  [("segments",s.segments),("duplicates",s.duplicates),("trimmed",s.trimmed),
    ("buffered",s.buffered),("overflow_drops",s.overflowDrops),("evictions",s.evictions),
    ("chunks_delivered",s.chunksDelivered),("bytes_delivered",s.bytesDelivered)]

def Stats.describe (s : Stats) : String :=
  "ReassemblerStats \x7b " ++
    String.intercalate ", " (s.fields.map fun (name,n) => name ++ ": " ++ toString n) ++ " \x7d"

def Receiver.describe (r : Receiver) : String :=
  "Reassembler \x7b next_seq: " ++ toString r.nextSeq.toNat ++
    ", pending_segments: " ++ toString r.pending.size ++
    ", pending_bytes: " ++ toString r.pendingBytes ++
    ", limits: " ++ r.limits.describe ++
    ", has_sink: " ++ boolText r.sink.isSome ++
    ", stats: " ++ r.stats.describe ++ " \x7d"

def counterLine (margin : String) (counter : String × Nat) : String :=
  margin ++ "\"" ++ counter.1 ++ "\": " ++ toString counter.2

/-- The state and the counters as a JSON object; names are in alphabetical order. -/
def Receiver.report (r : Receiver) : String :=
  let state := [("next_seq",r.nextSeq.toNat),("pending_bytes",r.pendingBytes),
    ("pending_segments",r.pending.size)]
  let counters := r.stats.fields.mergeSort fun a b => a.1 ≤ b.1
  "\x7b\n" ++ String.join (state.map fun c => counterLine "  " c ++ ",\n") ++
    "  \"stats\": \x7b\n" ++ String.intercalate ",\n" (counters.map (counterLine "    ")) ++
    "\n  \x7d\n\x7d\n"

end Reassembly
