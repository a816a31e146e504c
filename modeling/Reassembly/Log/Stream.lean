import Reassembly.Dump
import Reassembly.Log.Entry
import Reassembly.Receiver.Describe

/-! The entries that tell what happened to a stream. -/
namespace Reassembly

namespace LogValue

def seq (n : SeqNum) : LogValue := .number n.toNat

end LogValue

/-- Handing on data is noted only where nothing takes it. -/
def Event.entry? (event : Event) : Option LogEntry :=
  let entry (level : Level) (message : String) (fields : List (String × LogValue)) :=
    some (⟨level,"tcpreasm_core::reassembler",message,fields⟩ : LogEntry)
  match event with
  | .opened initial limits => entry .trace "new reassembler"
    [("initial_seq",.seq initial),("limits",.text limits.describe)]
  | .moved source target pending => entry .debug "resetting expected sequence"
    [("from",.seq source),("to",.seq target),("pending",.number pending)]
  | .retransmitted seq len next => entry .trace "retransmission discarded"
    [("seq",.seq seq),("len",.number len),("next_seq",.seq next)]
  | .trimmed seq covered next => entry .trace "trimmed delivered prefix"
    [("seq",.seq seq),("covered",.number covered),("next_seq",.seq next)]
  | .refused seq len pending bytes => entry .debug "pending buffer full, segment dropped"
    [("seq",.seq seq),("len",.number len),("pending",.number pending),("pending_bytes",.number bytes)]
  | .refiled key covered next => entry .trace "re-filing partially covered segment"
    [("key",.seq key),("covered",.number covered),("next_seq",.seq next)]
  | .stale key len => entry .trace "buffered segment already delivered"
    [("key",.seq key),("len",.number len)]
  | .delivered (some _) _ _ => none
  | .delivered none _ data => entry .trace "no sink registered, chunk dropped"
    [("len",.number data.length)]
  | .evicted key len => entry .debug "evicted buffered segment"
    [("key",.seq key),("len",.number len)]
  | .released segments bytes => entry .trace "releasing undelivered segments"
    [("segments",.number segments),("bytes",.number bytes)]

def ConnectionEvent.entry? (event : ConnectionEvent) : Option LogEntry :=
  let entry (level : Level) (message : String) (fields : List (String × LogValue)) :=
    some (⟨level,"tcpreasm_core::stream",message,fields⟩ : LogEntry)
  match event with
  | .opened flow initial syn => entry .debug "new stream"
    [("flow",.text flow.text),("initial_seq",.seq initial),("syn",.flag syn)]
  | .finished flow fin rst => entry .trace "stream finished"
    [("flow",.text flow.text),("fin",.flag fin),("rst",.flag rst)]
  | .receiver event => event.entry?

namespace DumpEvent

def logTarget : String := "tcpreasm::commands::packets"

def entry? (event : DumpEvent) : Option LogEntry :=
  let entry (level : Level) (message : String) (fields : List (String × LogValue)) :=
    some (⟨level,logTarget,message,fields⟩ : LogEntry)
  match event with
  | .following flow => entry .info "following stream" [("flow",.text flow.text)]
  | .unreadable line fault => entry .warn "skipping packet"
    [("line",.number line),("error",.text fault.message)]
  | .otherFlow line flow => entry .debug "other direction, skipped"
    [("line",.number line),("flow",.text flow.text)]
  | .restarted line flow => entry .info "new connection, restarting stream"
    [("line",.number line),("flow",.text flow.text)]
  | .processed line seq len outcome => entry .debug "segment processed"
    [("line",.number line),("seq",.seq seq),("len",.number len),("outcome",.text outcome.describe)]
  | .connection event => event.entry?

end DumpEvent
end Reassembly
