import Reassembly.Fault
import Reassembly.Packet.Address

/-! One TCP segment and its place in a raw IP packet: which packets hold one, and what it is. -/
namespace Reassembly

structure Flow where
  source : Endpoint
  target : Endpoint
  deriving DecidableEq, Repr

namespace Flow

def reverse (f : Flow) : Flow := ⟨f.target,f.source⟩

def text (f : Flow) : String := f.source.text ++ " -> " ++ f.target.text

@[simp] theorem reverse_reverse (f : Flow) : f.reverse.reverse = f := rfl

end Flow

abbrev Flags := UInt8

namespace Flags

def fin : Flags := 0x01
def syn : Flags := 0x02
def rst : Flags := 0x04
def psh : Flags := 0x08
def ack : Flags := 0x10

def has (flags flag : Flags) : Bool := flags &&& flag ≠ 0

def names : List (String × Flags) :=
  [("FIN",0x01),("SYN",0x02),("RST",0x04),("PSH",0x08),("ACK",0x10),("URG",0x20),("ECE",0x40),
    ("CWR",0x80)]

end Flags

structure Segment where
  flow : Flow
  seq : SeqNum
  ack : SeqNum := 0
  flags : Flags
  window : UInt16 := 0
  payload : Bytes
  deriving DecidableEq, Repr

namespace Segment

def ipVersion (s : Segment) : Nat := s.flow.source.address.version

def isFin (s : Segment) : Bool := Flags.has s.flags Flags.fin
def isSyn (s : Segment) : Bool := Flags.has s.flags Flags.syn
def isRst (s : Segment) : Bool := Flags.has s.flags Flags.rst

/-- The byte at `i`, or zero past the end. -/
def byteAt (packet : Bytes) (i : Nat) : Nat := (packet.getD i 0).toNat

def decodeTcp (packet : Bytes) (offset stop : Nat) (source target : Address) :
    Except Fault Segment :=
  if stop < offset+20 then .error (.packetTooSmall (offset+20) stop)
  else
    let tcp := (packet.take stop).drop offset
    let header := byteAt tcp 12/16*4
    if header < 20 || tcp.length < header then
      .error (.packetMalformed (offset+12) ("Invalid TCP data offset: " ++ toString header))
    else
      .ok {
        flow := ⟨⟨source,UInt16.ofNat (BigEndian.field tcp 0 2)⟩,
          ⟨target,UInt16.ofNat (BigEndian.field tcp 2 2)⟩⟩
        seq := UInt32.ofNat (BigEndian.field tcp 4 4)
        ack := UInt32.ofNat (BigEndian.field tcp 8 4)
        flags := UInt8.ofNat (byteAt tcp 13)
        window := UInt16.ofNat (BigEndian.field tcp 14 2)
        payload := tcp.drop header}

/-- Reads a packet of version 4. Bytes beyond the length it states are padding. -/
def decodeV4 (packet : Bytes) : Except Fault Segment :=
  if packet.length < 20 then .error (.packetTooSmall 20 packet.length)
  else
    let header := byteAt packet 0%16*4
    let total := BigEndian.field packet 2 2
    let fragment := BigEndian.field packet 6 2
    if header < 20 then
      .error (.packetMalformed 0 ("Invalid IPv4 header length: " ++ toString header))
    else if packet.length < header then .error (.packetTooSmall header packet.length)
    else if total < header then
      .error (.packetMalformed 2 ("IPv4 total length " ++ toString total ++ " shorter than header"))
    else if fragment/0x2000%2 = 1 || fragment%0x2000 ≠ 0 then
      .error (.packetMalformed 6 "Fragmented IPv4 packet")
    else if byteAt packet 9 ≠ 6 then .error (.notTcp (byteAt packet 9))
    else
      decodeTcp packet header (min total packet.length)
        (.v4 (Octets.ofList 4 (packet.drop 12))) (.v4 (Octets.ofList 4 (packet.drop 16)))

/-- Reads a packet of version 6 without extension headers. -/
def decodeV6 (packet : Bytes) : Except Fault Segment :=
  if packet.length < 40 then .error (.packetTooSmall 40 packet.length)
  else if byteAt packet 6 ≠ 6 then .error (.notTcp (byteAt packet 6))
  else
    decodeTcp packet 40 (min (40+BigEndian.field packet 4 2) packet.length)
      (.v6 (Octets.ofList 16 (packet.drop 8)) 0) (.v6 (Octets.ofList 16 (packet.drop 24)) 0)

def decode : Bytes → Except Fault Segment
  | [] => .error (.packetTooSmall 20 0)
  | b::bs =>
    if b.toNat/16 = 4 then decodeV4 (b::bs)
    else if b.toNat/16 = 6 then decodeV6 (b::bs)
    else .error (.ipVersion (b.toNat/16))

end Segment
end Reassembly
