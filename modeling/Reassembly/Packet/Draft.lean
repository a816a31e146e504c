import Reassembly.Packet.Segment

/-! Packets to be written: a plain IP header, a plain TCP header and a payload. -/
namespace Reassembly

structure Draft where
  source : Endpoint := ⟨.unspecified,0⟩
  target : Endpoint := ⟨.unspecified,0⟩
  ttl : UInt8 := 64
  flags : Flags := Flags.ack
  seq : SeqNum := 0
  ack : SeqNum := 0
  payload : Bytes := []

namespace Draft

def tcpBytes (d : Draft) : Bytes :=
  BigEndian.ofNat 2 d.source.port.toNat ++ BigEndian.ofNat 2 d.target.port.toNat ++
    BigEndian.ofNat 4 d.seq.toNat ++ BigEndian.ofNat 4 d.ack.toNat ++
    [0x50,d.flags,0xff,0xff,0,0,0,0] ++ d.payload

/-- The bytes of an address in a header of version 4: a long address has them if it is mapped,
and any other is written as zeros. -/
def v4Octets : Address → Octets 4
  | .v4 octets => octets
  | .v6 octets _ => (Address.mapped? octets).getD (Octets.ofList 4 [])

/-- The packet. It is of version 6 if both ends are; lengths are written modulo 2¹⁶. -/
def bytes (d : Draft) : Bytes :=
  let tcp := d.tcpBytes
  match d.source.address, d.target.address with
  | .v6 source _, .v6 target _ =>
    [0x60,0,0,0] ++ BigEndian.ofNat 2 tcp.length ++ [6,d.ttl] ++ source.bytes ++ target.bytes ++ tcp
  | source, target =>
    [0x45,0] ++ BigEndian.ofNat 2 (20+tcp.length) ++ [0,0,0x40,0,d.ttl,6,0,0] ++
      (v4Octets source).bytes ++ (v4Octets target).bytes ++ tcp

end Draft
end Reassembly
