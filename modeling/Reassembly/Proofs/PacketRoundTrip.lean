import Reassembly.Packet.Draft
import Reassembly.Proofs.PacketGrammar

/-! Packets that are drafted and read again. The segment comes back whole exactly as long as the
16 bits for the length of the packet can hold it; beyond that they wrap, and what is read, if
anything, has lost a part of its payload. -/
namespace Reassembly
namespace Segment

open BigEndian (field)

theorem part_append_length (pre rest : Bytes) (start stop : ℕ) :
    part (pre++rest) (pre.length+start) (pre.length+stop) = part rest start stop := by
  simp only [part,List.take_length_add_append,List.drop_length_add_append]

theorem part_mid {pre mid post : Bytes} {start stop : ℕ} (hstart : pre.length = start)
    (hstop : start+mid.length = stop) : part (pre++mid++post) start stop = mid := by
  subst hstart hstop
  rw [part,List.append_assoc,List.take_length_add_append,List.take_left,List.drop_left]

theorem field_append_length (pre rest : Bytes) (offset width : ℕ) :
    field (pre++rest) (pre.length+offset) width = field rest offset width := by
  rw [field,List.drop_length_add_append,field]

theorem byteAt_append_length (pre rest : Bytes) (i : ℕ) :
    byteAt (pre++rest) (pre.length+i) = byteAt rest i := by
  rw [byteAt,byteAt,List.getD_eq_getElem?_getD,List.getD_eq_getElem?_getD,
    List.getElem?_append_right (Nat.le_add_right _ _),Nat.add_sub_cancel_left]

theorem Carries.length_payload {packet : Bytes} {header stop : ℕ} {s : Segment}
    (h : Carries packet header stop s) (hstop : stop ≤ packet.length) :
    s.payload.length = stop-(header+tcpHeader packet header) := by
  rw [h.payload,length_part hstop]

end Segment

theorem Octets.eq_of_bytes {n : ℕ} {o p : Octets n} (h : o.bytes = p.bytes) : o = p := by
  rw [← ofList_bytes o,h,ofList_bytes]

namespace Draft

open Segment
open BigEndian (field)

def v4Head (d : Draft) (source target : Octets 4) : Bytes :=
  [0x45,0] ++ BigEndian.ofNat 2 (20+d.tcpBytes.length) ++ [0,0,0x40,0,d.ttl,6,0,0] ++
    source.bytes ++ target.bytes

def v6Head (d : Draft) (source target : Octets 16) : Bytes :=
  [0x60,0,0,0] ++ BigEndian.ofNat 2 d.tcpBytes.length ++ [6,d.ttl] ++ source.bytes ++ target.bytes

variable {d : Draft} {head : Bytes} {s : Segment}

theorem length_tcpBytes (d : Draft) : d.tcpBytes.length = 20+d.payload.length := by
  simp +arith [tcpBytes]

theorem tcpHeader_drafted (head : Bytes) (d : Draft) :
    tcpHeader (head++d.tcpBytes) head.length = 20 := by
  have hoffset : byteAt d.tcpBytes 12 = 0x50 := rfl
  rw [tcpHeader,byteAt_append_length,hoffset]

/-- The segment says what the draft says, with the window that every packet states. -/
structure Returns (d : Draft) (s : Segment) : Prop where
  flow : s.flow = ⟨d.source,d.target⟩
  version : s.ipVersion = d.source.address.version
  seq : s.seq = d.seq
  ack : s.ack = d.ack
  flags : s.flags = d.flags
  window : s.window = 65535
  payload : s.payload = d.payload

theorem field_drafted (head : Bytes) {d : Draft} (offset : ℕ) {width n : ℕ}
    (h : field d.tcpBytes offset width = BigEndian.toNat (BigEndian.ofNat width n))
    (hn : n < 256^width) : field (head++d.tcpBytes) (head.length+offset) width = n := by
  rw [field_append_length,h,BigEndian.toNat_ofNat]
  exact Nat.mod_eq_of_lt hn

/-- The segment is what `head` and the TCP part hold up to `stop`, between the ends of the draft. -/
structure ReadTo (d : Draft) (head : Bytes) (stop : ℕ) (s : Segment) : Prop extends
    Carries (head++d.tcpBytes) head.length stop s where
  room : head.length+20 ≤ stop
  source : s.flow.source.address = d.source.address
  target : s.flow.target.address = d.target.address

theorem ReadTo.of_carries {header stop : ℕ} (hhead : head.length = header)
    (h : Carries (head++d.tcpBytes) header stop s) (htcp : HoldsTcp (head++d.tcpBytes) header stop)
    (hsource : s.flow.source.address = d.source.address)
    (htarget : s.flow.target.address = d.target.address) : d.ReadTo head stop s := by
  subst hhead
  exact ⟨h,htcp.room,hsource,htarget⟩

theorem ReadTo.returns (h : d.ReadTo head (head.length+d.tcpBytes.length) s) : d.Returns s := by
  have hsport := h.sourcePort.trans (field_drafted head 0 rfl d.source.port.toNat_lt)
  have htport := h.targetPort.trans (field_drafted head 2 rfl d.target.port.toNat_lt)
  have hseq := h.seq.trans (field_drafted head 4 rfl d.seq.toNat_lt)
  have hack := h.ack.trans (field_drafted head 8 rfl d.ack.toNat_lt)
  have hflags : s.flags.toNat = d.flags.toNat := h.flags.trans (byteAt_append_length head _ 13)
  have hwindow : s.window.toNat = 65535 := h.window.trans (field_append_length head _ 14 2)
  have hpayload : s.payload = d.payload := by
    rw [h.payload,tcpHeader_drafted,part_append_length,part_self]
    rfl
  refine ⟨?_,?_,UInt32.toNat_inj.mp hseq,UInt32.toNat_inj.mp hack,UInt8.toNat_inj.mp hflags,
    UInt16.toNat_inj.mp hwindow,hpayload⟩
  · calc s.flow = ⟨⟨s.flow.source.address,s.flow.source.port⟩,
          ⟨s.flow.target.address,s.flow.target.port⟩⟩ := rfl
      _ = ⟨d.source,d.target⟩ := by
        rw [h.source,h.target,UInt16.toNat_inj.mp hsport,UInt16.toNat_inj.mp htport]
  · rw [ipVersion,h.source]

theorem ReadTo.payload_shorter {stop : ℕ} (h : d.ReadTo head stop s)
    (hstop : stop < head.length+d.tcpBytes.length) : s.payload.length < d.payload.length := by
  have hroom := h.room
  rw [length_tcpBytes] at hstop
  rw [h.length_payload (by rw [List.length_append,length_tcpBytes]; omega),tcpHeader_drafted]
  omega

theorem holdsTcp_drafted (head : Bytes) (d : Draft) :
    HoldsTcp (head++d.tcpBytes) head.length (head.length+d.tcpBytes.length) := by
  have hheader := tcpHeader_drafted head d
  have hlen := length_tcpBytes d
  exact ⟨by omega,hheader.ge,by omega⟩

/-- Whatever is read from `head` and the TCP part ends at `stop`, and nothing is refused unless it
is cut off there. -/
structure Stops (d : Draft) (head : Bytes) (stop : ℕ) : Prop where
  le : stop ≤ head.length+d.tcpBytes.length
  readTo : ∀ s, decode (head++d.tcpBytes) = .ok s → d.ReadTo head stop s
  accepts : stop = head.length+d.tcpBytes.length → ∃ s, decode (head++d.tcpBytes) = .ok s

theorem Stops.payload_shorter {stop : ℕ} (h : d.Stops head stop)
    (hcut : stop ≠ head.length+d.tcpBytes.length) (hs : decode (head++d.tcpBytes) = .ok s) :
    s.payload.length < d.payload.length :=
  (h.readTo s hs).payload_shorter (lt_of_le_of_ne h.le hcut)

theorem Stops.returns_iff {stop : ℕ} (h : d.Stops head stop) :
    (∃ s, decode (head++d.tcpBytes) = .ok s ∧ d.Returns s) ↔
      stop = head.length+d.tcpBytes.length := by
  constructor
  · rintro ⟨s,hs,hreturns⟩
    by_contra hcut
    have hshort := h.payload_shorter hcut hs
    rw [hreturns.payload] at hshort
    exact lt_irrefl _ hshort
  · rintro rfl
    obtain ⟨s,hs⟩ := h.accepts rfl
    exact ⟨s,hs,(h.readTo s hs).returns⟩

section V4

variable (d : Draft) (a b : Octets 4)

theorem length_v4Head : (d.v4Head a b).length = 20 := by simp [v4Head,a.length_eq,b.length_eq]

theorem version_v4Head : version (d.v4Head a b ++ d.tcpBytes) = 4 := by
  have hfirst : byteAt (d.v4Head a b ++ d.tcpBytes) 0 = 0x45 := rfl
  rw [version,hfirst]

theorem v4Header_v4Head : v4Header (d.v4Head a b ++ d.tcpBytes) = 20 := by
  have hfirst : byteAt (d.v4Head a b ++ d.tcpBytes) 0 = 0x45 := rfl
  rw [v4Header,hfirst]

theorem total_v4Head : field (d.v4Head a b ++ d.tcpBytes) 2 2 = (20+d.tcpBytes.length)%2^16 :=
  BigEndian.toNat_ofNat 2 (20+d.tcpBytes.length)

theorem v4Stop_v4Head : v4Stop (d.v4Head a b ++ d.tcpBytes) = (20+d.tcpBytes.length)%2^16 := by
  rw [v4Stop,total_v4Head,List.length_append,length_v4Head]
  exact min_eq_left (Nat.mod_le _ _)

theorem source_v4Head : part (d.v4Head a b ++ d.tcpBytes) 12 16 = a.bytes := by
  rw [v4Head,List.append_assoc _ b.bytes d.tcpBytes]
  exact part_mid rfl (by rw [a.length_eq])

theorem target_v4Head : part (d.v4Head a b ++ d.tcpBytes) 16 20 = b.bytes :=
  part_mid (by simp [a.length_eq]) (by rw [b.length_eq])

theorem isV4_v4Head (h : (20+d.tcpBytes.length)%2^16 = 20+d.tcpBytes.length) :
    IsV4 (d.v4Head a b ++ d.tcpBytes) := by
  have hhead := d.length_v4Head a b
  have hheader := d.v4Header_v4Head a b
  have hlength : (d.v4Head a b ++ d.tcpBytes).length = 20+d.tcpBytes.length := by
    rw [List.length_append,hhead]
  have hfragment : field (d.v4Head a b ++ d.tcpBytes) 6 2 = 0x4000 := rfl
  constructor
  · exact d.version_v4Head a b
  · omega
  · exact hheader.ge
  · omega
  · rw [hheader,total_v4Head,h]
    exact Nat.le_add_right _ _
  · rw [Whole,hfragment]
    decide
  · rfl
  · have htcp := holdsTcp_drafted (d.v4Head a b) d
    rw [hhead] at htcp
    rwa [hheader,v4Stop_v4Head,h]

end V4

section V6

variable (d : Draft) (a b : Octets 16)

theorem length_v6Head : (d.v6Head a b).length = 40 := by simp [v6Head,a.length_eq,b.length_eq]

theorem version_v6Head : version (d.v6Head a b ++ d.tcpBytes) = 6 := by
  have hfirst : byteAt (d.v6Head a b ++ d.tcpBytes) 0 = 0x60 := rfl
  rw [version,hfirst]

theorem total_v6Head : field (d.v6Head a b ++ d.tcpBytes) 4 2 = d.tcpBytes.length%2^16 :=
  BigEndian.toNat_ofNat 2 d.tcpBytes.length

theorem v6Stop_v6Head : v6Stop (d.v6Head a b ++ d.tcpBytes) = 40+d.tcpBytes.length%2^16 := by
  rw [v6Stop,total_v6Head,List.length_append,length_v6Head]
  exact min_eq_left (Nat.add_le_add_left (Nat.mod_le _ _) 40)

theorem source_v6Head : part (d.v6Head a b ++ d.tcpBytes) 8 24 = a.bytes := by
  rw [v6Head,List.append_assoc _ b.bytes d.tcpBytes]
  exact part_mid rfl (by rw [a.length_eq])

theorem target_v6Head : part (d.v6Head a b ++ d.tcpBytes) 24 40 = b.bytes :=
  part_mid (by simp [a.length_eq]) (by rw [b.length_eq])

theorem isV6_v6Head (h : 40+d.tcpBytes.length%2^16 = 40+d.tcpBytes.length) :
    IsV6 (d.v6Head a b ++ d.tcpBytes) := by
  have hhead := d.length_v6Head a b
  constructor
  · exact d.version_v6Head a b
  · rw [List.length_append,hhead]
    exact Nat.le_add_right _ _
  · rfl
  · have htcp := holdsTcp_drafted (d.v6Head a b) d
    rw [hhead] at htcp
    rwa [v6Stop_v6Head,h]

end V6

theorem stops_v4Head {a b : Octets 4} (hsource : d.source.address = .v4 a)
    (htarget : d.target.address = .v4 b) :
    d.Stops (d.v4Head a b) ((20+d.tcpBytes.length)%2^16) := by
  have hhead := d.length_v4Head a b
  refine ⟨hhead.symm ▸ Nat.mod_le _ _,fun s hs => ?_,fun hall => ?_⟩
  · rcases carries_of_decode hs with ⟨h₄,hcarries⟩ | ⟨h₆,_⟩
    · obtain ⟨o,ho,hobytes⟩ := hcarries.source
      obtain ⟨p,hp,hpbytes⟩ := hcarries.target
      have hsegment := hcarries.toCarries
      have htcp := h₄.tcp
      rw [v4Header_v4Head,v4Stop_v4Head] at hsegment htcp
      have hao := Octets.eq_of_bytes (hobytes.trans (d.source_v4Head a b))
      have hbp := Octets.eq_of_bytes (hpbytes.trans (d.target_v4Head a b))
      exact .of_carries hhead hsegment htcp (by rw [ho,hsource,hao]) (by rw [hp,htarget,hbp])
    · exact absurd ((d.version_v4Head a b).symm.trans h₆.version) (by decide)
  · rw [hhead] at hall
    exact ⟨_,decode_of_isV4 (d.isV4_v4Head a b hall)⟩

theorem stops_v6Head {a b : Octets 16} (hsource : d.source.address = .v6 a 0)
    (htarget : d.target.address = .v6 b 0) :
    d.Stops (d.v6Head a b) (40+d.tcpBytes.length%2^16) := by
  have hhead := d.length_v6Head a b
  refine ⟨hhead.symm ▸ Nat.add_le_add_left (Nat.mod_le _ _) 40,fun s hs => ?_,fun hall => ?_⟩
  · rcases carries_of_decode hs with ⟨h₄,_⟩ | ⟨h₆,hcarries⟩
    · exact absurd ((d.version_v6Head a b).symm.trans h₄.version) (by decide)
    · obtain ⟨o,ho,hobytes⟩ := hcarries.source
      obtain ⟨p,hp,hpbytes⟩ := hcarries.target
      have hsegment := hcarries.toCarries
      have htcp := h₆.tcp
      rw [v6Stop_v6Head] at hsegment htcp
      have hao := Octets.eq_of_bytes (hobytes.trans (d.source_v6Head a b))
      have hbp := Octets.eq_of_bytes (hpbytes.trans (d.target_v6Head a b))
      exact .of_carries hhead hsegment htcp (by rw [ho,hsource,hao]) (by rw [hp,htarget,hbp])
  · rw [hhead] at hall
    exact ⟨_,decode_of_isV6 (d.isV6_v6Head a b hall)⟩

/-- The ends have addresses of one version, without zones. -/
def OneFamily (d : Draft) : Prop :=
  match d.source.address, d.target.address with
  | .v4 _, .v4 _ => True
  | .v6 _ zone, .v6 _ zone' => zone = 0 ∧ zone' = 0
  | _, _ => False

/-- The longest payload whose packet still states its own length. -/
def capacity (d : Draft) : ℕ :=
  match d.source.address with
  | .v4 _ => 65495
  | .v6 _ _ => 65515

theorem bytes_stops (h : d.OneFamily) : ∃ head stop, d.bytes = head++d.tcpBytes ∧
    d.Stops head stop ∧
    (stop = head.length+d.tcpBytes.length ↔ d.payload.length ≤ d.capacity) := by
  have hlen := length_tcpBytes d
  rw [OneFamily] at h
  split at h
  · rename_i a b hsource htarget
    refine ⟨_,_,?_,stops_v4Head hsource htarget,?_⟩
    · rw [bytes,hsource,htarget]
      rfl
    · have hcapacity : d.capacity = 65495 := by rw [capacity,hsource]
      rw [length_v4Head,hcapacity]
      omega
  · rename_i a zone b zone' hsource htarget
    obtain ⟨rfl,rfl⟩ := h
    refine ⟨_,_,?_,stops_v6Head hsource htarget,?_⟩
    · rw [bytes,hsource,htarget]
      rfl
    · have hcapacity : d.capacity = 65515 := by rw [capacity,hsource]
      rw [length_v6Head,hcapacity]
      omega
  · exact h.elim

/-- A draft comes back from its packet if and only if its payload is within the capacity; of a
longer payload, a part is lost wherever the packet is not refused. -/
theorem decode_bytes_returns_iff (d : Draft) (h : d.OneFamily) :
    ((∃ s, decode d.bytes = .ok s ∧ d.Returns s) ↔ d.payload.length ≤ d.capacity) ∧
      (d.capacity < d.payload.length → (∃ f, decode d.bytes = .error f) ∨
        ∃ s, decode d.bytes = .ok s ∧ s.payload.length < d.payload.length) := by
  obtain ⟨head,stop,hbytes,hstops,hfits⟩ := bytes_stops h
  rw [hbytes]
  refine ⟨hstops.returns_iff.trans hfits,fun hlong => ?_⟩
  have hcut : stop ≠ head.length+d.tcpBytes.length := fun hall => (hfits.mp hall).not_gt hlong
  cases hs : decode (head++d.tcpBytes) with
  | error f => exact .inl ⟨f,rfl⟩
  | ok s => exact .inr ⟨s,rfl,hstops.payload_shorter hcut hs⟩

def ofSize (n : ℕ) : Draft where
  source := ⟨.v6 (Octets.ofList 16 [0xfe,0x80]) 0,443⟩
  target := ⟨.v6 (Octets.ofList 16 [0xfe,0x80,1]) 0,50000⟩
  seq := 4294967295
  payload := List.replicate n 7

theorem returns_at_capacity :
    (∃ s, decode (ofSize 65515).bytes = .ok s ∧ (ofSize 65515).Returns s) ∧
      ¬∃ s, decode (ofSize 65516).bytes = .ok s ∧ (ofSize 65516).Returns s := by
  have hsize : ∀ n, (ofSize n).payload.length = n := fun n => List.length_replicate
  have hcapacity : ∀ n, (ofSize n).capacity = 65515 := fun _ => rfl
  constructor
  · rw [(decode_bytes_returns_iff (ofSize 65515) ⟨rfl,rfl⟩).1,hsize,hcapacity]
  · rw [(decode_bytes_returns_iff (ofSize 65516) ⟨rfl,rfl⟩).1,hsize,hcapacity]
    decide

end Draft
end Reassembly
