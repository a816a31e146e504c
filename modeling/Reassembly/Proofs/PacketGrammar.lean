import Reassembly.Proofs.PacketBounds

/-! Which packets hold a TCP segment, and which segment that is. The grammar is stated by offsets
into the packet, and the checks are listed in the order in which they are made; reading accepts
what passes them all and reports the first that fails. -/
namespace Reassembly

theorem BigEndian.toNat_lt (bs : Bytes) : toNat bs < 256^bs.length := by
  induction bs using List.reverseRecOn with
  | nil => decide
  | append_singleton bs b ih =>
    have hb := b.toNat_lt
    rw [toNat_append_singleton,List.length_append,List.length_singleton,pow_succ]
    omega

theorem BigEndian.field_lt (bs : Bytes) (offset width : ℕ) : field bs offset width < 256^width :=
  (toNat_lt _).trans_le (Nat.pow_le_pow_right (by decide) (List.length_take_le _ _))

structure Check where
  passes : Bool
  report : Fault

namespace Check

/-- The segment if all checks pass, and else the report of the first that fails. -/
def verdict (s : Segment) : List Check → Except Fault Segment
  | [] => .ok s
  | c::cs => if c.passes then verdict s cs else .error c.report

/-- The report is that of a check that fails after others that all pass. -/
def FirstFailing (cs : List Check) (f : Fault) : Prop :=
  ∃ passed c rest, cs = passed ++ c::rest ∧ (∀ p ∈ passed, p.passes = true) ∧
    c.passes = false ∧ c.report = f

theorem verdict_eq_ok_iff {s t : Segment} {cs : List Check} :
    verdict s cs = .ok t ↔ (∀ c ∈ cs, c.passes = true) ∧ s = t := by
  induction cs with
  | nil => simp [verdict]
  | cons c cs ih =>
    rw [verdict]
    cases hc : c.passes with
    | true => simp [ih,hc]
    | false => simp [hc]

end Check

namespace Segment

open BigEndian (field)

def version (packet : Bytes) : ℕ := byteAt packet 0/16

/-- The length that an IP header of version 4 states for itself. -/
def v4Header (packet : Bytes) : ℕ := 4*(byteAt packet 0%16)

/-- The length that the TCP header behind an IP header states for itself. -/
def tcpHeader (packet : Bytes) (header : ℕ) : ℕ := 4*(byteAt packet (header+12)/16)

/-- Where the segment ends: at the length that the packet states, or at its end if that comes
first. -/
def v4Stop (packet : Bytes) : ℕ := min (field packet 2 2) packet.length

def v6Stop (packet : Bytes) : ℕ := min (40+field packet 4 2) packet.length

/-- Neither do more fragments follow, nor is this one at an offset. -/
def Whole (packet : Bytes) : Prop :=
  (field packet 6 2).testBit 13 = false ∧ field packet 6 2%2^13 = 0

instance (packet : Bytes) : Decidable (Whole packet) := inferInstanceAs (Decidable (_ ∧ _))

structure HoldsTcp (packet : Bytes) (header stop : ℕ) : Prop where
  room : header+20 ≤ stop
  least : 20 ≤ tcpHeader packet header
  most : tcpHeader packet header ≤ stop-header

structure IsV4 (packet : Bytes) : Prop where
  version : version packet = 4
  long : 20 ≤ packet.length
  least : 20 ≤ v4Header packet
  most : v4Header packet ≤ packet.length
  total : v4Header packet ≤ field packet 2 2
  whole : Whole packet
  protocol : byteAt packet 9 = 6
  tcp : HoldsTcp packet (v4Header packet) (v4Stop packet)

structure IsV6 (packet : Bytes) : Prop where
  version : version packet = 6
  long : 40 ≤ packet.length
  protocol : byteAt packet 6 = 6
  tcp : HoldsTcp packet 40 (v6Stop packet)

/-- The segment has the fields of the TCP header behind `header`, and the bytes from the end of
that header up to `stop`. -/
structure Carries (packet : Bytes) (header stop : ℕ) (s : Segment) : Prop where
  sourcePort : s.flow.source.port.toNat = field packet header 2
  targetPort : s.flow.target.port.toNat = field packet (header+2) 2
  seq : s.seq.toNat = field packet (header+4) 4
  ack : s.ack.toNat = field packet (header+8) 4
  flags : s.flags.toNat = byteAt packet (header+13)
  window : s.window.toNat = field packet (header+14) 2
  payload : s.payload = part packet (header+tcpHeader packet header) stop

structure CarriesV4 (packet : Bytes) (s : Segment) : Prop extends
    Carries packet (v4Header packet) (v4Stop packet) s where
  source : ∃ o : Octets 4, s.flow.source.address = .v4 o ∧ o.bytes = part packet 12 16
  target : ∃ o : Octets 4, s.flow.target.address = .v4 o ∧ o.bytes = part packet 16 20

structure CarriesV6 (packet : Bytes) (s : Segment) : Prop extends
    Carries packet 40 (v6Stop packet) s where
  source : ∃ o : Octets 16, s.flow.source.address = .v6 o 0 ∧ o.bytes = part packet 8 24
  target : ∃ o : Octets 16, s.flow.target.address = .v6 o 0 ∧ o.bytes = part packet 24 40

/-- The checks on the TCP part of a packet. -/
def tcpChecks (packet : Bytes) (header stop : ℕ) : List Check :=
  [⟨header+20 ≤ stop,.packetTooSmall (header+20) stop⟩,
    ⟨20 ≤ tcpHeader packet header ∧ tcpHeader packet header ≤ stop-header,
      .packetMalformed (header+12)
        ("Invalid TCP data offset: " ++ toString (tcpHeader packet header))⟩]

def v4Checks (packet : Bytes) : List Check :=
  ⟨20 ≤ packet.length,.packetTooSmall 20 packet.length⟩::
    ⟨20 ≤ v4Header packet,
      .packetMalformed 0 ("Invalid IPv4 header length: " ++ toString (v4Header packet))⟩::
    ⟨v4Header packet ≤ packet.length,.packetTooSmall (v4Header packet) packet.length⟩::
    ⟨v4Header packet ≤ field packet 2 2,
      .packetMalformed 2
        ("IPv4 total length " ++ toString (field packet 2 2) ++ " shorter than header")⟩::
    ⟨Whole packet,.packetMalformed 6 "Fragmented IPv4 packet"⟩::
    ⟨byteAt packet 9 = 6,.notTcp (byteAt packet 9)⟩::
    tcpChecks packet (v4Header packet) (v4Stop packet)

def v6Checks (packet : Bytes) : List Check :=
  ⟨40 ≤ packet.length,.packetTooSmall 40 packet.length⟩::
    ⟨byteAt packet 6 = 6,.notTcp (byteAt packet 6)⟩::
    tcpChecks packet 40 (v6Stop packet)

def checks (packet : Bytes) : List Check :=
  ⟨packet ≠ [],.packetTooSmall 20 0⟩::
    ⟨version packet = 4 ∨ version packet = 6,.ipVersion (version packet)⟩::
    if version packet = 4 then v4Checks packet else v6Checks packet

/-- What the TCP part of a packet says, whether it passes the checks or not. -/
def tcpSegment (packet : Bytes) (header stop : ℕ) (source target : Address) : Segment where
  flow := ⟨⟨source,UInt16.ofNat (field (part packet header stop) 0 2)⟩,
    ⟨target,UInt16.ofNat (field (part packet header stop) 2 2)⟩⟩
  seq := UInt32.ofNat (field (part packet header stop) 4 4)
  ack := UInt32.ofNat (field (part packet header stop) 8 4)
  flags := UInt8.ofNat (byteAt (part packet header stop) 13)
  window := UInt16.ofNat (field (part packet header stop) 14 2)
  payload := (part packet header stop).drop (tcpHeader packet header)

def v4Segment (packet : Bytes) : Segment :=
  tcpSegment packet (v4Header packet) (v4Stop packet) (.v4 (Octets.ofList 4 (packet.drop 12)))
    (.v4 (Octets.ofList 4 (packet.drop 16)))

def v6Segment (packet : Bytes) : Segment :=
  tcpSegment packet 40 (v6Stop packet) (.v6 (Octets.ofList 16 (packet.drop 8)) 0)
    (.v6 (Octets.ofList 16 (packet.drop 24)) 0)

variable {packet : Bytes} {header stop : ℕ} {source target : Address}

theorem byteAt_part {i : ℕ} (h : header+i < stop) :
    byteAt (part packet header stop) i = byteAt packet (header+i) := by
  simp [byteAt,part,h]

theorem field_part {offset width : ℕ} (h : header+offset+width ≤ stop) :
    field (part packet header stop) offset width = field packet (header+offset) width := by
  rw [field,part,List.drop_drop,List.drop_take,List.take_take,min_eq_left (by omega),field]

theorem decodeTcp_eq (h : stop ≤ packet.length) :
    decodeTcp packet header stop source target =
      Check.verdict (tcpSegment packet header stop source target)
        (tcpChecks packet header stop) := by
  have hlen : (part packet header stop).length = stop-header := length_part h
  have hbytes : (packet.take stop).drop header = part packet header stop := rfl
  simp only [decodeTcp,tcpChecks,Check.verdict,decide_eq_true_eq,hbytes,hlen]
  by_cases hroom : header+20 ≤ stop
  · have hheader : byteAt (part packet header stop) 12/16*4 = tcpHeader packet header := by
      rw [byteAt_part (by omega),tcpHeader,mul_comm]
    rw [if_neg (not_lt.mpr hroom),if_pos hroom,hheader]
    by_cases hlong : 20 ≤ tcpHeader packet header ∧ tcpHeader packet header ≤ stop-header
    · rw [if_pos hlong,if_neg (by simpa using hlong)]
      rfl
    · have hbad : (decide (tcpHeader packet header < 20) ||
          decide (stop-header < tcpHeader packet header)) = true := by
        simp only [Bool.or_eq_true,decide_eq_true_eq]
        omega
      rw [if_neg hlong,if_pos hbad]
  · rw [if_pos (not_le.mp hroom),if_neg hroom]

theorem whole_iff : Whole packet ↔
    ¬(decide (field packet 6 2/0x2000%2 = 1) || decide (field packet 6 2%0x2000 ≠ 0)) = true := by
  simp [Whole,Nat.testBit_eq_decide_div_mod_eq]

theorem decodeV4_eq (packet : Bytes) :
    decodeV4 packet = Check.verdict (v4Segment packet) (v4Checks packet) := by
  have hheader : byteAt packet 0%16*4 = v4Header packet := mul_comm _ _
  simp only [decodeV4,v4Checks,Check.verdict,decide_eq_true_eq,whole_iff,hheader,← not_le,ite_not]
  rw [decodeTcp_eq (min_le_right _ _)]
  rfl

theorem decodeV6_eq (packet : Bytes) :
    decodeV6 packet = Check.verdict (v6Segment packet) (v6Checks packet) := by
  simp only [decodeV6,v6Checks,Check.verdict,decide_eq_true_eq,← not_le,ite_not]
  rw [decodeTcp_eq (min_le_right _ _)]
  rfl

theorem decode_eq (packet : Bytes) :
    decode packet = Check.verdict (if version packet = 4 then v4Segment packet else v6Segment packet)
      (checks packet) := by
  cases packet with
  | nil => rfl
  | cons b bs =>
    have hversion : b.toNat/16 = version (b::bs) := rfl
    simp only [decode,checks,Check.verdict,hversion,decodeV4_eq,decodeV6_eq,decide_eq_true_eq]
    rw [if_pos (List.cons_ne_nil b bs)]
    by_cases h₄ : version (b::bs) = 4
    · rw [if_pos h₄,if_pos (.inl h₄),if_pos h₄,if_pos h₄]
    · rw [if_neg h₄,if_neg h₄,if_neg h₄]
      by_cases h₆ : version (b::bs) = 6
      · rw [if_pos h₆,if_pos (.inr h₆)]
      · rw [if_neg h₆,if_neg (by tauto)]

theorem tcpChecks_pass_iff :
    (∀ c ∈ tcpChecks packet header stop, c.passes = true) ↔ HoldsTcp packet header stop := by
  simp only [tcpChecks,List.forall_mem_cons,decide_eq_true_eq]
  constructor
  · rintro ⟨room,⟨least,most⟩,_⟩
    exact ⟨room,least,most⟩
  · rintro ⟨room,least,most⟩
    exact ⟨room,⟨least,most⟩,by simp⟩

theorem v4Checks_pass_iff (h : version packet = 4) :
    (∀ c ∈ v4Checks packet, c.passes = true) ↔ IsV4 packet := by
  simp only [v4Checks,List.forall_mem_cons,decide_eq_true_eq,tcpChecks_pass_iff]
  constructor
  · rintro ⟨long,least,most,total,whole,protocol,tcp⟩
    exact ⟨h,long,least,most,total,whole,protocol,tcp⟩
  · rintro ⟨_,long,least,most,total,whole,protocol,tcp⟩
    exact ⟨long,least,most,total,whole,protocol,tcp⟩

theorem v6Checks_pass_iff (h : version packet = 6) :
    (∀ c ∈ v6Checks packet, c.passes = true) ↔ IsV6 packet := by
  simp only [v6Checks,List.forall_mem_cons,decide_eq_true_eq,tcpChecks_pass_iff]
  constructor
  · rintro ⟨long,protocol,tcp⟩
    exact ⟨h,long,protocol,tcp⟩
  · rintro ⟨_,long,protocol,tcp⟩
    exact ⟨long,protocol,tcp⟩

theorem checks_pass_iff :
    (∀ c ∈ checks packet, c.passes = true) ↔ IsV4 packet ∨ IsV6 packet := by
  simp only [checks,List.forall_mem_cons,decide_eq_true_eq]
  constructor
  · rintro ⟨_,h₄ | h₆,hrest⟩
    · rw [if_pos h₄] at hrest
      exact .inl ((v4Checks_pass_iff h₄).mp hrest)
    · rw [if_neg (by omega)] at hrest
      exact .inr ((v6Checks_pass_iff h₆).mp hrest)
  · have some : ∀ {n}, version packet = n+1 → packet ≠ [] := by
      rintro n hn rfl
      cases hn
    rintro (h | h)
    · refine ⟨some h.version,.inl h.version,?_⟩
      rw [if_pos h.version]
      exact (v4Checks_pass_iff h.version).mpr h
    · refine ⟨some h.version,.inr h.version,?_⟩
      rw [if_neg (by have := h.version; omega)]
      exact (v6Checks_pass_iff h.version).mpr h

theorem byteAt_lt (packet : Bytes) (i : ℕ) : byteAt packet i < 256 := UInt8.toNat_lt _

theorem HoldsTcp.carries (h : HoldsTcp packet header stop) (source target : Address) :
    Carries packet header stop (tcpSegment packet header stop source target) := by
  have hroom := h.room
  have hfield : ∀ o w, o+w ≤ 20 →
      field (part packet header stop) o w = field packet (header+o) w :=
    fun o w ho => field_part (by omega)
  have hflags : byteAt (part packet header stop) 13 = byteAt packet (header+13) :=
    byteAt_part (by omega)
  have hlt := BigEndian.field_lt packet
  constructor
  · rw [tcpSegment,hfield 0 2 (by decide)]
    exact UInt16.toNat_ofNat_of_lt' (hlt header 2)
  · rw [tcpSegment,hfield 2 2 (by decide)]
    exact UInt16.toNat_ofNat_of_lt' (hlt (header+2) 2)
  · rw [tcpSegment,hfield 4 4 (by decide)]
    exact UInt32.toNat_ofNat_of_lt' (hlt (header+4) 4)
  · rw [tcpSegment,hfield 8 4 (by decide)]
    exact UInt32.toNat_ofNat_of_lt' (hlt (header+8) 4)
  · rw [tcpSegment,hflags]
    exact UInt8.toNat_ofNat_of_lt' (byteAt_lt packet (header+13))
  · rw [tcpSegment,hfield 14 2 (by decide)]
    exact UInt16.toNat_ofNat_of_lt' (hlt (header+14) 2)
  · rw [tcpSegment,part,List.drop_drop,part]

theorem ofList_drop_bytes {n offset : ℕ} (h : offset+n ≤ packet.length) :
    (Octets.ofList n (packet.drop offset)).bytes = part packet offset (offset+n) := by
  have hlen : n ≤ (packet.drop offset).length := by
    rw [List.length_drop]
    omega
  rw [part_add]
  exact List.take_append_of_le_length hlen

theorem IsV4.carries (h : IsV4 packet) : CarriesV4 packet (v4Segment packet) where
  toCarries := h.tcp.carries _ _
  source := ⟨_,rfl,ofList_drop_bytes (by have := h.long; omega)⟩
  target := ⟨_,rfl,ofList_drop_bytes h.long⟩

theorem IsV6.carries (h : IsV6 packet) : CarriesV6 packet (v6Segment packet) where
  toCarries := h.tcp.carries _ _
  source := ⟨_,rfl,ofList_drop_bytes (by have := h.long; omega)⟩
  target := ⟨_,rfl,ofList_drop_bytes h.long⟩

theorem decode_of_isV4 (h : IsV4 packet) : decode packet = .ok (v4Segment packet) := by
  rw [decode_eq,if_pos h.version]
  exact Check.verdict_eq_ok_iff.mpr ⟨checks_pass_iff.mpr (.inl h),rfl⟩

theorem decode_of_isV6 (h : IsV6 packet) : decode packet = .ok (v6Segment packet) := by
  rw [decode_eq,if_neg (by have := h.version; omega)]
  exact Check.verdict_eq_ok_iff.mpr ⟨checks_pass_iff.mpr (.inr h),rfl⟩

theorem carries_of_decode {s : Segment} (h : decode packet = .ok s) :
    (IsV4 packet ∧ CarriesV4 packet s) ∨ (IsV6 packet ∧ CarriesV6 packet s) := by
  have hgrammar := checks_pass_iff.mp (Check.verdict_eq_ok_iff.mp ((decode_eq packet).symm.trans h)).1
  rcases hgrammar with h₄ | h₆
  · cases (decode_of_isV4 h₄).symm.trans h
    exact .inl ⟨h₄,h₄.carries⟩
  · cases (decode_of_isV6 h₆).symm.trans h
    exact .inr ⟨h₆,h₆.carries⟩

end Segment
end Reassembly
