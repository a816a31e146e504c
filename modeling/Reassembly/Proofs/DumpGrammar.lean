import Mathlib.Data.List.Forall2
import Reassembly.Dump

/-! The grammar of dumps: which characters spell bytes, which lines hold a segment, and which texts
list some segments. Reading such a text takes in these segments and nothing else, and the packets
written one on each line list what they hold. -/
namespace Reassembly

/-- A character is one byte, or its first byte is 192 or more. -/
theorem Text.utf8EncodeChar_cases (c : Char) :
    (c.toNat < 128 ∧ String.utf8EncodeChar c = [UInt8.ofNat c.toNat]) ∨
      ∃ m < 64, ∃ rest, String.utf8EncodeChar c = UInt8.ofNat (m+192)::rest := by
  rw [String.utf8EncodeChar]
  split
  · exact .inl ⟨Nat.lt_succ_of_le ‹_›,rfl⟩
  · right
    split
    · exact ⟨_,by omega,_,rfl⟩
    · split
      · exact ⟨c.toNat/4096%16+32,by omega,_,rfl⟩
      · exact ⟨c.toNat/262144%8+48,by omega,_,rfl⟩

@[simp] theorem Text.utf8_eq_nil_iff {cs : List Char} : utf8 cs = [] ↔ cs = [] := by
  rw [utf8,List.flatMap_eq_nil_iff,List.eq_nil_iff_forall_not_mem]
  exact forall₂_congr fun c _ => iff_false_intro String.utf8EncodeChar_ne_nil

namespace Hex

/-- The character is the digit for `n`, in either case. -/
def IsDigit (c : Char) (n : ℕ) : Prop := c = Nat.digitChar n ∨ c = (Nat.digitChar n).toUpper

/-- The text has two digits for each of the bytes. -/
inductive Spells : List Char → Bytes → Prop
  | nil : Spells [] []
  | cons {high low : Char} {b : UInt8} {cs : List Char} {bs : Bytes} :
      IsDigit high (b.toNat/16) → IsDigit low (b.toNat%16) → Spells cs bs →
        Spells (high::low::cs) (b::bs)

variable {c high low : Char} {b : UInt8} {n : ℕ} {cs : List Char} {bs : Bytes}

theorem spells_encode (bs : Bytes) : Spells (encode bs) bs := by
  induction bs with
  | nil => exact .nil
  | cons b bs ih => exact .cons (.inl rfl) (.inl rfl) ih

/-- Neither white space nor the start of a comment. -/
def IsPlain (c : Char) : Prop := Text.isBlank c = false ∧ c ≠ '#'

instance (c : Char) : Decidable (IsPlain c) := inferInstanceAs (Decidable (_ ∧ _))

def ReadsAs (c : Char) (n : ℕ) : Prop :=
  String.utf8EncodeChar c = [UInt8.ofNat c.toNat] ∧
    digit? (UInt8.ofNat c.toNat) = some (UInt8.ofNat n) ∧ IsPlain c

instance (c : Char) (n : ℕ) : Decidable (ReadsAs c n) := inferInstanceAs (Decidable (_ ∧ _))

theorem IsDigit.readsAs (h : IsDigit c n) (hn : n < 16) : ReadsAs c n := by
  have hall : ∀ n < 16, ReadsAs (Nat.digitChar n) n ∧ ReadsAs (Nat.digitChar n).toUpper n := by
    decide
  rcases h with rfl | rfl
  · exact (hall n hn).1
  · exact (hall n hn).2

theorem byte_of_digits (b : UInt8) :
    UInt8.ofNat (b.toNat/16)*16+UInt8.ofNat (b.toNat%16) = b := by
  apply UInt8.toNat_inj.mp
  have hb := b.toNat_lt
  simp only [UInt8.toNat_add,UInt8.toNat_mul,UInt8.toNat_ofNat']
  change ((b.toNat/16)%256*16%256 + b.toNat%16%256)%256 = b.toNat
  omega

theorem utf8_digits (hhigh : IsDigit high (b.toNat/16)) (hlow : IsDigit low (b.toNat%16))
    (cs : List Char) : ∃ x y, Text.utf8 (high::low::cs) = x::y::Text.utf8 cs ∧
      digit? x = some (UInt8.ofNat (b.toNat/16)) ∧ digit? y = some (UInt8.ofNat (b.toNat%16)) := by
  have hb := b.toNat_lt
  have ⟨hx,hxdigit,_⟩ := hhigh.readsAs (by omega)
  have ⟨hy,hydigit,_⟩ := hlow.readsAs (by omega)
  refine ⟨_,_,?_,hxdigit,hydigit⟩
  rw [Text.utf8,List.flatMap_cons,List.flatMap_cons,hx,hy]
  rfl

namespace Spells

theorem length_utf8 (h : Spells cs bs) : (Text.utf8 cs).length = 2*bs.length := by
  induction h with
  | nil => rfl
  | cons hhigh hlow _ ih =>
    obtain ⟨x,y,htext,_⟩ := utf8_digits hhigh hlow _
    rw [htext,List.length_cons,List.length_cons,List.length_cons,ih]
    omega

theorem decodePairs (h : Spells cs bs) (read : Bytes) (offset : ℕ) :
    Hex.decodePairs read offset (Text.utf8 cs) = .ok (read.reverse++bs) := by
  induction h generalizing read offset with
  | nil => simp [Hex.decodePairs]
  | cons hhigh hlow _ ih =>
    obtain ⟨x,y,htext,hx,hy⟩ := utf8_digits hhigh hlow _
    rw [htext,Hex.decodePairs,hx,hy]
    simp only [ih,byte_of_digits,List.reverse_cons,List.append_assoc,List.singleton_append]

theorem decodeText (h : Spells cs bs) : Hex.decodeText cs = .ok bs := by
  have hlength := h.length_utf8
  rw [Hex.decodeText,decode,if_neg (by omega),h.decodePairs]
  rfl

theorem plain (h : Spells cs bs) : ∀ c ∈ cs, IsPlain c := by
  induction h with
  | nil => simp
  | @cons _ _ b _ _ hhigh hlow _ ih =>
    have hb := b.toNat_lt
    exact List.forall_mem_cons.mpr ⟨(hhigh.readsAs (by omega)).2.2,
      List.forall_mem_cons.mpr ⟨(hlow.readsAs (by omega)).2.2,ih⟩⟩

theorem not_remark (h : Spells cs bs) (hsome : bs ≠ []) : Follower.isRemark cs = false := by
  have hplain := h.plain
  cases h with
  | nil => exact absurd rfl hsome
  | cons _ _ _ =>
    have hcomment := (hplain _ List.mem_cons_self).2
    simpa [Follower.isRemark] using hcomment

end Spells

/-- A byte that is read as a digit is a character of its own, and that is the digit. -/
theorem exists_isDigit {x value : UInt8} {rest : Bytes} (hx : digit? x = some value)
    (htext : Text.utf8 cs = x::rest) :
    ∃ c ds, cs = c::ds ∧ Text.utf8 ds = rest ∧ value.toNat < 16 ∧ IsDigit c value.toNat := by
  have hlead : ∀ m < 64, digit? (UInt8.ofNat (m+192)) = none := by decide
  have hall : ∀ n < 128, ∀ value ∈ digit? (UInt8.ofNat n),
      value.toNat < 16 ∧ IsDigit (Char.ofNat n) value.toNat := by
    simp only [IsDigit]
    decide +kernel
  cases cs with
  | nil => cases htext
  | cons c ds =>
    rw [Text.utf8,List.flatMap_cons] at htext
    rcases Text.utf8EncodeChar_cases c with ⟨hc,hone⟩ | ⟨m,hm,more,hmany⟩
    · rw [hone,List.singleton_append,List.cons.injEq] at htext
      obtain ⟨rfl,htext⟩ := htext
      have ⟨hlt,hdigit⟩ := hall _ hc value hx
      rw [Char.ofNat_toNat] at hdigit
      exact ⟨c,ds,rfl,htext,hlt,hdigit⟩
    · rw [hmany,List.cons_append,List.cons.injEq] at htext
      rw [← htext.1,hlead m hm] at hx
      cases hx

theorem spells_of_decodePairs {read out bytes : Bytes} {offset : ℕ}
    (h : decodePairs read offset bytes = .ok out) (heven : bytes.length%2 = 0)
    (htext : Text.utf8 cs = bytes) : ∃ bs, out = read.reverse++bs ∧ Spells cs bs := by
  fun_induction decodePairs read offset bytes generalizing cs with
  | case1 | case2 => cases h
  | case3 read offset x y rest high hx low hy ih =>
    obtain ⟨c,ds,rfl,hds,hhigh,hc⟩ := exists_isDigit hx htext
    obtain ⟨d,es,rfl,hes,hlow,hd⟩ := exists_isDigit hy hds
    obtain ⟨bs,hout,hspells⟩ := ih h (by simp only [List.length_cons] at heven; omega) hes
    have hbyte : (high*16+low).toNat = 16*high.toNat+low.toNat := by
      rw [UInt8.toNat_add,UInt8.toNat_mul]
      change (high.toNat*16%256+low.toNat)%256 = _
      omega
    have hdiv : (high*16+low).toNat/16 = high.toNat := by omega
    have hmod : (high*16+low).toNat%16 = low.toNat := by omega
    exact ⟨(high*16+low)::bs,by simp [hout],.cons (hdiv ▸ hc) (hmod ▸ hd) hspells⟩
  | case4 bytes read _ hshort =>
    have hnone : bytes = [] := by
      rcases bytes with _ | ⟨x,_ | ⟨y,rest⟩⟩
      · rfl
      · simp at heven
      · exact (hshort x y rest rfl).elim
    obtain rfl : cs = [] := Text.utf8_eq_nil_iff.mp (htext.trans hnone)
    cases h
    exact ⟨[],by simp,.nil⟩

/-- A text is read as bytes exactly if it spells them. -/
theorem decodeText_eq_ok_iff : decodeText cs = .ok bs ↔ Spells cs bs := by
  refine ⟨fun h => ?_,Spells.decodeText⟩
  rw [decodeText,decode] at h
  split at h
  · cases h
  · rename_i heven
    obtain ⟨_,rfl,hspells⟩ := spells_of_decodePairs h (by omega) rfl
    exact hspells

end Hex

theorem Text.trim_eq_self {cs : List Char} (h : ∀ c ∈ cs, isBlank c = false) : trim cs = cs := by
  have hkept : ∀ ds : List Char, (∀ c ∈ ds, isBlank c = false) → ds.dropWhile isBlank = ds := by
    intro ds hds
    cases ds with
    | nil => rfl
    | cons d ds => rw [List.dropWhile_cons_of_neg (by simp [hds])]
  rw [trim,hkept cs h,hkept _ (by simpa using h),List.reverse_reverse]

namespace Dump

/-- Something stands on the line beside white space and comments. -/
def hasPacket (line : List Char) : Bool := !Follower.isRemark (Text.trim line)

def Holds (line : List Char) (s : Segment) : Prop :=
  ∃ packet, Hex.Spells (Text.trim line) packet ∧ Segment.decode packet = .ok s

/-- The lines with packets hold these segments, one each, in this order. -/
def Lists (text : List Char) (ss : List Segment) : Prop :=
  List.Forall₂ Holds ((lines text).filter hasPacket) ss

variable {f : Follower} {line : List Char} {s : Segment} {number : ℕ}

theorem readLine_of_remark (h : hasPacket line = false) : f.readLine number line = .ok (f,[]) := by
  have hremark : Follower.isRemark (Text.trim line) = true := by simpa [hasPacket] using h
  simp only [Follower.readLine,hremark,if_true]

theorem readLine_of_holds (hpacket : hasPacket line = true) (h : Holds line s) :
    f.readLine number line = .ok (f.take number s) := by
  have hremark : Follower.isRemark (Text.trim line) = false := by simpa [hasPacket] using hpacket
  obtain ⟨packet,hspells,hdecode⟩ := h
  simp only [Follower.readLine,hremark,hspells.decodeText,hdecode,Bool.false_eq_true,if_false]

def write (packets : List Bytes) : List Char := packets.flatMap fun p => Hex.encode p ++ ['\n']

theorem lines_line {line rest : List Char} (h : ∀ c ∈ line, c ≠ '\n') :
    lines (line ++ '\n'::rest) = line::lines rest := by
  induction line with
  | nil => rfl
  | cons c line ih =>
    have ⟨hc,hline⟩ := List.forall_mem_cons.mp h
    rw [List.cons_append,lines,List.foldr_cons,← lines,ih hline,if_neg hc]

theorem trim_encode (packet : Bytes) : Text.trim (Hex.encode packet) = Hex.encode packet :=
  Text.trim_eq_self fun c hc => ((Hex.spells_encode packet).plain c hc).1

theorem hasPacket_encode {packet : Bytes} (h : packet ≠ []) :
    hasPacket (Hex.encode packet) = true := by
  rw [hasPacket,trim_encode,(Hex.spells_encode packet).not_remark h]
  rfl

theorem encode_no_break (packet : Bytes) : ∀ c ∈ Hex.encode packet, c ≠ '\n' := by
  rintro c hc rfl
  exact absurd ((Hex.spells_encode packet).plain _ hc).1 (by decide)

theorem lists_write {packets : List Bytes} {ss : List Segment}
    (h : List.Forall₂ (fun p s => Segment.decode p = .ok s) packets ss) :
    Lists (write packets) ss := by
  induction h with
  | nil => exact .nil
  | @cons packet s packets ss hdecode _ ih =>
    have hspells : Hex.Spells (Text.trim (Hex.encode packet)) packet :=
      (trim_encode packet).symm ▸ Hex.spells_encode packet
    have hsome : packet ≠ [] := by
      rintro rfl
      cases hdecode
    have htext : write (packet::packets) = Hex.encode packet ++ '\n'::write packets := by
      rw [write,List.flatMap_cons,List.append_assoc]
      rfl
    rw [Lists,htext,lines_line (encode_no_break packet),
      List.filter_cons_of_pos (hasPacket_encode hsome)]
    exact .cons ⟨packet,hspells,hdecode⟩ ih

end Dump
end Reassembly
