import Reassembly.Proofs.DumpGrammar
import Reassembly.Script

/-! The grammar of script entries: which of them are valid, what a valid one asks for, and what is
found wrong with any other. The steps of some entries are what they ask for if all of them are
valid, and otherwise the first that is not is reported with what is wrong with it. -/
namespace Reassembly

structure FirstFailing {α : Type} (P : α → Prop) (as : List α) (n : ℕ) (a : α) : Prop where
  entry : as[n]? = some a
  fails : ¬P a
  before : ∀ b ∈ as.take n, P b

section

variable {α : Type} {P : α → Prop} {as : List α} {n : ℕ} {a b : α}

@[simp] theorem not_firstFailing_nil : ¬FirstFailing P [] n a := fun h => by simpa using h.entry

theorem firstFailing_cons_of_not (h : ¬P a) : FirstFailing P (a::as) n b ↔ n = 0 ∧ b = a := by
  constructor
  · intro hfirst
    cases n with
    | zero => exact ⟨rfl,(by simpa using hfirst.entry : a = b).symm⟩
    | succ n => exact absurd (hfirst.before a (by simp)) h
  · rintro ⟨rfl,rfl⟩
    exact ⟨rfl,h,by simp⟩

theorem firstFailing_cons_of (h : P a) :
    FirstFailing P (a::as) n b ↔ ∃ m, FirstFailing P as m b ∧ n = m+1 := by
  constructor
  · intro hfirst
    cases n with
    | zero => exact absurd ((by simpa using hfirst.entry : a = b) ▸ h) hfirst.fails
    | succ n =>
      have hbefore := hfirst.before
      rw [List.take_succ_cons,List.forall_mem_cons] at hbefore
      exact ⟨n,⟨by simpa using hfirst.entry,hfirst.fails,hbefore.2⟩,rfl⟩
  · rintro ⟨m,hfirst,rfl⟩
    refine ⟨by simpa using hfirst.entry,hfirst.fails,?_⟩
    rw [List.take_succ_cons,List.forall_mem_cons]
    exact ⟨h,hfirst.before⟩

theorem exists_firstFailing_iff : (∃ a n, FirstFailing P as n a) ↔ ∃ a ∈ as, ¬P a := by
  induction as with
  | nil => simp
  | cons a as ih =>
    by_cases h : P a
    · simp [firstFailing_cons_of h,h,← ih]
    · simp [firstFailing_cons_of_not h,h]

end

namespace Hex

def digits : List Char := "0123456789abcdefABCDEF".toList

def IsPairs (cs : List Char) : Prop := cs.length%2 = 0 ∧ ∀ c ∈ cs, c ∈ digits

def IsDigitByte (b : UInt8) : Prop := Char.ofNat b.toNat ∈ digits

/-- What is found wrong with a text that is not made of pairs of digits. Its length in bytes is
looked at before any of them. -/
inductive Mistake (cs : List Char) : HexFault → Prop
  | odd : (Text.utf8 cs).length%2 = 1 → Mistake cs .odd
  | invalid {byte : UInt8} {n : ℕ} : (Text.utf8 cs).length%2 = 0 →
      FirstFailing IsDigitByte (Text.utf8 cs) n byte → Mistake cs (.invalid byte n)

instance (cs : List Char) : Decidable (IsPairs cs) :=
  decidable_of_iff (cs.length%2 = 0 ∧ cs.all (· ∈ digits) = true) (by simp [IsPairs])

instance (b : UInt8) : Decidable (IsDigitByte b) := inferInstanceAs (Decidable (_ ∈ _))

variable {c : Char} {cs : List Char} {bs : Bytes} {cause : HexFault}

theorem IsDigit.mem_digits {n : ℕ} (h : IsDigit c n) (hn : n < 16) : c ∈ digits := by
  have hall : ∀ n < 16, Nat.digitChar n ∈ digits ∧ (Nat.digitChar n).toUpper ∈ digits := by decide
  rcases h with rfl | rfl
  · exact (hall n hn).1
  · exact (hall n hn).2

theorem exists_isDigit_of_mem (h : c ∈ digits) : ∃ n < 16, IsDigit c n := by
  -- A Boolean search: to decide a statement about all characters would go through all of them.
  have hall : digits.all (fun c => (List.range 16).any fun n =>
      c = Nat.digitChar n || c = (Nat.digitChar n).toUpper) = true := by
    decide
  obtain ⟨n,hn,hdigit⟩ := List.any_eq_true.mp (List.all_eq_true.mp hall c h)
  exact ⟨n,List.mem_range.mp hn,by simpa [IsDigit] using hdigit⟩

theorem Spells.isPairs (h : Spells cs bs) : IsPairs cs := by
  induction h with
  | nil => exact ⟨rfl,by simp⟩
  | @cons high low b cs bs hhigh hlow _ ih =>
    have hb := b.toNat_lt
    have ⟨heven,hdigits⟩ := ih
    refine ⟨?_,List.forall_mem_cons.mpr ⟨hhigh.mem_digits (by omega),
      List.forall_mem_cons.mpr ⟨hlow.mem_digits (by omega),hdigits⟩⟩⟩
    rw [List.length_cons,List.length_cons]
    omega

theorem IsPairs.exists_spells : ∀ {cs : List Char}, IsPairs cs → ∃ bs, Spells cs bs
  | [], _ => ⟨[],.nil⟩
  | [_], h => by simp [IsPairs] at h
  | high::low::cs, ⟨heven,hdigits⟩ => by
    have ⟨hhigh,hrest⟩ := List.forall_mem_cons.mp hdigits
    have ⟨hlow,hdigits'⟩ := List.forall_mem_cons.mp hrest
    rw [List.length_cons,List.length_cons] at heven
    have hpairs : IsPairs cs := ⟨by omega,hdigits'⟩
    obtain ⟨bs,hspells⟩ := hpairs.exists_spells
    obtain ⟨m,hm,hhigh⟩ := exists_isDigit_of_mem hhigh
    obtain ⟨n,hn,hlow⟩ := exists_isDigit_of_mem hlow
    have hbyte : (UInt8.ofNat (16*m+n)).toNat = 16*m+n := by
      rw [UInt8.toNat_ofNat']
      omega
    have hdiv : (UInt8.ofNat (16*m+n)).toNat/16 = m := by omega
    have hmod : (UInt8.ofNat (16*m+n)).toNat%16 = n := by omega
    exact ⟨_,.cons (hdiv.symm ▸ hhigh) (hmod.symm ▸ hlow) hspells⟩

theorem isPairs_iff_spells : IsPairs cs ↔ ∃ bs, Spells cs bs :=
  ⟨IsPairs.exists_spells,fun ⟨_,h⟩ => h.isPairs⟩

theorem digit?_eq_none_iff (b : UInt8) : digit? b = none ↔ ¬IsDigitByte b := by
  have hall : ∀ n < 256, digit? (UInt8.ofNat n) = none ↔ ¬IsDigitByte (UInt8.ofNat n) := by
    decide +kernel
  simpa using hall b.toNat b.toNat_lt

theorem isDigitByte_of_digit? {b value : UInt8} (h : digit? b = some value) : IsDigitByte b := by
  by_contra hbad
  simp [(digit?_eq_none_iff b).mpr hbad] at h

theorem decodePairs_eq_error_iff {read bytes : Bytes} {offset : ℕ} (heven : bytes.length%2 = 0) :
    decodePairs read offset bytes = .error cause ↔
      ∃ byte n, FirstFailing IsDigitByte bytes n byte ∧ cause = .invalid byte (offset+n) := by
  fun_induction decodePairs read offset bytes with
  | case1 read offset high low rest hhigh =>
    simp [firstFailing_cons_of_not ((digit?_eq_none_iff high).mp hhigh),eq_comm]
  | case2 read offset high low rest x hhigh hlow =>
    simp [firstFailing_cons_of (isDigitByte_of_digit? hhigh),
      firstFailing_cons_of_not ((digit?_eq_none_iff low).mp hlow),eq_comm]
  | case3 read offset high low rest x hhigh y hlow ih =>
    rw [ih (by simp only [List.length_cons] at heven; omega)]
    simp [firstFailing_cons_of (isDigitByte_of_digit? hhigh),
      firstFailing_cons_of (isDigitByte_of_digit? hlow),Nat.add_assoc,Nat.add_comm 2]
  | case4 bytes read offset hshort =>
    rcases bytes with _ | ⟨x,_ | ⟨y,rest⟩⟩
    · simp
    · simp at heven
    · exact (hshort x y rest rfl).elim

theorem decodeText_eq_error_iff : decodeText cs = .error cause ↔ Mistake cs cause := by
  rw [decodeText,decode]
  split
  · rename_i hodd
    refine ⟨by rintro ⟨⟩; exact .odd hodd,fun h => ?_⟩
    cases h with
    | odd => rfl
    | invalid heven => omega
  · rename_i heven
    have heven' : (Text.utf8 cs).length%2 = 0 := by omega
    rw [decodePairs_eq_error_iff heven']
    constructor
    · rintro ⟨byte,n,hfirst,rfl⟩
      rw [Nat.zero_add]
      exact .invalid heven' hfirst
    · intro h
      cases h with
      | odd hodd => omega
      | invalid _ hfirst => exact ⟨_,_,hfirst,by rw [Nat.zero_add]⟩

end Hex

namespace ScriptEntry

/-- The entry is a reset and nothing else, or it has a start and one payload, which if it is given
in hexadecimal is made of pairs of digits between white space. -/
def Valid (e : ScriptEntry) : Prop :=
  (e.reset.isSome ∧ e.seq = none ∧ e.text = none ∧ e.hex = none) ∨
    (e.reset = none ∧ e.seq.isSome ∧
      ((e.text.isSome ∧ e.hex = none) ∨
        (e.text = none ∧ ∃ hex ∈ e.hex, Hex.IsPairs (Text.trim hex.toList))))

instance (e : ScriptEntry) : Decidable e.Valid := inferInstanceAs (Decidable (_ ∨ _))

/-- What a valid entry asks for. -/
inductive Asks : ScriptEntry → ScriptStep → Prop
  | reset (seq : SeqNum) : Asks {reset := some seq} (.reset seq)
  | text (seq : SeqNum) (text : String) :
      Asks {seq := some seq, text := some text} (.segment seq (Text.utf8String text))
  | hex {seq : SeqNum} {hex : String} {payload : Bytes} :
      Hex.Spells (Text.trim hex.toList) payload →
        Asks {seq := some seq, hex := some hex} (.segment seq payload)

/-- What is first found wrong with the entry at `index`. -/
inductive RefusedFor (index : ℕ) : ScriptEntry → Fault → Prop
  | surplus {seq : Option SeqNum} {text hex : Option String} (target : SeqNum) :
      (seq.isSome || text.isSome || hex.isSome) →
        RefusedFor index {seq, text, hex, reset := some target}
          (.script index "reset entries take no other fields")
  | noStart (text hex : Option String) :
      RefusedFor index {text, hex} (.script index "missing 'seq'")
  | twoPayloads (seq : SeqNum) (text hex : String) :
      RefusedFor index {seq := some seq, text := some text, hex := some hex}
        (.script index "give either 'text' or 'hex', not both")
  | noPayload (seq : SeqNum) :
      RefusedFor index {seq := some seq} (.script index "missing 'text' or 'hex' payload")
  | badHex (seq : SeqNum) {hex : String} {cause : HexFault} :
      Hex.Mistake (Text.trim hex.toList) cause →
        RefusedFor index {seq := some seq, hex := some hex} (.hex cause)

variable {e : ScriptEntry} {step : ScriptStep} {fault : Fault} {index : ℕ}

theorem valid_iff_asks : e.Valid ↔ ∃ step, e.Asks step := by
  constructor
  · obtain ⟨seq,text,hex,reset⟩ := e
    rintro (⟨hreset,rfl,rfl,rfl⟩ | ⟨rfl,hseq,⟨htext,rfl⟩ | ⟨rfl,hex,rfl,hpairs⟩⟩)
    · obtain ⟨target,rfl⟩ := Option.isSome_iff_exists.mp hreset
      exact ⟨_,.reset target⟩
    · obtain ⟨seq,rfl⟩ := Option.isSome_iff_exists.mp hseq
      obtain ⟨text,rfl⟩ := Option.isSome_iff_exists.mp htext
      exact ⟨_,.text seq text⟩
    · obtain ⟨seq,rfl⟩ := Option.isSome_iff_exists.mp hseq
      obtain ⟨payload,hspells⟩ := Hex.isPairs_iff_spells.mp hpairs
      exact ⟨_,.hex hspells⟩
  · rintro ⟨step,h⟩
    cases h with
    | reset => exact .inl ⟨rfl,rfl,rfl,rfl⟩
    | text => exact .inr ⟨rfl,rfl,.inl ⟨rfl,rfl⟩⟩
    | hex hspells => exact .inr ⟨rfl,rfl,.inr ⟨rfl,_,rfl,hspells.isPairs⟩⟩

example : ({seq := some 9, hex := some " 0aFF\n"} : ScriptEntry).Valid := by decide +kernel

theorem Asks.toStep (h : e.Asks step) : e.toStep index = .ok step := by
  cases h with
  | reset | text => rfl
  | hex hspells => simp [ScriptEntry.toStep,hspells.decodeText]

/-- An entry is read as what it asks for, or refused for what is wrong with it. -/
theorem toStep_spec (e : ScriptEntry) (index : ℕ) :
    (∃ step, e.toStep index = .ok step ∧ e.Asks step) ∨
      ∃ fault, e.toStep index = .error fault ∧ e.RefusedFor index fault := by
  obtain ⟨seq,text,hex,reset⟩ := e
  cases reset with
  | some target =>
    by_cases hsurplus : (seq.isSome || text.isSome || hex.isSome) = true
    · exact .inr ⟨_,if_pos hsurplus,.surplus target hsurplus⟩
    · simp only [Bool.or_eq_true,not_or,Option.not_isSome_iff_eq_none] at hsurplus
      obtain ⟨⟨rfl,rfl⟩,rfl⟩ := hsurplus
      exact .inl ⟨_,rfl,.reset target⟩
  | none =>
    cases seq with
    | none => exact .inr ⟨_,rfl,.noStart text hex⟩
    | some seq =>
      cases text with
      | some text =>
        cases hex with
        | some hex => exact .inr ⟨_,rfl,.twoPayloads seq text hex⟩
        | none => exact .inl ⟨_,rfl,.text seq text⟩
      | none =>
        cases hex with
        | none => exact .inr ⟨_,rfl,.noPayload seq⟩
        | some hex =>
          cases hdecode : Hex.decodeText (Text.trim hex.toList) with
          | ok payload =>
            refine .inl ⟨.segment seq payload,?_,.hex (Hex.decodeText_eq_ok_iff.mp hdecode)⟩
            simp [ScriptEntry.toStep,hdecode]
          | error cause =>
            have hmistake := Hex.decodeText_eq_error_iff.mp hdecode
            refine .inr ⟨.hex cause,?_,.badHex seq hmistake⟩
            simp [ScriptEntry.toStep,hdecode]

theorem toStep_eq_ok_iff (index : ℕ) : e.toStep index = .ok step ↔ e.Asks step := by
  refine ⟨fun h => ?_,Asks.toStep⟩
  rcases e.toStep_spec index with ⟨step',hstep,hasks⟩ | ⟨fault,hfault,_⟩
  · cases h.symm.trans hstep
    exact hasks
  · cases h.symm.trans hfault

theorem RefusedFor.toStep (h : e.RefusedFor index fault) : e.toStep index = .error fault := by
  cases h with
  | surplus _ hsurplus => exact if_pos hsurplus
  | noStart | twoPayloads | noPayload => rfl
  | badHex _ hmistake =>
    simp [ScriptEntry.toStep,Hex.decodeText_eq_error_iff.mpr hmistake]

theorem toStep_eq_error_iff : e.toStep index = .error fault ↔ e.RefusedFor index fault := by
  refine ⟨fun h => ?_,RefusedFor.toStep⟩
  rcases e.toStep_spec index with ⟨step,hstep,_⟩ | ⟨fault',hfault,hrefused⟩
  · cases h.symm.trans hstep
  · cases h.symm.trans hfault
    exact hrefused

theorem not_valid_iff_refused (index : ℕ) : ¬e.Valid ↔ ∃ fault, e.RefusedFor index fault := by
  simp only [valid_iff_asks,← toStep_eq_ok_iff index,← toStep_eq_error_iff]
  cases e.toStep index <;> simp

/-- An error of a script, unlike one in hexadecimal digits, tells the entry. -/
theorem RefusedFor.index_eq {n : ℕ} {reason : String}
    (h : e.RefusedFor index (.script n reason)) : n = index := by
  cases h <;> rfl

end ScriptEntry

namespace Script

open ScriptEntry

variable {es : List ScriptEntry} {steps : List ScriptStep} {fault : Fault}

theorem stepsFrom_eq_ok_iff (index : ℕ) :
    stepsFrom index es = .ok steps ↔ List.Forall₂ Asks es steps := by
  induction es generalizing index steps with
  | nil => cases steps <;> simp [stepsFrom]
  | cons e es ih =>
    have hasks : ∀ step, e.Asks step ↔ e.toStep index = .ok step :=
      fun _ => (toStep_eq_ok_iff index).symm
    rw [stepsFrom]
    cases steps with
    | nil => cases e.toStep index <;> cases stepsFrom (index+1) es <;> simp
    | cons step rest =>
      rw [List.forall₂_cons,hasks,← ih (index+1)]
      cases e.toStep index <;> cases stepsFrom (index+1) es <;> simp

theorem stepsFrom_eq_error_iff (index : ℕ) : stepsFrom index es = .error fault ↔
    ∃ e n, FirstFailing Valid es n e ∧ e.RefusedFor (index+n) fault := by
  induction es generalizing index with
  | nil => simp [stepsFrom]
  | cons e es ih =>
    rw [stepsFrom]
    cases hstep : e.toStep index with
    | error cause =>
      have hrefused := toStep_eq_error_iff.mp hstep
      simp [firstFailing_cons_of_not ((not_valid_iff_refused index).mpr ⟨_,hrefused⟩),
        ← toStep_eq_error_iff,hstep]
    | ok step =>
      have hvalid := valid_iff_asks.mpr ⟨_,(toStep_eq_ok_iff index).mp hstep⟩
      have hrest : stepsFrom (index+1) es = .error fault ↔
          ∃ d n, FirstFailing Valid (e::es) n d ∧ d.RefusedFor (index+n) fault := by
        simp [ih,firstFailing_cons_of hvalid,Nat.add_assoc,Nat.add_comm 1]
      rw [← hrest]
      cases stepsFrom (index+1) es <;> simp

end Script
end Reassembly
