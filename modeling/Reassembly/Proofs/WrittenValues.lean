import Reassembly.Proofs.Quotation
import Reassembly.Toml.Statement

/-! What is written behind a key and read back as one value: numbers in plain digits, the two truth
values, and quoted text. -/
namespace Reassembly.Toml

variable {c d : Char} {cs : List Char} {v : Value} {n : ℕ}

theorem ne_of_kind {p : Char → Bool} (hc : p c = true) (hd : p d = false) : c ≠ d := by
  rintro rfl
  rw [hc] at hd
  cases hd

theorem takeWhile_of_kind {p : Char → Bool} (hcs : ∀ x ∈ cs, p x = true) (hd : p d = false)
    (rest : List Char) : (cs ++ d::rest).takeWhile p = cs := by
  rw [List.takeWhile_append_of_pos hcs,List.takeWhile_cons_of_neg (by simp [hd]),List.append_nil]

theorem dropWhile_of_kind {p : Char → Bool} (hcs : ∀ x ∈ cs, p x = true) (hd : p d = false)
    (rest : List Char) : (cs ++ d::rest).dropWhile p = d::rest := by
  rw [List.dropWhile_append_of_pos hcs,List.dropWhile_cons_of_neg (by simp [hd])]

/-- The text stands for the value wherever a line ends behind it. -/
def Written (text : List Char) (v : Value) : Prop :=
  ∀ rest, readValue? nestingLimit (dropBlanks (text ++ '\n'::rest)) = some (v,'\n'::rest)

/-- A value that is no array and no table in braces. -/
theorem written_of_scalar (hblank : isBlank c = false) (hbracket : c ≠ '[') (hbrace : c ≠ '\x7b')
    (hread : ∀ rest, readScalar? (c::cs ++ '\n'::rest) = some (v,'\n'::rest)) :
    Written (c::cs) v := by
  intro rest
  rw [dropBlanks,List.cons_append,List.dropWhile_cons_of_neg (by simp [hblank]),readValue?.eq_3]
  · exact hread rest
  all_goals simp [hbracket,hbrace]

/-! ### Words -/

theorem written_word (hc : isWordChar c = true) (hcs : ∀ x ∈ cs, isWordChar x = true)
    (hv : ofWord? (c::cs) = some v) : Written (c::cs) v := by
  have hne : ∀ d : Char, isWordChar d = false → c ≠ d := fun _ => ne_of_kind hc
  have hall : ∀ x ∈ c::cs, isWordChar x = true := List.forall_mem_cons.mpr ⟨hc,hcs⟩
  have hend : isWordChar '\n' = false := by decide
  have hblank : isBlank c = false := by
    simp [isBlank,hne ' ' (by decide),hne '\t' (by decide)]
  refine written_of_scalar hblank (hne _ (by decide)) (hne _ (by decide)) fun rest => ?_
  rw [readScalar?,if_neg (by simp [hne '"' (by decide),hne '\'' (by decide)]),readWord?]
  simp only [takeWhile_of_kind hall hend,dropWhile_of_kind hall hend,hv]
  rfl

theorem written_boolean (b : Bool) :
    Written (if b then "true" else "false").toList (.boolean b) := by
  cases b
  · exact written_word (by decide) (List.all_eq_true.mp (by decide)) rfl
  · exact written_word (by decide) (List.all_eq_true.mp (by decide)) rfl

/-! ### Numbers -/

theorem isDigit_toDigits (n : ℕ) : ∀ c ∈ Nat.toDigits 10 n, c.isDigit = true :=
  fun _ => Nat.isDigit_of_mem_toDigits (by decide) (by decide)

theorem toNat_of_isDigit (h : c.isDigit = true) : 48 ≤ c.toNat ∧ c.toNat ≤ 57 := by
  simp only [Char.isDigit,Bool.and_eq_true,decide_eq_true_eq,ge_iff_le,UInt32.le_iff_toNat_le] at h
  exact h

theorem hexValue?_of_isDigit (h : c.isDigit = true) : hexValue? c = some (c.toNat - '0'.toNat) := by
  rw [hexValue?,if_pos (by simp [toNat_of_isDigit h])]
  rfl

theorem isBaseDigit_of_isDigit (h : c.isDigit = true) : isBaseDigit 10 c = true := by
  have hzero : '0'.toNat = 48 := rfl
  have hbounds := toNat_of_isDigit h
  simp only [isBaseDigit,hexValue?_of_isDigit h,Option.any_some,decide_eq_true_eq]
  omega

theorem digitsValue_toDigits (n : ℕ) : digitsValue 10 (Nat.toDigits 10 n) = n := by
  have hvalue : ∀ cs : List Char, (∀ c ∈ cs, c.isDigit = true) → ∀ m,
      cs.foldl (fun n c => n*10+(hexValue? c).getD 0) m = Nat.ofDigitChars 10 cs m := by
    intro cs hcs
    induction cs with
    | nil => exact fun _ => rfl
    | cons c cs ih =>
      intro m
      have ⟨hc,hcs⟩ := List.forall_mem_cons.mp hcs
      rw [List.foldl_cons,ih hcs,Nat.ofDigitChars_cons,hexValue?_of_isDigit hc,Nat.mul_comm]
      rfl
  rw [digitsValue,hvalue _ (isDigit_toDigits n)]
  exact Nat.ofDigitChars_toDigits (by decide) (by decide)

theorem digits?_of_isDigit (hsome : cs ≠ []) (h : ∀ c ∈ cs, c.isDigit = true) :
    digits? 10 cs = some cs := by
  fun_induction digits? 10 cs with
  | case1 => exact absurd rfl hsome
  | case2 => rfl
  | case3 c hc => exact absurd (isBaseDigit_of_isDigit (h c List.mem_cons_self)) hc
  | case4 c rest => exact absurd (h '_' (by simp)) (by decide)
  | case5 c rest => exact absurd (h '_' (by simp)) (by decide)
  | case6 c rest hrest _ _ ih =>
    rw [ih (by rintro rfl; contradiction) (List.forall_mem_cons.mp h).2]
    rfl
  | case7 c rest _ _ hc => exact absurd (isBaseDigit_of_isDigit (h c List.mem_cons_self)) hc

theorem eq_zero_of_head? (h : (Nat.toDigits 10 n).head? = some '0') : n = 0 := by
  induction n using Nat.strong_induction_on with
  | _ n ih =>
    rw [Nat.toDigits_eq_if (by decide)] at h
    split_ifs at h with hn
    · have hall : ∀ n < 10, Nat.digitChar n = '0' → n = 0 := by decide
      exact hall n hn (Option.some.inj h)
    · rw [List.head?_append_of_ne_nil _ Nat.toDigits_ne_nil] at h
      have hzero := ih (n/10) (by omega) h
      omega

theorem decimal?_toDigits (n : ℕ) : decimal? (Nat.toDigits 10 n) = some (Nat.toDigits 10 n) := by
  rw [decimal?,digits?_of_isDigit Nat.toDigits_ne_nil (isDigit_toDigits n)]
  split
  · rename_i heq
    have hdigits : Nat.toDigits 10 n = '0'::_::_ := Option.some.inj heq
    have hn : n = 0 := eq_zero_of_head? (by rw [hdigits]; rfl)
    rw [hn] at hdigits
    cases hdigits
  · rfl

theorem integer?_toDigits (h : n ≤ maxInteger) : integer? (Nat.toDigits 10 n) = some (Int.ofNat n) := by
  have hfirst : ∀ d cs, d.isDigit = false → Nat.toDigits 10 n ≠ d::cs := fun d cs hd heq =>
    ne_of_kind (isDigit_toDigits n d (by simp [heq])) hd rfl
  have hsecond : ∀ c d cs, d.isDigit = false → Nat.toDigits 10 n ≠ c::d::cs := fun c d cs hd heq =>
    ne_of_kind (isDigit_toDigits n d (by simp [heq])) hd rfl
  rw [integer?.eq_6,decimal?_toDigits,Option.bind_some,digitsValue_toDigits,bounded?,if_pos h]
  · rfl
  · exact fun cs => hsecond _ _ cs (by decide)
  · exact fun cs => hsecond _ _ cs (by decide)
  · exact fun cs => hsecond _ _ cs (by decide)
  · exact fun cs => hfirst _ cs (by decide)
  · exact fun cs => hfirst _ cs (by decide)

theorem written_nat (h : n ≤ maxInteger) : Written (Nat.toDigits 10 n) (.integer n) := by
  have hdigits := isDigit_toDigits n
  have hinteger := integer?_toDigits h
  cases hn : Nat.toDigits 10 n with
  | nil => exact absurd hn Nat.toDigits_ne_nil
  | cons c cs =>
    rw [hn] at hdigits hinteger
    have hword : ∀ x ∈ c::cs, isWordChar x = true := by
      intro x hx
      simp [isWordChar,Char.isAlphanum,hdigits x hx]
    have ⟨hc,hcs⟩ := List.forall_mem_cons.mp hword
    have hne : ∀ d : Char, d.isDigit = false → c ≠ d :=
      fun _ => ne_of_kind (hdigits c List.mem_cons_self)
    refine written_word hc hcs ?_
    rw [ofWord?,if_neg (by simp [hne 't' (by decide)]),if_neg (by simp [hne 'f' (by decide)]),
      hinteger]
    rfl

/-! ### Quoted text -/

theorem writeQuoted_start (cs : List Char) :
    ∃ c ds, writeQuoted cs = c::ds ∧ (c = '"' ∨ c = '\'') := by
  rw [writeQuoted]
  cases quotationStyle cs <;> exact ⟨_,_,rfl,by decide⟩

theorem written_string (s : String) : Written (writeQuoted s.toList) (.string s) := by
  obtain ⟨c,ds,hstart,hmark⟩ := writeQuoted_start s.toList
  rw [hstart]
  have hread : ∀ rest, readScalar? (c::ds ++ '\n'::rest) = some (.string s,'\n'::rest) := by
    intro rest
    rw [readScalar?,if_pos (by simpa using hmark),← hstart,
      readQuoted?_writeQuoted _ (by simp) (by simp),Option.map_some]
    simp only [String.ofList_toList]
  rcases hmark with rfl | rfl
  · exact written_of_scalar (by decide) (by decide) (by decide) hread
  · exact written_of_scalar (by decide) (by decide) (by decide) hread

end Reassembly.Toml
