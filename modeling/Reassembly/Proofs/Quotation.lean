import Mathlib.Data.List.Basic
import Mathlib.Tactic.IntervalCases
import Reassembly.Toml.Quotation

/-! Quoted text is read back as it was, whichever style it is written in and whatever stands in it.
Between triple marks this rests on runs of marks: never do three of them stand in the text as they
are, and up to two before the closing ones are told apart from these. -/
namespace Reassembly.Toml

variable {mark c : Char} {spelling cs rest text : List Char} {read : List Char → List Char → Read}

/-- The reader takes the spelling for the character, whatever follows. -/
def Takes (read : List Char → List Char → Read) (c : Char) (spelling : List Char) : Prop :=
  ∀ acc rest, read acc (spelling++rest) = read (c::acc) rest

inductive Escape (c : Char) : List Char → Prop
  | letter {l : Char} : unescape? l = some c → Escape c ['\\',l]
  | number {a b d e : Char} : charOfHex? [a,b,d,e] = some c → Escape c ['\\','u',a,b,d,e]

theorem isText_of_plain (hplain : isControl c = false) (hc : c ≠ '\n') : isText c = true := by
  simp only [isControl,Bool.or_eq_false_iff,Bool.and_eq_false_iff,decide_eq_false_iff_not] at hplain
  simp only [isText,Bool.or_eq_true,Bool.and_eq_true,decide_eq_true_eq]
  grind

theorem charOfHex?_control (h : isControl c = true) :
    charOfHex? ['0','0',(Nat.digitChar (c.toNat/16)).toUpper,(Nat.digitChar (c.toNat%16)).toUpper] =
      some c := by
  have hall : ∀ n < 128, charOfHex?
      ['0','0',(Nat.digitChar (n/16)).toUpper,(Nat.digitChar (n%16)).toUpper] =
        some (Char.ofNat n) := by decide
  have hc : c.toNat < 128 := by
    simp only [isControl,Bool.or_eq_true,Bool.and_eq_true,decide_eq_true_eq] at h
    omega
  rw [hall _ hc,Char.ofNat_toNat]

theorem escapeChar_cases (c : Char) :
    Escape c (escapeChar c) ∨ escapeChar c = [c] ∧ c ≠ '\\' ∧ isControl c = false := by
  rw [escapeChar]
  split_ifs with hb ht hf hr hs hcontrol
  · exact .inl (.letter (congrArg some hb.symm))
  · exact .inl (.letter (congrArg some ht.symm))
  · exact .inl (.letter (congrArg some hf.symm))
  · exact .inl (.letter (congrArg some hr.symm))
  · exact .inl (.letter (congrArg some hs.symm))
  · exact .inl (.number (charOfHex?_control hcontrol))
  · exact .inr ⟨rfl,hs,by simpa using hcontrol⟩

theorem escape_mark : Escape '"' ['\\','"'] := .letter rfl

/-! ### Single marks -/

theorem Escape.takes (h : Escape c spelling) : Takes readBasic c spelling := by
  intro acc rest
  cases h with
  | @letter l hl =>
    have hu : l ≠ 'u' ∧ l ≠ 'U' := by constructor <;> rintro rfl <;> cases hl
    rw [List.cons_append,List.cons_append,List.nil_append,readBasic.eq_4,hl]
    all_goals simp [hu]
  | number hnumber => simp only [List.cons_append,List.nil_append,readBasic,hnumber]

theorem takes_escapeBasic (hc : c ≠ '\n') : Takes readBasic c (escapeBasic c) := by
  rw [escapeBasic]
  split_ifs with hmark
  · exact hmark ▸ escape_mark.takes
  · rcases escapeChar_cases c with hescape | ⟨hsame,hback,hplain⟩
    · exact hescape.takes
    · intro acc rest
      rw [hsame,List.cons_append,List.nil_append,readBasic.eq_5 _ _ _ hmark]
      all_goals simp [hback,isText_of_plain hplain hc]

theorem takes_literal (hc : isText c = true) (hmark : c ≠ '\'') : Takes readLiteral c [c] := by
  intro acc rest
  rw [List.cons_append,List.nil_append,readLiteral.eq_2 _ _ _ hmark,if_pos hc]

theorem read_single {spell : Char → List Char}
    (hclose : ∀ acc, read acc (mark::rest) = some (acc.reverse,rest))
    (htakes : ∀ c ∈ cs, Takes read c (spell c)) (acc : List Char) :
    read acc (cs.flatMap spell ++ mark::rest) = some (acc.reverse++cs,rest) := by
  induction cs generalizing acc with
  | nil => rw [List.append_nil]; exact hclose acc
  | cons c cs ih =>
    have ⟨hc,hcs⟩ := List.forall_mem_cons.mp htakes
    rw [List.flatMap_cons,List.append_assoc,hc,ih hcs,List.reverse_cons,List.append_assoc]
    rfl

/-! ### Triple marks -/

/-- A reader of text between triple marks. Marks that are no more than two are part of the text, and
so are up to two before the closing three. -/
structure ReadsTriple (mark : Char) (read : List Char → List Char → Read) : Prop where
  close : ∀ run ≤ 2, ∀ acc rest, rest.head? ≠ some mark →
    read acc (List.replicate run mark ++ mark::mark::mark::rest) =
      some (acc.reverse++List.replicate run mark,rest)
  pass : ∀ run ≤ 2, ∀ acc rest, rest.head? ≠ some mark →
    read acc (List.replicate run mark ++ rest) = read (List.replicate run mark ++ acc) rest

/-- How a reader takes a character whose spelling starts neither with a mark nor, but for a line end
itself, with a line end. -/
structure TakesInside (mark : Char) (read : List Char → List Char → Read) (c d : Char)
    (spelling : List Char) : Prop where
  takes : Takes read c (d::spelling)
  no_mark : d ≠ mark
  no_return : d ≠ '\r'
  no_feed : c ≠ '\n' → d ≠ '\n'

/-- Text that is spelled so that the reader takes it for `cs`, where `run` marks stand before it. -/
inductive Spelled (mark : Char) (read : List Char → List Char → Read) :
    ℕ → List Char → List Char → Prop
  | nil {run} : run ≤ 2 → Spelled mark read run [] []
  | mark {run cs text} : Spelled mark read (run+1) cs text →
      Spelled mark read run (mark::cs) (mark::text)
  | take {run c cs d spelling text} : run ≤ 2 → TakesInside mark read c d spelling →
      Spelled mark read 0 cs text → Spelled mark read run (c::cs) (d::spelling ++ text)

theorem replicate_append_cons (run : ℕ) (mark : Char) (cs : List Char) :
    List.replicate run mark ++ mark::cs = List.replicate (run+1) mark ++ cs := by
  rw [List.replicate_succ',List.append_assoc]
  rfl

theorem Spelled.read_eq {run : ℕ} (h : Spelled mark read run cs text)
    (hread : ReadsTriple mark read) (hrest : rest.head? ≠ some mark) (acc : List Char) :
    read acc (List.replicate run mark ++ text ++ mark::mark::mark::rest) =
      some (acc.reverse ++ List.replicate run mark ++ cs,rest) := by
  induction h generalizing acc with
  | nil hrun =>
    rw [List.append_nil,List.append_nil]
    exact hread.close _ hrun acc rest hrest
  | mark _ ih => rw [replicate_append_cons,ih,List.append_assoc,List.append_assoc,replicate_append_cons]
  | @take run c cs d spelling text hrun hinside _ ih =>
    have hpass := hread.pass run hrun acc (d::spelling ++ (text ++ mark::mark::mark::rest))
      (by simpa using hinside.no_mark)
    rw [List.append_assoc,List.append_assoc,hpass,hinside.takes]
    refine (ih _).trans ?_
    simp

theorem ne_cons_of_head? (h : cs.head? ≠ some c) (ds : List Char) : cs ≠ c::ds := by
  rintro rfl
  exact h rfl

theorem readsTriple_basicLines : ReadsTriple '"' readBasicLines where
  close run hrun acc rest hrest := by
    have hnone := ne_cons_of_head? hrest
    interval_cases run <;> simp [List.replicate,readBasicLines,hnone]
  pass run hrun acc rest hrest := by
    have hnone := ne_cons_of_head? hrest
    interval_cases run <;> simp [List.replicate,readBasicLines,hnone,isText]

theorem readsTriple_literalLines : ReadsTriple '\'' readLiteralLines where
  close run hrun acc rest hrest := by
    have hnone := ne_cons_of_head? hrest
    interval_cases run <;> simp [List.replicate,readLiteralLines,hnone]
  pass run hrun acc rest hrest := by
    have hnone := ne_cons_of_head? hrest
    interval_cases run <;> simp [List.replicate,readLiteralLines,hnone,isText]

theorem joinLine?_letter {l : Char} (h : unescape? l = some c) (rest : List Char) :
    joinLine? (l::rest) = none := by
  unfold unescape? at h
  split at h <;> first | rfl | cases h

theorem Escape.takes_lines (h : Escape c spelling) : Takes readBasicLines c spelling := by
  intro acc rest
  cases h with
  | @letter l hl =>
    have hu : l ≠ 'u' ∧ l ≠ 'U' := by constructor <;> rintro rfl <;> cases hl
    rw [List.cons_append,List.cons_append,List.nil_append,readBasicLines.eq_7]
    · rw [joinLine?_letter hl,hl]
    all_goals simp [hu]
  | number hnumber => simp only [List.cons_append,List.nil_append,readBasicLines,hnumber]

theorem Escape.inside (h : Escape c spelling) :
    ∃ spelling', spelling = '\\'::spelling' ∧ TakesInside '"' readBasicLines c '\\' spelling' := by
  have htakes := h.takes_lines
  cases h <;> exact ⟨_,rfl,htakes,by decide,by decide,fun _ => by decide⟩

theorem inside_basicLines (hmark : c ≠ '"') (hback : c ≠ '\\') (hplain : isControl c = false) :
    TakesInside '"' readBasicLines c c [] := by
  have hr : c ≠ '\r' := by rintro rfl; cases hplain
  refine ⟨?_,hmark,hr,id⟩
  intro acc rest
  have hkept : (isText c && decide (c ≠ '\\') || decide (c = '\n')) = true := by
    by_cases hc : c = '\n'
    · simp [hc]
    · simp [isText_of_plain hplain hc,hback]
  rw [List.cons_append,List.nil_append,readBasicLines.eq_8,if_pos hkept]
  all_goals simp [hmark,hback,hr]

theorem inside_literalLines (hmark : c ≠ '\'') (hplain : isControl c = false) :
    TakesInside '\'' readLiteralLines c c [] := by
  have hr : c ≠ '\r' := by rintro rfl; cases hplain
  refine ⟨?_,hmark,hr,id⟩
  intro acc rest
  have hkept : (isText c || decide (c = '\n')) = true := by
    by_cases hc : c = '\n'
    · simp [hc]
    · simp [isText_of_plain hplain hc]
  rw [List.cons_append,List.nil_append,readLiteralLines.eq_5,if_pos hkept]
  all_goals simp [hmark,hr]

theorem spelled_escapeLines (cs : List Char) {run : ℕ} (hrun : run ≤ 2) :
    Spelled '"' readBasicLines run cs (escapeLines run cs) := by
  induction cs generalizing run with
  | nil => exact .nil hrun
  | cons c cs ih =>
    rw [escapeLines]
    split_ifs with hmark hfull
    · obtain ⟨_,heq,hinside⟩ := escape_mark.inside
      cases heq
      subst hmark
      exact .take hrun hinside (ih (by omega))
    · subst hmark
      exact .mark (ih (by omega))
    · rcases escapeChar_cases c with hescape | ⟨hsame,hback,hplain⟩
      · obtain ⟨_,hspelling,hinside⟩ := hescape.inside
        exact hspelling ▸ .take hrun hinside (ih (by omega))
      · exact hsame ▸ .take hrun (inside_basicLines hmark hback hplain) (ih (by omega))

theorem spelled_literal {run : ℕ} (hplain : ∀ c ∈ cs, isControl c = false)
    (htriple : hasTriple '\'' run cs = false) (hrun : run ≤ 2) :
    Spelled '\'' readLiteralLines run cs cs := by
  induction cs generalizing run with
  | nil => exact .nil hrun
  | cons c cs ih =>
    have ⟨hc,hcs⟩ := List.forall_mem_cons.mp hplain
    rw [hasTriple] at htriple
    split_ifs at htriple with hmark
    · have ⟨hfew,hrest⟩ : run < 2 ∧ hasTriple '\'' (run+1) cs = false := by simpa using htriple
      subst hmark
      exact .mark (ih hcs hrest (by omega))
    · exact .take hrun (inside_literalLines hmark hc) (ih hcs htriple (by omega))

theorem Spelled.newline?_eq_none {run : ℕ} (h : Spelled mark read run cs text)
    (hreturn : mark ≠ '\r') (hfeed : mark ≠ '\n') (hcs : '\n' ∉ cs) (rest : List Char) :
    newline? (text ++ mark::rest) = none := by
  cases h with
  | nil => simp [newline?,hreturn,hfeed]
  | mark => simp [newline?,hreturn,hfeed]
  | take _ hinside =>
    have hc := hinside.no_feed (fun heq => hcs (heq ▸ List.mem_cons_self))
    simp [newline?,hinside.no_return,hc]

/-- What stands between triple marks is read back, less the line end that is put before text of
several lines. -/
theorem Spelled.read_lines (h : Spelled mark read 0 cs text) (hread : ReadsTriple mark read)
    (hreturn : mark ≠ '\r') (hfeed : mark ≠ '\n') (hrest : rest.head? ≠ some mark) :
    read [] (skipFirstNewline ((if cs.contains '\n' then ['\n'] else []) ++ text ++
      mark::mark::mark::rest)) = some (cs,rest) := by
  have hskip : skipFirstNewline ((if cs.contains '\n' then ['\n'] else []) ++ text ++
      mark::mark::mark::rest) = text ++ mark::mark::mark::rest := by
    split_ifs with hlines
    · rfl
    · rw [List.nil_append,skipFirstNewline,
        h.newline?_eq_none hreturn hfeed (by simpa using hlines)]
      rfl
  rw [hskip]
  exact h.read_eq hread hrest []

/-! ### All styles -/

/-- What the choice of a style ensures. -/
theorem quotationStyle_spec (cs : List Char) :
    match quotationStyle cs with
    | .basic => '\n' ∉ cs
    | .literal => '\n' ∉ cs ∧ '\'' ∉ cs ∧ ∀ c ∈ cs, isControl c = false
    | .basicLines => True
    | .literalLines => hasTriple '\'' 0 cs = false ∧ ∀ c ∈ cs, isControl c = false := by
  rw [quotationStyle]
  split_ifs <;> simp_all

theorem single_ne_triple {spell : Char → List Char}
    (hspell : ∀ c ∈ cs, ∃ d ds, spell c = d::ds ∧ d ≠ mark) (hrest : rest.head? ≠ some mark)
    (ds : List Char) : cs.flatMap spell ++ mark::rest ≠ mark::mark::ds := by
  cases cs with
  | nil =>
    exact fun heq => ne_cons_of_head? hrest ds (List.cons.inj heq).2
  | cons c cs =>
    obtain ⟨d,_,hd,hne⟩ := hspell c List.mem_cons_self
    rw [List.flatMap_cons,hd]
    exact fun heq => hne (List.cons.inj heq).1

theorem escapeBasic_start (c : Char) : ∃ d ds, escapeBasic c = d::ds ∧ d ≠ '"' := by
  rw [escapeBasic]
  split_ifs with hmark
  · exact ⟨_,_,rfl,by decide⟩
  · rcases escapeChar_cases c with hescape | ⟨hsame,_,_⟩
    · obtain ⟨_,hspelling,_⟩ := hescape.inside
      exact ⟨_,_,hspelling,by decide⟩
    · exact ⟨_,_,hsame,hmark⟩

/-- Every text is read back as it was quoted. -/
theorem readQuoted?_writeQuoted (cs : List Char) (hbasic : rest.head? ≠ some '"')
    (hliteral : rest.head? ≠ some '\'') : readQuoted? (writeQuoted cs ++ rest) = some (cs,rest) := by
  have hstyle := quotationStyle_spec cs
  rw [writeQuoted]
  cases h : quotationStyle cs with
  | basic =>
    rw [h] at hstyle
    have hfew : ∀ ds, cs.flatMap escapeBasic ++ '"'::rest ≠ '"' :: '"' :: ds :=
      single_ne_triple (fun c _ => escapeBasic_start c) hbasic
    simp only [List.cons_append,List.nil_append,List.append_assoc]
    rw [readQuoted?.eq_2 _ hfew]
    exact read_single (fun _ => rfl)
      (fun c hc => takes_escapeBasic fun heq => hstyle (heq ▸ hc)) []
  | literal =>
    rw [h] at hstyle
    obtain ⟨hlines,hmark,hplain⟩ := hstyle
    have hne : ∀ c ∈ cs, c ≠ '\'' := by rintro c hc rfl; exact hmark hc
    have hfew := single_ne_triple (fun c hc => ⟨c,[],rfl,hne c hc⟩) hliteral
    have htext : readLiteral [] (cs.flatMap (fun c => [c]) ++ '\''::rest) = some (cs,rest) :=
      read_single (fun _ => rfl) (fun c hc => takes_literal
        (isText_of_plain (hplain c hc) fun heq => hlines (heq ▸ hc)) (hne c hc)) []
    rw [List.flatMap_singleton'] at hfew htext
    simp only [List.cons_append,List.nil_append,List.append_assoc]
    rw [readQuoted?.eq_4 _ hfew]
    exact htext
  | basicLines =>
    have hspelled : Spelled '"' readBasicLines 0 cs (escapeLines 0 cs) :=
      spelled_escapeLines cs (by decide)
    have htext := hspelled.read_lines readsTriple_basicLines (by decide) (by decide) hbasic
    simpa only [readQuoted?,List.cons_append,List.nil_append,List.append_assoc] using htext
  | literalLines =>
    rw [h] at hstyle
    have htext := (spelled_literal hstyle.2 hstyle.1 (by decide)).read_lines
      readsTriple_literalLines (by decide) (by decide) hliteral
    simpa only [readQuoted?,List.cons_append,List.nil_append,List.append_assoc] using htext

example : writeQuoted "'''\"\"\"\n\x01".toList =
    "\"\"\"\n'''\"\"\\\"\n\\u0001\"\"\"".toList := by decide

end Reassembly.Toml
