import Reassembly.Proofs.WrittenValues
import Reassembly.Settings

/-! Documents that consist of sections: a header on a line of its own, and a line for each field. They
are read as one table for each section, with the fields in their order. -/
namespace Reassembly.Toml

/-- A name that needs no quotation marks. -/
def IsBareKey (name : String) : Prop :=
  name.toList ≠ [] ∧ name.toList.all isBareKeyChar = true

instance (name : String) : Decidable (IsBareKey name) := inferInstanceAs (Decidable (_ ∧ _))

/-- A field of a section: what is written for it, and what that stands for. -/
structure Field where
  key : String
  text : List Char
  value : Value
  bare : IsBareKey key
  written : Written text value

structure Section where
  name : String
  fields : List Field
  bare : IsBareKey name
  distinct : (fields.map Field.key).Nodup

namespace Field

def line (f : Field) : List Char := Settings.line f.key f.text

def statement (f : Field) : Statement := .assign [f.key] f.value

def entry (f : Field) : String × Value := (f.key,f.value)

end Field

namespace Section

def header (s : Section) : List Char := '['::s.name.toList ++ [']','\n']

def text (s : Section) : List Char := s.header ++ s.fields.flatMap Field.line

def statements (s : Section) : List Statement := .header [s.name]::s.fields.map Field.statement

def entry (s : Section) : String × Value := (s.name,.table .header (s.fields.map Field.entry))

end Section

/-- The sections with a blank line between them. -/
def document : List Section → List Char
  | [] => []
  | s::ss => s.text ++ ss.flatMap fun s => '\n'::s.text

/-! ### Reading the lines -/

section Lines

variable {name : String} {gap text line rest : List Char} {value : Value} {st : Statement} {x : Char}

theorem IsBareKey.bare (h : IsBareKey name) : ∀ c ∈ name.toList, isBareKeyChar c = true :=
  List.all_eq_true.mp h.2

theorem IsBareKey.exists_cons (h : IsBareKey name) :
    ∃ c cs, name.toList = c::cs ∧ isBareKeyChar c = true := by
  cases hname : name.toList with
  | nil => exact absurd hname h.1
  | cons c cs => exact ⟨c,cs,rfl,h.bare c (by simp [hname])⟩

theorem IsBareKey.readKeyPart? (h : IsBareKey name) (hx : isBareKeyChar x = false)
    (rest : List Char) : readKeyPart? (name.toList ++ x::rest) = some (name,x::rest) := by
  obtain ⟨c,cs,hname,hc⟩ := h.exists_cons
  have hne : ∀ d : Char, isBareKeyChar d = false → c ≠ d := fun _ => ne_of_kind hc
  have hmark : ¬((name.toList ++ x::rest).head? = some '"' ∨
      (name.toList ++ x::rest).head? = some '\'') := by
    simp [hname,hne '"' (by decide),hne '\'' (by decide)]
  rw [Toml.readKeyPart?,if_neg (by simpa using hmark)]
  simp only [takeWhile_of_kind h.bare hx,dropWhile_of_kind h.bare hx,String.ofList_toList]
  rw [if_neg (by simpa using h.1)]

theorem IsBareKey.readKey? (h : IsBareKey name) (hx : isBareKeyChar x = false)
    (hdot : ∀ ds, dropBlanks (x::rest) ≠ '.'::ds) (parts : ℕ) :
    readKey? (parts+1) (name.toList ++ x::rest) = some ([name],dropBlanks (x::rest)) := by
  obtain ⟨c,cs,hname,hc⟩ := h.exists_cons
  have hne : ∀ d : Char, isBareKeyChar d = false → c ≠ d := fun _ => ne_of_kind hc
  have hblanks : dropBlanks (name.toList ++ x::rest) = name.toList ++ x::rest := by
    rw [dropBlanks,hname,List.cons_append,List.dropWhile_cons_of_neg]
    simp [isBlank,hne ' ' (by decide),hne '\t' (by decide)]
  rw [readKey?.eq_2,hblanks,h.readKeyPart? hx]
  dsimp only
  split
  · rename_i heq
    exact absurd heq (hdot _)
  · rfl

theorem readStatement?_header (h : IsBareKey name) (rest : List Char) :
    readStatement? ('['::name.toList ++ ']'::rest) = some (.header [name],rest) := by
  obtain ⟨c,cs,hname,hc⟩ := h.exists_cons
  have hbracket : c ≠ '[' := ne_of_kind hc (by decide)
  rw [List.cons_append,readStatement?.eq_2,nestingLimit,
    h.readKey? (by decide) (by simp [dropBlanks,isBlank])]
  · rfl
  · simp [hname,hbracket]

theorem readStatement?_line (h : IsBareKey name) (hvalue : Written text value)
    (rest : List Char) :
    readStatement? (Settings.line name text ++ rest) = some (.assign [name] value,'\n'::rest) := by
  obtain ⟨c,cs,hname,hc⟩ := h.exists_cons
  have hbracket : c ≠ '[' := ne_of_kind hc (by decide)
  have hline : Settings.line name text ++ rest =
      name.toList ++ ' ' :: '=' :: ' ' :: (text ++ '\n'::rest) := by
    simp [Settings.line]
  have hkey : dropBlanks (' ' :: '=' :: ' ' :: (text ++ '\n'::rest)) =
      '=' :: ' ' :: (text ++ '\n'::rest) := rfl
  have hblank : dropBlanks (' ' :: (text ++ '\n'::rest)) = dropBlanks (text ++ '\n'::rest) := rfl
  rw [hline,readStatement?.eq_3,nestingLimit,h.readKey? (by decide) (by simp [hkey]),hkey]
  · simp only [hblank]
    rw [← nestingLimit,hvalue rest]
    rfl
  · simp [hname,hbracket]
  · simp [hname,hbracket]

theorem readStatements?_cons (hgap : skipGaps false (gap ++ (line ++ rest)) = line ++ rest)
    (hline : line ≠ []) (hstatement : readStatement? (line ++ rest) = some (st,'\n'::rest)) :
    readStatements? (gap ++ (line ++ rest)) = (readStatements? rest).map (st::·) := by
  have hsome : (line ++ rest).isEmpty = false := by simp [hline]
  have hlength : rest.length < (gap ++ (line ++ rest)).length := by
    have hpos := List.length_pos_of_ne_nil hline
    rw [List.length_append,List.length_append]
    omega
  have hend : endLine? ('\n'::rest) = some rest := rfl
  rw [readStatements?,hgap,hsome,hstatement]
  simp only [Bool.false_eq_true,if_false,hend,if_pos hlength]

theorem readStatements?_field (f : Field) (rest : List Char) :
    readStatements? (f.line ++ rest) = (readStatements? rest).map (f.statement::·) := by
  obtain ⟨c,cs,hname,hc⟩ := f.bare.exists_cons
  have hne : ∀ d : Char, isBareKeyChar d = false → c ≠ d := fun _ => ne_of_kind hc
  have hstart : skipGaps false (f.line ++ rest) = f.line ++ rest := by
    rw [Field.line,Settings.line,hname,List.cons_append,List.cons_append,List.cons_append,
      List.cons_append,skipGaps.eq_4]
    · simp [isBlank,hne ' ' (by decide),hne '\t' (by decide),hne '#' (by decide)]
    · exact hne _ (by decide)
    · exact fun _ hr => absurd hr (hne _ (by decide))
  have hline : f.line ≠ [] := by simp [Field.line,Settings.line]
  have hread : readStatements? ([] ++ (f.line ++ rest)) = _ :=
    readStatements?_cons hstart hline (readStatement?_line f.bare f.written rest)
  exact hread

theorem readStatements?_fields (fields : List Field) (rest : List Char) :
    readStatements? (fields.flatMap Field.line ++ rest) =
      (readStatements? rest).map (fields.map Field.statement ++ ·) := by
  induction fields with
  | nil => simp
  | cons f fs ih =>
    rw [List.flatMap_cons,List.append_assoc,readStatements?_field,ih,Option.map_map]
    rfl

theorem readStatements?_section (s : Section) (hgap : gap = [] ∨ gap = ['\n'])
    (rest : List Char) :
    readStatements? (gap ++ (s.text ++ rest)) = (readStatements? rest).map (s.statements ++ ·) := by
  have hstart : ∀ rest, skipGaps false (gap ++ (s.header ++ rest)) = s.header ++ rest := by
    intro rest
    rcases hgap with rfl | rfl <;> simp [Section.header,skipGaps,isBlank]
  have hheader : ∀ rest, readStatement? (s.header ++ rest) = some (.header [s.name],'\n'::rest) := by
    intro rest
    have htext : s.header ++ rest = '['::s.name.toList ++ ']' :: '\n' :: rest := by
      simp [Section.header]
    rw [htext,readStatement?_header s.bare]
  rw [Section.text,List.append_assoc,readStatements?_cons (hstart _) (by simp [Section.header])
    (hheader _),readStatements?_fields,Option.map_map]
  rfl

theorem readStatements?_nil : readStatements? [] = some [] := by
  rw [readStatements?]
  rfl

theorem readStatements?_sections (ss : List Section) :
    readStatements? (ss.flatMap fun s => '\n'::s.text) = some (ss.flatMap Section.statements) := by
  induction ss with
  | nil => exact readStatements?_nil
  | cons s ss ih =>
    have hread := readStatements?_section s (.inr rfl) (ss.flatMap fun s => '\n'::s.text)
    rw [ih] at hread
    exact hread

theorem readStatements?_document (ss : List Section) :
    readStatements? (document ss) = some (ss.flatMap Section.statements) := by
  cases ss with
  | nil => exact readStatements?_nil
  | cons s ss =>
    have hread := readStatements?_section s (.inl rfl) (ss.flatMap fun s => '\n'::s.text)
    rw [readStatements?_sections] at hread
    exact hread

end Lines

/-! ### Building the tables -/

namespace Entries

variable {es sub : Entries} {key name : String} {v w : Value} {current : Path}

theorem get?_append (es fs : Entries) (key : String) :
    get? key (es ++ fs) = (get? key es).or (get? key fs) := by
  induction es with
  | nil => rfl
  | cons e es ih =>
    rw [List.cons_append,get?,get?]
    split_ifs
    · rfl
    · exact ih

theorem get?_append_self (h : es.get? key = none) : get? key (es ++ [(key,v)]) = some v := by
  simp [get?_append,h,get?]

theorem get?_append_of_ne (h : es.get? key = none) (hne : name ≠ key) :
    get? key (es ++ [(name,v)]) = none := by
  simp [get?_append,h,get?,hne]

theorem replace_append_self (h : es.get? key = none) :
    replace key w (es ++ [(key,v)]) = es ++ [(key,w)] := by
  induction es with
  | nil => simp [replace]
  | cons e es ih =>
    rw [get?] at h
    split_ifs at h with he
    rw [List.cons_append,replace,if_neg he,ih h]
    rfl

theorem carryOut_statement {f : Field} (hname : es.get? name = none) (hkey : sub.get? f.key = none)
    (rest : List Statement) :
    carryOut [name] (f.statement::rest) (es ++ [(name,.table .header sub)]) =
      carryOut [name] rest (es ++ [(name,.table .header (sub ++ [f.entry]))]) := by
  simp only [Field.statement,carryOut,within,get?_append_self hname,assign,hkey]
  simp only [Option.isSome_none,Bool.false_eq_true,if_false,Option.map_some,Option.bind_some,
    replace_append_self hname]
  rfl

theorem carryOut_fields {fields : List Field} (hname : es.get? name = none)
    (hfresh : ∀ f ∈ fields, sub.get? f.key = none) (hdistinct : (fields.map Field.key).Nodup)
    (rest : List Statement) :
    carryOut [name] (fields.map Field.statement ++ rest) (es ++ [(name,.table .header sub)]) =
      carryOut [name] rest (es ++ [(name,.table .header (sub ++ fields.map Field.entry))]) := by
  induction fields generalizing sub with
  | nil => simp
  | cons f fs ih =>
    have ⟨hf,hfs⟩ := List.forall_mem_cons.mp hfresh
    have ⟨hnew,hrest⟩ := List.nodup_cons.mp hdistinct
    have hlater : ∀ g ∈ fs, (sub ++ [f.entry]).get? g.key = none := fun g hg =>
      get?_append_of_ne (hfs g hg) fun heq => hnew (heq ▸ List.mem_map_of_mem hg)
    rw [List.map_cons,List.cons_append,carryOut_statement hname hf,ih hlater hrest,List.map_cons,
      List.append_assoc]
    rfl

theorem carryOut_section (s : Section) (hname : es.get? s.name = none) (rest : List Statement) :
    carryOut current (s.statements ++ rest) es = carryOut [s.name] rest (es ++ [s.entry]) := by
  have hopen : carryOut current (s.statements ++ rest) es =
      carryOut [s.name] (s.fields.map Field.statement ++ rest) (es ++ [(s.name,.table .header [])]) := by
    simp [Section.statements,carryOut,within,openTable,hname]
  rw [hopen,carryOut_fields hname (fun _ _ => rfl) s.distinct]
  rfl

theorem carryOut_sections {ss : List Section} (hfresh : ∀ s ∈ ss, es.get? s.name = none)
    (hdistinct : (ss.map Section.name).Nodup) :
    carryOut current (ss.flatMap Section.statements) es = some (es ++ ss.map Section.entry) := by
  induction ss generalizing es current with
  | nil => simp [carryOut]
  | cons s ss ih =>
    have ⟨hs,hss⟩ := List.forall_mem_cons.mp hfresh
    have ⟨hnew,hrest⟩ := List.nodup_cons.mp hdistinct
    have hlater : ∀ t ∈ ss, (es ++ [s.entry]).get? t.name = none := fun t ht =>
      get?_append_of_ne (hss t ht) fun heq => hnew (heq ▸ List.mem_map_of_mem ht)
    rw [List.flatMap_cons,carryOut_section s hs,ih hlater hrest,List.map_cons,List.append_assoc]
    rfl

end Entries

/-- A document is read as a table for each of its sections. -/
theorem read?_document {ss : List Section} (hdistinct : (ss.map Section.name).Nodup) :
    read? (String.ofList (document ss)) = some (ss.map Section.entry) := by
  have hmark : ∀ cs, document ss ≠ '\ufeff'::cs := by
    cases ss with
    | nil => simp [document]
    | cons s ss => simp [document,Section.text,Section.header]
  rw [read?,String.toList_ofList]
  split
  · rename_i heq
    exact absurd heq (hmark _)
  · rw [readStatements?_document,Option.bind_some,
      Entries.carryOut_sections (fun _ _ => rfl) hdistinct,List.nil_append]

end Reassembly.Toml
