import Reassembly.Proofs.WrittenValues
import Reassembly.Receiver.Describe

/-! The report of a receiver as others read it: one object of numbers, in which the counters form an
object of their own. Every figure is found under its name. -/
namespace Reassembly

structure Figures where
  nextSeq : ℕ
  pendingSegments : ℕ
  pendingBytes : ℕ
  stats : Stats
  deriving DecidableEq

def Receiver.figures (r : Receiver) : Figures :=
  ⟨r.nextSeq.toNat,r.pending.size,r.pendingBytes,r.stats⟩

namespace Figures

inductive Shown
  | number (n : ℕ)
  | counters (cs : List (String × ℕ))

def skip (cs : List Char) : List Char := cs.dropWhile fun c => c = ' ' || c = '\n'

def readNumber? (cs : List Char) : Option (ℕ × List Char) :=
  if cs.takeWhile Char.isDigit = [] then none
  else some (Nat.ofDigitChars 10 (cs.takeWhile Char.isDigit) 0,cs.dropWhile Char.isDigit)

/-- A name, with the colon behind it. No name of a report needs an escape. -/
def readName? : List Char → Option (String × List Char)
  | '"'::cs =>
    match cs.dropWhile (· ≠ '"') with
    | '"' :: ':' :: rest => some (String.ofList (cs.takeWhile (· ≠ '"')),skip rest)
    | _ => none
  | _ => none

section Object

variable {α : Type} (value? : List Char → Option (α × List Char))

/-- At most `n` fields, with commas between them and a brace behind the last. -/
def readFields? : ℕ → List Char → Option (List (String × α) × List Char)
  | 0, _ => none
  | n+1, cs => do
    let (name,cs) ← readName? (skip cs)
    let (v,cs) ← value? cs
    match skip cs with
    | ','::cs =>
      let (fields,cs) ← readFields? n cs
      return ((name,v)::fields,cs)
    | '\x7d'::cs => return ([(name,v)],cs)
    | _ => none

def readObject? : List Char → Option (List (String × α) × List Char)
  | '\x7b'::cs => readFields? value? cs.length cs
  | _ => none

end Object

def readShown? (cs : List Char) : Option (Shown × List Char) :=
  if cs.head? = some '\x7b' then (readObject? readNumber? cs).map (Prod.map .counters id)
  else (readNumber? cs).map (Prod.map .number id)

/-- The figures that a text tells, which may hold nothing else. -/
def read? (text : String) : Option Figures := do
  let (fields,rest) ← readObject? readShown? text.toList
  let .number nextSeq ← fields.lookup "next_seq" | none
  let .number pendingSegments ← fields.lookup "pending_segments" | none
  let .number pendingBytes ← fields.lookup "pending_bytes" | none
  let .counters cs ← fields.lookup "stats" | none
  let stats : Stats := {
    segments := ← cs.lookup "segments"
    duplicates := ← cs.lookup "duplicates"
    trimmed := ← cs.lookup "trimmed"
    buffered := ← cs.lookup "buffered"
    overflowDrops := ← cs.lookup "overflow_drops"
    evictions := ← cs.lookup "evictions"
    chunksDelivered := ← cs.lookup "chunks_delivered"
    bytesDelivered := ← cs.lookup "bytes_delivered"}
  if skip rest = [] then some {nextSeq, pendingSegments, pendingBytes, stats} else none

/-! ### Reading what is written -/

section

variable {α : Type} {value? : List Char → Option (α × List Char)} {c : Char}

/-- The text stands for the value wherever a comma or a line break follows. -/
def Reads (value? : List Char → Option (α × List Char)) (text : List Char) (v : α) : Prop :=
  ∀ c rest, c = ',' ∨ c = '\n' → value? (skip (' ' :: text ++ c::rest)) = some (v,c::rest)

def IsPlain (name : String) : Prop := name.toList.all (· ≠ '"') = true

instance (name : String) : Decidable (IsPlain name) := inferInstanceAs (Decidable (_ = true))

/-- A field of an object: its name, what is written for it, and what that stands for. -/
structure Entry (value? : List Char → Option (α × List Char)) where
  name : String
  text : List Char
  value : α
  plain : IsPlain name
  reads : Reads value? text value

def Entry.line (margin : ℕ) (e : Entry value?) : List Char :=
  '\n' :: List.replicate margin ' ' ++ '"' :: (e.name.toList ++ '"' :: ':' :: ' ' :: e.text)

def tailText (margin outer : ℕ) (es : List (Entry value?)) : List Char :=
  es.flatMap (fun e => ',' :: e.line margin) ++ '\n' :: List.replicate outer ' ' ++ ['\x7d']

def objectText (margin outer : ℕ) (e : Entry value?) (es : List (Entry value?)) : List Char :=
  '\x7b' :: e.line margin ++ tailText margin outer es

theorem tailText_cons (margin outer : ℕ) (e : Entry value?) (es : List (Entry value?)) :
    tailText margin outer (e::es) = ',' :: (e.line margin ++ tailText margin outer es) := by
  simp [tailText]

theorem skip_gap (margin : ℕ) (hc : (c = ' ' || c = '\n' : Bool) = false) (rest : List Char) :
    skip ('\n' :: List.replicate margin ' ' ++ c::rest) = c::rest := by
  have hgap : ∀ x ∈ '\n' :: List.replicate margin ' ', (x = ' ' || x = '\n' : Bool) = true := by
    simp +contextual [List.mem_replicate]
  exact Toml.dropWhile_of_kind hgap hc rest

theorem readName?_line (e : Entry value?) (margin : ℕ) (rest : List Char) :
    readName? (skip (e.line margin ++ rest)) = some (e.name,skip (' ' :: e.text ++ rest)) := by
  have hline : e.line margin ++ rest = '\n' :: List.replicate margin ' ' ++
      '"' :: (e.name.toList ++ '"' :: ':' :: ' ' :: (e.text ++ rest)) := by
    simp [Entry.line]
  have hplain : ∀ c ∈ e.name.toList, (c ≠ '"' : Bool) = true := List.all_eq_true.mp e.plain
  have hmark : ('"' ≠ '"' : Bool) = false := by decide
  rw [hline,skip_gap margin (by decide),readName?]
  simp only [Toml.dropWhile_of_kind hplain hmark,Toml.takeWhile_of_kind hplain hmark,
    String.ofList_toList]
  rfl

theorem readFields?_entries (margin outer : ℕ) (rest : List Char) {n : ℕ} (e : Entry value?)
    (es : List (Entry value?)) (hn : es.length < n) :
    readFields? value? n (e.line margin ++ (tailText margin outer es ++ rest)) =
      some ((e::es).map fun e => (e.name,e.value),rest) := by
  induction es generalizing e n with
  | nil =>
    obtain ⟨n,rfl⟩ := Nat.exists_eq_succ_of_ne_zero (by omega : n ≠ 0)
    have htail : tailText margin outer ([] : List (Entry value?)) ++ rest =
        '\n' :: (List.replicate outer ' ' ++ '\x7d'::rest) := by
      simp [tailText]
    have hend : skip ('\n' :: (List.replicate outer ' ' ++ '\x7d'::rest)) = '\x7d'::rest :=
      skip_gap outer (by decide) rest
    rw [readFields?,readName?_line,htail]
    simp only [Option.bind_eq_bind,Option.bind_some,e.reads '\n' _ (.inr rfl),hend]
    rfl
  | cons e' es ih =>
    obtain ⟨n,rfl⟩ := Nat.exists_eq_succ_of_ne_zero (by omega : n ≠ 0)
    have htail : tailText margin outer (e'::es) ++ rest =
        ',' :: (e'.line margin ++ (tailText margin outer es ++ rest)) := by
      rw [tailText_cons,List.cons_append,List.append_assoc]
    have hnext : skip (',' :: (e'.line margin ++ (tailText margin outer es ++ rest))) =
        ',' :: (e'.line margin ++ (tailText margin outer es ++ rest)) := rfl
    rw [readFields?,readName?_line,htail]
    simp only [Option.bind_eq_bind,Option.bind_some,e.reads ',' _ (.inl rfl),hnext,
      ih e' (by simpa using hn)]
    rfl

theorem length_le_tailText (margin outer : ℕ) (es : List (Entry value?)) :
    es.length ≤ (tailText margin outer es).length := by
  induction es with
  | nil => exact Nat.zero_le _
  | cons e es ih =>
    rw [tailText_cons,List.length_cons,List.length_cons,List.length_append]
    omega

theorem readObject?_objectText (margin outer : ℕ) (e : Entry value?) (es : List (Entry value?))
    (rest : List Char) :
    readObject? value? (objectText margin outer e es ++ rest) =
      some ((e::es).map fun e => (e.name,e.value),rest) := by
  have htext : objectText margin outer e es ++ rest =
      '\x7b' :: (e.line margin ++ (tailText margin outer es ++ rest)) := by
    simp [objectText]
  have hlength : es.length < (e.line margin ++ (tailText margin outer es ++ rest)).length := by
    have htail := length_le_tailText margin outer es
    simp only [Entry.line,List.length_append,List.length_cons]
    omega
  rw [htext,readObject?,readFields?_entries margin outer rest e es hlength]

end

/-! ### The report -/

theorem readNumber?_toDigits (n : ℕ) {c : Char} (hc : c.isDigit = false) (rest : List Char) :
    readNumber? (Nat.toDigits 10 n ++ c::rest) = some (n,c::rest) := by
  have hdigits := Toml.isDigit_toDigits n
  rw [readNumber?,Toml.takeWhile_of_kind hdigits hc,Toml.dropWhile_of_kind hdigits hc,
    if_neg Nat.toDigits_ne_nil,Nat.ofDigitChars_toDigits (by decide) (by decide)]

theorem skip_toDigits (n : ℕ) (rest : List Char) :
    skip (' ' :: Nat.toDigits 10 n ++ rest) = Nat.toDigits 10 n ++ rest := by
  have hdigits := Toml.isDigit_toDigits n
  cases hn : Nat.toDigits 10 n with
  | nil => exact absurd hn Nat.toDigits_ne_nil
  | cons c cs =>
    have hc : c.isDigit = true := hdigits c (by simp [hn])
    have hne : ∀ d : Char, d.isDigit = false → c ≠ d := fun _ => Toml.ne_of_kind hc
    simp [skip,hne ' ' (by decide),hne '\n' (by decide)]

theorem reads_number (n : ℕ) : Reads readNumber? (Nat.toDigits 10 n) n := by
  intro c rest hc
  rw [skip_toDigits,readNumber?_toDigits n (by rcases hc with rfl | rfl <;> decide)]

theorem reads_shown_number (n : ℕ) : Reads readShown? (Nat.toDigits 10 n) (.number n) := by
  intro c rest hc
  have hread := reads_number n c rest hc
  rw [skip_toDigits] at hread ⊢
  have hfirst : (Nat.toDigits 10 n ++ c::rest).head? ≠ some '\x7b' := by
    rw [List.head?_append_of_ne_nil _ Nat.toDigits_ne_nil]
    intro h
    have hdigit := Toml.isDigit_toDigits n _ (List.mem_of_mem_head? h)
    exact absurd hdigit (by decide)
  rw [readShown?,if_neg hfirst,hread]
  rfl

theorem reads_counters (margin outer : ℕ) (e : Entry readNumber?)
    (es : List (Entry readNumber?)) :
    Reads readShown? (objectText margin outer e es)
      (.counters ((e::es).map fun e => (e.name,e.value))) := by
  intro c rest _
  have hskip : skip (' ' :: objectText margin outer e es ++ c::rest) =
      objectText margin outer e es ++ c::rest := rfl
  have hfirst : (objectText margin outer e es ++ c::rest).head? = some '\x7b' := rfl
  rw [hskip,readShown?,if_pos hfirst,readObject?_objectText]
  rfl

def counter (name : String) (n : ℕ) (plain : IsPlain name) : Entry readNumber? :=
  ⟨name,_,n,plain,reads_number n⟩

def number (name : String) (n : ℕ) (plain : IsPlain name) : Entry readShown? :=
  ⟨name,_,.number n,plain,reads_shown_number n⟩

def counters (s : Stats) : List (Entry readNumber?) :=
  [counter "bytes_delivered" s.bytesDelivered (by decide),
    counter "chunks_delivered" s.chunksDelivered (by decide),
    counter "duplicates" s.duplicates (by decide),counter "evictions" s.evictions (by decide),
    counter "overflow_drops" s.overflowDrops (by decide),
    counter "segments" s.segments (by decide),counter "trimmed" s.trimmed (by decide)]

def entries (r : Receiver) : List (Entry readShown?) :=
  [number "pending_bytes" r.pendingBytes (by decide),
    number "pending_segments" r.pending.size (by decide),
    ⟨"stats",_,_,by decide,reads_counters 4 2 (counter "buffered" r.stats.buffered (by decide))
      (counters r.stats)⟩]

theorem sorted_fields (s : Stats) : (s.fields.mergeSort fun a b => a.1 ≤ b.1) =
    [("buffered",s.buffered),("bytes_delivered",s.bytesDelivered),
      ("chunks_delivered",s.chunksDelivered),("duplicates",s.duplicates),("evictions",s.evictions),
      ("overflow_drops",s.overflowDrops),("segments",s.segments),("trimmed",s.trimmed)] := by
  simp [Stats.fields,List.mergeSort]

theorem toList_counterLine (margin name : String) (n : ℕ) : (counterLine margin (name,n)).toList =
    margin.toList ++ '"' :: (name.toList ++ '"' :: ':' :: ' ' :: Nat.toDigits 10 n) := by
  simp [counterLine]

theorem toList_report (r : Receiver) : r.report.toList =
    objectText 2 0 (number "next_seq" r.nextSeq.toNat (by decide)) (entries r) ++ ['\n'] := by
  have hopen : "\x7b\n".toList = ['\x7b','\n'] := rfl
  have hcomma : ",\n".toList = [',','\n'] := rfl
  have hstats : "  \"stats\": \x7b\n".toList =
      List.replicate 2 ' ' ++ '"' :: ("stats".toList ++ ['"',':',' ','\x7b','\n']) := rfl
  have hclose : "\n  \x7d\n\x7d\n".toList =
      '\n' :: (List.replicate 2 ' ' ++ ['\x7d','\n','\x7d','\n']) := rfl
  have houter : "  ".toList = List.replicate 2 ' ' := rfl
  have hinner : "    ".toList = List.replicate 4 ' ' := rfl
  have hnone : List.replicate 0 ' ' = [] := rfl
  simp only [Receiver.report,sorted_fields,List.map_cons,List.map_nil,String.toList_append,
    String.toList_join,String.toList_intercalate,List.flatMap_cons,List.flatMap_nil,
    toList_counterLine,hopen,hcomma,hstats,hclose,houter,hinner,objectText,tailText,entries,counters,
    number,counter,Entry.line,List.append_assoc,List.cons_append,List.nil_append,List.append_nil,
    List.intercalate_cons_cons,List.intercalate_singleton,hnone]

theorem read?_report (r : Receiver) : read? r.report = some r.figures := by
  rw [read?,toList_report,readObject?_objectText]
  rfl

end Figures
end Reassembly
