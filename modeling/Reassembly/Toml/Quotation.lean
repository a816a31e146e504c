import Reassembly.Toml.Blanks

/-! Quoted text in its four styles: between single or triple marks, and with `"`, where escapes
are read, or with `'`, where every character stands for itself. Each reader starts behind the
opening mark and collects what it has read in reverse. -/
namespace Reassembly.Toml

def hexValue? (c : Char) : Option Nat :=
  let n := c.toNat
  if 48 ≤ n && n ≤ 57 then some (n-48)
  else if 97 ≤ n && n ≤ 102 then some (n-87)
  else if 65 ≤ n && n ≤ 70 then some (n-55)
  else none

def charOfHex? (digits : List Char) : Option Char := do
  let n ← digits.foldlM (fun n c => (hexValue? c).map (n*16+·)) 0
  if h : n.isValidChar then some (Char.ofNatAux n h) else none

def unescape? : Char → Option Char
  | 'b' => some '\x08'
  | 't' => some '\t'
  | 'n' => some '\n'
  | 'f' => some '\x0c'
  | 'r' => some '\r'
  | '"' => some '"'
  | '\\' => some '\\'
  | _ => none

abbrev Read := Option (List Char × List Char)

def readBasic (read : List Char) : List Char → Read
  | '"' :: rest => some (read.reverse,rest)
  | '\\' :: 'u' :: a::b::c::d::rest =>
    match charOfHex? [a,b,c,d] with
    | some x => readBasic (x::read) rest
    | none => none
  | '\\' :: 'U' :: a::b::c::d::e::f::g::h::rest =>
    match charOfHex? [a,b,c,d,e,f,g,h] with
    | some x => readBasic (x::read) rest
    | none => none
  | '\\' :: c::rest =>
    match unescape? c with
    | some x => readBasic (x::read) rest
    | none => none
  | c::rest => if isText c && c ≠ '\\' then readBasic (c::read) rest else none
  | [] => none

def readLiteral (read : List Char) : List Char → Read
  | '\'' :: rest => some (read.reverse,rest)
  | c::rest => if isText c then readLiteral (c::read) rest else none
  | [] => none

/-- What follows a backslash at the end of a line, less all white space up to the next character. -/
def joinLine? (cs : List Char) : Option (List Char) := (newline? (dropBlanks cs)).map skipLines

theorem length_joinLine? {cs rest : List Char} (h : joinLine? cs = some rest) :
    rest.length < cs.length := by
  obtain ⟨mid,hm,rfl⟩ := Option.map_eq_some_iff.1 h
  exact Nat.lt_of_le_of_lt (length_skipLines_le mid)
    (Nat.lt_of_lt_of_le (length_newline? hm) (length_dropBlanks_le cs))

/-- Up to two marks may stand directly before the closing three. -/
def readBasicLines (read : List Char) (cs : List Char) : Read :=
  match cs with
  | '"' :: '"' :: '"' :: '"' :: '"' :: rest => some (read.reverse++['"','"'],rest)
  | '"' :: '"' :: '"' :: '"' :: rest => some (read.reverse++['"'],rest)
  | '"' :: '"' :: '"' :: rest => some (read.reverse,rest)
  | '\r' :: '\n' :: rest => readBasicLines ('\n' :: read) rest
  | '\\' :: 'u' :: a::b::c::d::rest =>
    match charOfHex? [a,b,c,d] with
    | some x => readBasicLines (x::read) rest
    | none => none
  | '\\' :: 'U' :: a::b::c::d::e::f::g::h::rest =>
    match charOfHex? [a,b,c,d,e,f,g,h] with
    | some x => readBasicLines (x::read) rest
    | none => none
  | '\\' :: c::rest =>
    match _h : joinLine? (c::rest) with
    | some rest => readBasicLines read rest
    | none =>
      match unescape? c with
      | some x => readBasicLines (x::read) rest
      | none => none
  | c::rest => if (isText c && c ≠ '\\') || c = '\n' then readBasicLines (c::read) rest else none
  | [] => none
termination_by cs.length
decreasing_by
  all_goals simp only [List.length_cons]
  all_goals first
    | omega
    | exact Nat.lt_succ_of_lt (length_joinLine? _h)

def readLiteralLines (read : List Char) : List Char → Read
  | '\'' :: '\'' :: '\'' :: '\'' :: '\'' :: rest => some (read.reverse++['\'','\''],rest)
  | '\'' :: '\'' :: '\'' :: '\'' :: rest => some (read.reverse++['\''],rest)
  | '\'' :: '\'' :: '\'' :: rest => some (read.reverse,rest)
  | '\r' :: '\n' :: rest => readLiteralLines ('\n' :: read) rest
  | c::rest => if isText c || c = '\n' then readLiteralLines (c::read) rest else none
  | [] => none

/-- A line end directly behind three opening marks is not part of the text. -/
def skipFirstNewline (cs : List Char) : List Char := (newline? cs).getD cs

def readQuoted? : List Char → Read
  | '"' :: '"' :: '"' :: rest => readBasicLines [] (skipFirstNewline rest)
  | '"' :: rest => readBasic [] rest
  | '\'' :: '\'' :: '\'' :: rest => readLiteralLines [] (skipFirstNewline rest)
  | '\'' :: rest => readLiteral [] rest
  | _ => none

/-- Quoted text between single marks, as keys have it. -/
def readQuotedKey? : List Char → Read
  | '"' :: rest => readBasic [] rest
  | '\'' :: rest => readLiteral [] rest
  | _ => none

inductive QuotationStyle
  | basic
  | literal
  | basicLines
  | literalLines
  deriving DecidableEq, Repr

/-- Controls that cannot stand for themselves, tabs and line feeds aside. -/
def isControl (c : Char) : Bool :=
  (c.toNat < 0x20 && c ≠ '\t' && c ≠ '\n') || c.toNat = 0x7f

/-- Whether `mark` stands at least three times in a row, `run` times already. -/
def hasTriple (mark : Char) (run : Nat) : List Char → Bool
  | [] => false
  | c::cs => if c = mark then 2 ≤ run || hasTriple mark (run+1) cs else hasTriple mark 0 cs

/-- The plainest style that can hold the text without escapes, and else one with escapes. -/
def quotationStyle (cs : List Char) : QuotationStyle :=
  let lines := cs.contains '\n'
  let control := cs.any isControl
  if !control && !cs.contains '\\' && !cs.contains '"' && !lines then .basic
  else if !control && !cs.contains '\'' && !lines then .literal
  else if !control && !cs.contains '\\' && !hasTriple '"' 0 cs then .basicLines
  else if !control && !hasTriple '\'' 0 cs then .literalLines
  else if lines then .basicLines else .basic

def escapeChar (c : Char) : List Char :=
  if c = '\x08' then ['\\','b']
  else if c = '\t' then ['\\','t']
  else if c = '\x0c' then ['\\','f']
  else if c = '\r' then ['\\','r']
  else if c = '\\' then ['\\','\\']
  else if isControl c then
    ['\\','u','0','0',(Nat.digitChar (c.toNat/16)).toUpper,(Nat.digitChar (c.toNat%16)).toUpper]
  else [c]

def escapeBasic (c : Char) : List Char := if c = '"' then ['\\','"'] else escapeChar c

/-- Every third mark of a run is escaped, where `run` marks stand just before. -/
def escapeLines (run : Nat) : List Char → List Char
  | [] => []
  | c::cs =>
    if c = '"' then
      if run = 2 then '\\' :: '"' :: escapeLines 0 cs else '"' :: escapeLines (run+1) cs
    else escapeChar c ++ escapeLines 0 cs

/-- The text in quotation marks. Triple marks are followed by a line end if the text has one. -/
def writeQuoted (cs : List Char) : List Char :=
  let first := if cs.contains '\n' then ['\n'] else []
  match quotationStyle cs with
  | .basic => ['"'] ++ cs.flatMap escapeBasic ++ ['"']
  | .literal => ['\''] ++ cs ++ ['\'']
  | .basicLines => ['"','"','"'] ++ first ++ escapeLines 0 cs ++ ['"','"','"']
  | .literalLines => ['\'','\'','\''] ++ first ++ cs ++ ['\'','\'','\'']

end Reassembly.Toml
