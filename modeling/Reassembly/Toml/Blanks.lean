/-! The parts of a TOML document that mean nothing: blanks, line ends and comments. -/
namespace Reassembly.Toml

def isBlank (c : Char) : Bool := c = ' ' || c = '\t'

/-- Characters that may stand in comments and, quotation marks apart, in quoted text. -/
def isText (c : Char) : Bool := c = '\t' || (0x20 ≤ c.toNat && c.toNat ≠ 0x7f)

def dropBlanks (cs : List Char) : List Char := cs.dropWhile isBlank

/-- A line ends with a line feed, which a carriage return may precede. -/
def newline? : List Char → Option (List Char)
  | '\n' :: rest => some rest
  | '\r' :: '\n' :: rest => some rest
  | _ => none

def skipGaps (inComment : Bool) : List Char → List Char
  | [] => []
  | '\n' :: rest => skipGaps false rest
  | '\r' :: '\n' :: rest => skipGaps false rest
  | c::rest =>
    if inComment then (if isText c then skipGaps true rest else c::rest)
    else if isBlank c then skipGaps false rest
    else if c = '#' then skipGaps true rest
    else c::rest

def skipLines : List Char → List Char
  | [] => []
  | '\r' :: '\n' :: rest => skipLines rest
  | c::rest => if isBlank c || c = '\n' then skipLines rest else c::rest

/-- The rest of a line on which nothing more stands but a comment; the last line needs no end. -/
def endLine? (cs : List Char) : Option (List Char) :=
  let rest := dropBlanks cs
  let rest := if rest.head? = some '#' then rest.tail.dropWhile isText else rest
  if rest.isEmpty then some [] else newline? rest

theorem length_dropBlanks_le (cs : List Char) : (dropBlanks cs).length ≤ cs.length :=
  (List.dropWhile_sublist isBlank).length_le

theorem length_skipLines_le (cs : List Char) : (skipLines cs).length ≤ cs.length := by
  fun_induction skipLines cs <;> simp_all <;> omega

theorem length_newline? {cs rest : List Char} (h : newline? cs = some rest) :
    rest.length < cs.length := by
  unfold newline? at h
  split at h
  · cases h
    exact Nat.lt_succ_self _
  · cases h
    simp only [List.length_cons]
    omega
  · cases h

end Reassembly.Toml
