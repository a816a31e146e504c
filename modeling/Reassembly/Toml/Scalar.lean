import Reassembly.Toml.Quotation
import Reassembly.Toml.Value

/-! Values that are a single word: numbers, truth values and points in time. -/
namespace Reassembly.Toml

def isBaseDigit (base : Nat) (c : Char) : Bool := (hexValue? c).any (· < base)

/-- The digits of a number, single underscores between them left out. -/
def digits? (base : Nat) : List Char → Option (List Char)
  | [] => none
  | [c] => if isBaseDigit base c then some [c] else none
  | c :: '_' :: rest => if isBaseDigit base c then (digits? base rest).map (c::·) else none
  | c::rest => if isBaseDigit base c then (digits? base rest).map (c::·) else none

def digitsValue (base : Nat) (cs : List Char) : Nat :=
  cs.foldl (fun n c => n*base+(hexValue? c).getD 0) 0

def maxInteger : Nat := 0x7fffffffffffffff

def decimal? (cs : List Char) : Option (List Char) :=
  match digits? 10 cs with
  | some ('0' :: _::_) => none
  | ds => ds

def bounded? (bound n : Nat) : Option Nat := if n ≤ bound then some n else none

/-- Signs go with decimal digits only, and only the negative range has one more number. -/
def integer? : List Char → Option Int
  | '0' :: 'x' :: cs => ((digits? 16 cs).bind fun ds => bounded? maxInteger (digitsValue 16 ds)).map Int.ofNat
  | '0' :: 'o' :: cs => ((digits? 8 cs).bind fun ds => bounded? maxInteger (digitsValue 8 ds)).map Int.ofNat
  | '0' :: 'b' :: cs => ((digits? 2 cs).bind fun ds => bounded? maxInteger (digitsValue 2 ds)).map Int.ofNat
  | '-' :: cs =>
    ((decimal? cs).bind fun ds => bounded? (maxInteger+1) (digitsValue 10 ds)).map fun n => -Int.ofNat n
  | '+' :: cs => ((decimal? cs).bind fun ds => bounded? maxInteger (digitsValue 10 ds)).map Int.ofNat
  | cs => ((decimal? cs).bind fun ds => bounded? maxInteger (digitsValue 10 ds)).map Int.ofNat

/-- Whether `m*10^e` is nearer to 2¹⁰²⁴ than to any smaller number with 53 binary digits. -/
def isHuge (m : Nat) (e : Int) : Bool :=
  let bound := Nat.pow 2 1024-Nat.pow 2 970
  let places := (Nat.toDigits 10 m).length
  if m = 0 then false
  else if 310 < e+places then true
  else if e+places < 300 then false
  else if 0 ≤ e then bound ≤ m*Nat.pow 10 e.toNat else bound*Nat.pow 10 (-e).toNat ≤ m

def exponent? (cs : List Char) : Option Int :=
  match cs with
  | '-' :: cs => (digits? 10 cs).map fun ds => -Int.ofNat (digitsValue 10 ds)
  | '+' :: cs => (digits? 10 cs).map fun ds => Int.ofNat (digitsValue 10 ds)
  | cs => (digits? 10 cs).map fun ds => Int.ofNat (digitsValue 10 ds)

def isExponentMark (c : Char) : Bool := c = 'e' || c = 'E'

/-- Digits with a fraction or an exponent, as the number `m*10^e`. -/
def fraction? (cs : List Char) : Option (Nat × Int) := do
  let mantissa := cs.takeWhile (fun c => !isExponentMark c)
  let power ← match cs.dropWhile (fun c => !isExponentMark c) with
    | [] => some 0
    | _::cs => exponent? cs
  let whole ← decimal? (mantissa.takeWhile (· ≠ '.'))
  match mantissa.dropWhile (· ≠ '.') with
  | [] => if mantissa.length = cs.length then none else some (digitsValue 10 whole,power)
  | _::part =>
    let part ← digits? 10 part
    some (digitsValue 10 (whole++part),power-part.length)

/-- Whether a word is a number with a fraction. A positive one must be finite. -/
def isFloat (cs : List Char) : Bool :=
  let negative := cs.head? = some '-'
  let size := if negative || cs.head? = some '+' then cs.tail else cs
  if size = ['i','n','f'] || size = ['n','a','n'] then true
  else (fraction? size).any fun (m,e) => negative || !isHuge m e

def pair? (low high : Nat) : List Char → Option (Nat × List Char)
  | a::b::rest =>
    if isBaseDigit 10 a && isBaseDigit 10 b then
      let n := digitsValue 10 [a,b]
      if low ≤ n && n ≤ high then some (n,rest) else none
    else none
  | _ => none

def mark? (c : Char) : List Char → Option (List Char)
  | d::rest => if d = c then some rest else none
  | [] => none

def daysIn (year month : Nat) : Nat :=
  if month = 2 then (if year%4 = 0 && (year%100 ≠ 0 || year%400 = 0) then 29 else 28)
  else if month = 4 || month = 6 || month = 9 || month = 11 then 30 else 31

def date? (cs : List Char) : Option (List Char) := do
  let (century,cs) ← pair? 0 99 cs
  let (year,cs) ← pair? 0 99 cs
  let (month,cs) ← pair? 1 12 (← mark? '-' cs)
  let (_,cs) ← pair? 1 (daysIn (century*100+year) month) (← mark? '-' cs)
  return cs

def time? (cs : List Char) : Option (List Char) := do
  let (_,cs) ← pair? 0 23 cs
  let (_,cs) ← pair? 0 59 (← mark? ':' cs)
  let (_,cs) ← pair? 0 60 (← mark? ':' cs)
  match mark? '.' cs with
  | none => some cs
  | some rest =>
    if (rest.takeWhile (isBaseDigit 10)).isEmpty then none
    else some (rest.dropWhile (isBaseDigit 10))

/-- Nothing, or a distance from universal time. -/
def isOffset : List Char → Bool
  | [] => true
  | ['Z'] => true
  | ['z'] => true
  | c::cs =>
    (c = '+' || c = '-') &&
      (do
        let (_,cs) ← pair? 0 23 cs
        let (_,cs) ← pair? 0 59 (← mark? ':' cs)
        return cs.isEmpty : Option Bool) = some true

def isTimeOfDay (cs : List Char) : Bool := (time? cs).any isOffset

def isDate (cs : List Char) : Bool := date? cs = some []

/-- A date, a date with a time behind a `T`, or a time alone, which has no offset. -/
def isDateTime (cs : List Char) : Bool :=
  time? cs = some [] ||
    match date? cs with
    | some [] => true
    | some (c::rest) => (c = 'T' || c = 't') && isTimeOfDay rest
    | none => false

def isWordChar (c : Char) : Bool :=
  c.isAlphanum || c = '+' || c = '-' || c = '_' || c = '.' || c = ':'

def ofWord? (cs : List Char) : Option Value :=
  if cs = ['t','r','u','e'] then some (.boolean true)
  else if cs = ['f','a','l','s','e'] then some (.boolean false)
  else
    match integer? cs with
    | some n => some (.integer n)
    | none =>
      if isFloat cs then some (.float (String.ofList cs))
      else if isDateTime cs then some (.dateTime (String.ofList cs))
      else none

/-- A word, or a date and a time with one space between them. -/
def readWord? (cs : List Char) : Option (Value × List Char) :=
  let word := cs.takeWhile isWordChar
  let rest := cs.dropWhile isWordChar
  match rest with
  | ' ' :: d::more =>
    if isDate word && isBaseDigit 10 d then
      let time := (d::more).takeWhile isWordChar
      if isTimeOfDay time then
        some (.dateTime (String.ofList (word ++ ' ' :: time)),(d::more).dropWhile isWordChar)
      else none
    else (ofWord? word).map (·,rest)
  | _ => (ofWord? word).map (·,rest)

def readScalar? (cs : List Char) : Option (Value × List Char) :=
  if cs.head? = some '"' || cs.head? = some '\'' then
    (readQuoted? cs).map fun (text,rest) => (.string (String.ofList text),rest)
  else readWord? cs

end Reassembly.Toml
