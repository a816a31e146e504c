import Reassembly.Text.Visible

/-! Characters and texts in quotation marks, with escapes for what could not be seen. -/
namespace Reassembly.Text

def hexDigits (n : Nat) : List Char := Nat.toDigits 16 n

def escape (mark c : Char) : List Char :=
  if c = mark || c = '\\' then ['\\',c]
  else if c.toNat = 0 then ['\\','0']
  else if c = '\t' then ['\\','t']
  else if c = '\n' then ['\\','n']
  else if c = '\r' then ['\\','r']
  else if isVisible c then [c]
  else "\\u\x7b".toList ++ hexDigits c.toNat ++ ['\x7d']

def quoteChar (c : Char) : String := String.ofList (['\''] ++ escape '\'' c ++ ['\''])

def quote (s : String) : String := String.ofList (['"'] ++ s.toList.flatMap (escape '"') ++ ['"'])

end Reassembly.Text
