import KeyCustody.Text.Printable

/-!
# Quoted texts

The form in which a message shows a text or a character that it did not choose itself: between
quotation marks, with the mark and the backslash escaped, the usual short forms for tabulator and
line ends, and every character that is not printable given by its code point.
-/

namespace KeyCustody.Text

/-- The characters that show `c` between a pair of `mark`s. -/
def escape (mark c : Char) : List Char :=
  if c = '\x00' then ['\\', '0']
  else if c = '\t' then ['\\', 't']
  else if c = '\r' then ['\\', 'r']
  else if c = '\n' then ['\\', 'n']
  else if c = '\\' ∨ c = mark then ['\\', c]
  else if isPrintable c then [c]
  else ['\\', 'u', '\x7b'] ++ Nat.toDigits 16 c.toNat ++ ['\x7d']

/-- A text between double quotation marks. -/
def quoted (s : String) : String :=
  String.ofList ('"' :: s.toList.flatMap (escape '"') ++ ['"'])

/-- A character between single quotation marks. -/
def quotedChar (c : Char) : String :=
  String.ofList ('\'' :: escape '\'' c ++ ['\''])

end KeyCustody.Text
