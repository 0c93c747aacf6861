/-
Quoted text, as messages show names and patterns.

The quote is the apostrophe, unless the text holds an apostrophe and no
double quote. The quote and the backslash are escaped by a backslash;
line feed, carriage return and tabulator have escapes of their own; any
other character that does not print is written as its code point, in
two, four or eight lower-case hexadecimal digits.
-/
import Relex.Unicode.Printable

namespace Relex.Text

/-- The apostrophe. -/
def apostrophe : Char := Char.ofNat 0x27

/-- The double quote. -/
def doubleQuote : Char := Char.ofNat 0x22

/-- The quote a text is written in. -/
def quoteFor (text : List Char) : Char :=
  if apostrophe ∈ text ∧ doubleQuote ∉ text then doubleQuote
  else apostrophe

/-- A number in lower-case hexadecimal, padded with zeros. -/
def hexadecimal (width n : Nat) : List Char :=
  (Nat.toDigits 16 n).leftpad width '0'

/-- A character as it stands between quotes. -/
def quotedChar (quote c : Char) : List Char :=
  if c = quote ∨ c = '\\' then ['\\', c]
  else if c = '\n' then ['\\', 'n']
  else if c = '\r' then ['\\', 'r']
  else if c = '\t' then ['\\', 't']
  else if Unicode.isPrintable c then [c]
  else if c.toNat < 0x100 then '\\' :: 'x' :: hexadecimal 2 c.toNat
  else if c.toNat < 0x10000 then '\\' :: 'u' :: hexadecimal 4 c.toNat
  else '\\' :: 'U' :: hexadecimal 8 c.toNat

/-- A text between quotes, with its escapes. -/
def quotedChars (text : List Char) : List Char :=
  let quote := quoteFor text
  quote :: text.flatMap (quotedChar quote) ++ [quote]

/-- A string between quotes, with its escapes. -/
def quoted (text : String) : String :=
  String.ofList (quotedChars text.toList)

end Relex.Text
