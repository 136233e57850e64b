/-
# `ChipEight.Text.Quoted` — a text in quotes

A text is shown between single quotes, or between double quotes if it holds a
single quote and no double one.  A backslash marks itself, the quotes in use,
tab, line feed and carriage return; other unprintable characters are written
with their code point in two, four or eight hexadecimal digits.
-/
import ChipEight.Text.Numeral
import ChipEight.Text.Printable

namespace ChipEight.Text

/-- The single quote. -/
def singleQuote : Char := Char.ofNat 0x27

/-- The double quote. -/
def doubleQuote : Char := Char.ofNat 0x22

/-- The quote put around a text. -/
def quoteFor (cs : List Char) : Char :=
  if cs.contains singleQuote && !cs.contains doubleQuote then doubleQuote else singleQuote

/-- A number in small hexadecimal digits, filled up to a width. -/
def smallHex (width n : Nat) : List Char := (padded width (digits 16 n)).map Char.toLower

/-- A character written with its code point. -/
def codePoint (n : Nat) : List Char :=
  if n < 0x100 then '\\' :: 'x' :: smallHex 2 n
  else if n < 0x10000 then '\\' :: 'u' :: smallHex 4 n
  else '\\' :: 'U' :: smallHex 8 n

/-- A character as it stands between the given quotes. -/
def escape (quote c : Char) : List Char :=
  if c = quote || c = '\\' then ['\\', c]
  else if c = '\t' then ['\\', 't']
  else if c = '\n' then ['\\', 'n']
  else if c = '\r' then ['\\', 'r']
  else if isPrintable c then [c]
  else codePoint c.toNat

/-- A text in quotes. -/
def quoted (cs : List Char) : String :=
  let quote := quoteFor cs
  .ofList (quote :: (cs.flatMap (escape quote) ++ [quote]))

end ChipEight.Text
