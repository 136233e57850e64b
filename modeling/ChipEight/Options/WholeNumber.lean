/-
# `ChipEight.Options.WholeNumber` — whole numbers given as text

A text is brought into plain form in steps, and the plain form is read.  The
steps drop

    blanks around the text
    a plus sign
    zeros in front, with any underscores among and behind them
    a fraction that has only zeros
    single underscores between other characters

and keep a minus sign in front.  The minus sign may also come only after zeros.
The plain form is a numeral: no minus sign or one, and then at most 4300 digits of
which the first is no zero, unless it is the only one.

A text that starts with more digits than that, behind no more than a minus sign
and without a zero in front, is refused for its length, whatever follows.  Any
other text whose plain form has too many digits is merely unreadable.
-/
import ChipEight.Options.Problem
import ChipEight.Text.Blank
import ChipEight.Text.Integer
import ChipEight.Text.Split

namespace ChipEight.WholeNumber

/-! ## The plain form -/

/-- Whether a character may stand around a number: white space, but none of the separators of
files, groups, records and units. -/
def isMargin (c : Char) : Bool := Text.isBlank c && !(0x1C ≤ c.toNat && c.toNat ≤ 0x1F)

/-- Whether a numeral without zeros in front may start with a character. -/
def startsPlain (c : Char) : Bool := ('1' ≤ c && c ≤ '9') || c == '-'

/-- Drops zeros and underscores, of which `last` is the one just dropped.  It is put back if the
text ends behind it or a point follows. -/
def skipZeros (last : Char) : List Char → Option (List Char)
  | [] => some [last]
  | c :: cs =>
      if c = '0' ∨ c = '_' then skipZeros c cs
      else if c = '.' then some (last :: c :: cs)
      else if startsPlain c then some (c :: cs)
      else none

/-- A text without zeros in front; none if it starts like no number. -/
def dropZeros : List Char → Option (List Char)
  | [] => none
  | c :: cs =>
      if c = '0' then skipZeros c cs
      else if startsPlain c then some (c :: cs)
      else none

/-- A text without its fraction, if the first point is followed by zeros and nothing else. -/
def dropFraction (cs : List Char) : List Char :=
  match cs.dropWhile (· != '.') with
  | _ :: zero :: zeros => if (zero :: zeros).all (· == '0') then cs.takeWhile (· != '.') else cs
  | _ => cs

/-- A text without its underscores, if each has other characters on both sides. -/
def dropUnderscores (cs : List Char) : List Char :=
  let parts := Text.splitOn '_' cs
  if parts.any List.isEmpty then cs else parts.flatten

/-- The plain form of a text without margins and without a sign in front. -/
def unsigned? (cs : List Char) : Option (List Char) :=
  (dropZeros cs).map fun digits => dropUnderscores (dropFraction digits)

/-- The plain form of a text. -/
def plain? (cs : List Char) : Option (List Char) :=
  match Text.trimWhile isMargin cs with
  | '-' :: rest => (unsigned? rest).map ('-' :: ·)
  | '+' :: '-' :: _ => none
  | '+' :: rest => unsigned? rest
  | rest => unsigned? rest

/-! ## Numerals -/

/-- The most digits that a numeral may have. -/
def longest : Nat := 4300

/-- Reads digits of which the first is no zero, unless it is the only one. -/
def readDigits? (cs : List Char) : Option Nat :=
  if cs = ['0'] then some 0
  else if cs.head?.any startsPlain && cs.all Char.isDigit && cs.length ≤ longest then
    some (Text.valueOf 10 (cs.map fun c => c.toNat - 48))
  else none

/-- Reads a numeral. -/
def readNumeral? : List Char → Option Int
  | '-' :: cs => (readDigits? cs).map fun n => -(n : Int)
  | cs => (readDigits? cs).map Int.ofNat

/-- The digits at the start of a text, behind a minus sign if there is one. -/
def leadingDigits : List Char → List Char
  | '-' :: cs => cs.takeWhile Char.isDigit
  | cs => cs.takeWhile Char.isDigit

/-- Whether a text starts with too many digits, of which the first is no zero. -/
def startsTooLong (cs : List Char) : Bool :=
  (leadingDigits cs).head? != some '0' && longest < (leadingDigits cs).length

/-- The whole number that a text stands for. -/
def read (cs : List Char) : Except Problem Int :=
  if startsTooLong cs then .error .tooLong
  else match plain? cs >>= readNumeral? with
    | some n => .ok n
    | none => .error .unreadableNumber

end ChipEight.WholeNumber
