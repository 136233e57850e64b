/-
# `ChipEight.Text.Numeral` — writing numbers in hexadecimal and decimal

Digits above nine are capital letters.  A width is a least number of
characters; shorter numerals are filled with zeros on the left, behind the sign
of a negative number.

**Proved here.**

    one digit more                   (`digits_of_le`)
-/

namespace ChipEight.Text

/-- The character of a digit below 36. -/
def digitChar (d : Nat) : Char := if d < 10 then Char.ofNat (48 + d) else Char.ofNat (55 + d)

/-- The digits of a number in a base of at least two, highest first. -/
def digits (base n : Nat) : List Char :=
  if n < base ∨ base < 2 then [digitChar n]
  else digits base (n / base) ++ [digitChar (n % base)]
termination_by n
decreasing_by exact Nat.div_lt_self (by omega) (by omega)

/-- A number above its base ends in its remainder and starts with the rest. -/
theorem digits_of_le {base n : Nat} (hb : 2 ≤ base) (h : base ≤ n) :
    digits base n = digits base (n / base) ++ [digitChar (n % base)] := by
  rw [digits, if_neg (by omega)]

/-- Zeros in front up to a width. -/
def padded (width : Nat) (cs : List Char) : List Char :=
  List.replicate (width - cs.length) '0' ++ cs

/-- A number in decimal. -/
def decimal (n : Nat) : String := .ofList (digits 10 n)

/-- An integer in decimal, with a minus sign if negative. -/
def decimalInt : Int → String
  | .ofNat n => decimal n
  | .negSucc n => "-" ++ decimal (n + 1)

/-- A number in hexadecimal with at least `width` digits. -/
def hex (width n : Nat) : String := .ofList (padded width (digits 16 n))

/-- An integer in hexadecimal with at least `width` characters, the sign included. -/
def hexInt (width : Nat) : Int → String
  | .ofNat n => hex width n
  | .negSucc n => "-" ++ hex (width - 1) (n + 1)

end ChipEight.Text
