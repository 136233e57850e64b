/-
# `ChipEight.Text.Integer` — reading integers

An integer may have blanks around it, a sign, and single underscores between its
digits; the decimal digits of every script count as digits.  A format fixes the
base, whether the digits may be announced by `0x` (and then an underscore), and
how many digits are accepted.

Around a text of basic characters only, the blanks are the space and the
characters 9 to 13.  A text with any other character is read more generously:
all white space beyond the basic characters counts as well.

**Proved here.**

    zeros in front of a number do not count      (`valueOf_zeros`)
-/
import ChipEight.Text.Blank
import ChipEight.Text.DecimalDigit
import ChipEight.Text.Split

namespace ChipEight.Text

/-- How an integer is written. -/
structure IntegerFormat where
  base : Nat
  /-- Whether the digits may be announced by `0x`. -/
  announced : Bool
  /-- The largest number of digits, if there is one. -/
  limit : Option Nat

/-- Numbers on the command line are decimal and have at most 4300 digits. -/
def decimalFormat : IntegerFormat := ⟨10, false, some 4300⟩

/-- Keys are hexadecimal, of any length. -/
def hexFormat : IntegerFormat := ⟨16, true, none⟩

/-- The value of a character as a digit: a decimal digit, or a letter for ten and above. -/
def digitValue? (c : Char) : Option Nat :=
  match decimalValue? c with
  | some d => some d
  | none =>
      if 'a' ≤ c && c ≤ 'z' then some (c.toNat - 87)
      else if 'A' ≤ c && c ≤ 'Z' then some (c.toNat - 55)
      else none

/-- The value of a character as a digit of a base. -/
def digitBelow? (base : Nat) (c : Char) : Option Nat := (digitValue? c).filter (· < base)

/-- The digits of one stretch between underscores, which must have some. -/
def stretch? (base : Nat) (cs : List Char) : Option (List Nat) :=
  if cs.isEmpty then none else cs.mapM (digitBelow? base)

/-- The digits of a text that consists of digits with single underscores between them. -/
def digitRun? (base : Nat) (cs : List Char) : Option (List Nat) :=
  ((splitOn '_' cs).mapM (stretch? base)).map List.flatten

/-- The number with the given digits, highest first. -/
def valueOf (base : Nat) (ds : List Nat) : Nat := ds.foldl (fun n d => n * base + d) 0

/-- Whether a character is dropped around an integer. -/
def isMargin (basic : Bool) (c : Char) : Bool :=
  if c.toNat < 0x80 then c == ' ' || (9 ≤ c.toNat && c.toNat ≤ 13) else !basic && isBlank c

/-- A text without blanks around it. -/
def dropMargins (cs : List Char) : List Char :=
  trimWhile (isMargin (cs.all fun c => c.toNat < 0x80)) cs

/-- The digits behind `0x`, if they are announced and may be. -/
def dropAnnouncement (format : IntegerFormat) : List Char → List Char
  | first :: x :: cs =>
      if format.announced && decimalValue? first == some 0 && (x == 'x' || x == 'X') then
        match cs with
        | '_' :: rest => rest
        | rest => rest
      else first :: x :: cs
  | cs => cs

/-- Reads an unsigned number. -/
def readNat? (format : IntegerFormat) (cs : List Char) : Option Nat := do
  let ds ← digitRun? format.base (dropAnnouncement format cs)
  if format.limit.any (· < ds.length) then none else some (valueOf format.base ds)

/-- Reads an integer. -/
def readInt? (format : IntegerFormat) (cs : List Char) : Option Int :=
  match dropMargins cs with
  | '-' :: digits => (readNat? format digits).map fun n => -(n : Int)
  | '+' :: digits => (readNat? format digits).map Int.ofNat
  | digits => (readNat? format digits).map Int.ofNat

theorem valueOf_zeros (base k : Nat) (ds : List Nat) :
    valueOf base (List.replicate k 0 ++ ds) = valueOf base ds := by
  induction k with
  | zero => rfl
  | succ k ih =>
      rw [← ih, List.replicate_succ, List.cons_append, valueOf, List.foldl_cons, Nat.zero_mul]
      rfl

end ChipEight.Text
