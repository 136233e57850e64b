/-
# `ChipEight.Options.Lax` — a validator with lax conversions

Values of other kinds stand for whole numbers and truth values where that is plain.

A real number counts as the whole number that it is, if it lies strictly between
-2^63 and 2^63.  An integer may have any size as a number, but as a truth value
only integers of 64 bits are looked at.

A description starts with the number of failures.  Each of them has lines of its
own, the last of which may name a page about its problem; these pages lie below
one address, which is not known here.
-/
import ChipEight.Options.Problem
import ChipEight.Options.Validator
import ChipEight.Options.WholeNumber

namespace ChipEight

namespace FieldValue

/-! ## Conversions -/

/-- The bound of the real numbers that count as whole numbers. -/
def realBound : Int := 0x8000000000000000

/-- Whether an integer lies strictly within the bound for real numbers. -/
def isWithinReals (n : Int) : Bool := -realBound < n && n < realBound

/-- Whether an integer has at most 64 bits, the sign included. -/
def isShort (n : Int) : Bool := -realBound ≤ n && n < realBound

/-- A value as a whole number. -/
def toInt : FieldValue → Except Problem Int
  | .bool b => .ok (if b then 1 else 0)
  | .int n => .ok n
  | .real x =>
      if x.den ≠ 1 then .error .fraction
      else if isWithinReals x.num then .ok x.num
      else .error .tooLong
  | .notFinite => .error .notFinite
  | .text s => WholeNumber.read s.toList
  | .null | .list | .record => .error .notWhole

/-- A value as a whole number or nothing. -/
def toInt? : FieldValue → Except Problem (Option Int)
  | .null => .ok none
  | value => value.toInt.map some

/-- The words for a truth value. -/
def truthWords : List (String × Bool) :=
  [ ("0", false), ("off", false), ("f", false), ("false", false), ("n", false), ("no", false),
    ("1", true), ("on", true), ("t", true), ("true", true), ("y", true), ("yes", true) ]

/-- The truth value that a number stands for: zero or one. -/
def truthOf (n : Int) : Except Problem Bool :=
  if n = 0 then .ok false else if n = 1 then .ok true else .error .unreadableTruth

/-- A value as a truth value. -/
def toBool : FieldValue → Except Problem Bool
  | .bool b => .ok b
  | .int n => if isShort n then truthOf n else .error .notTruth
  | .real x => if x.den = 1 ∧ isWithinReals x.num then truthOf x.num else .error .notTruth
  | .text s =>
      match truthWords.lookup (s.map Char.toLower) with
      | some b => .ok b
      | none => .error .unreadableTruth
  | .notFinite | .null | .list | .record => .error .notTruth

end FieldValue

/-! ## Limits -/

/-- A number with a least value, if there is any. -/
def atLeast (least : Option Int) (n : Int) : Except Problem Int :=
  match least with
  | some bound => if n < bound then .error (.below bound) else .ok n
  | none => .ok n

/-- A number with a greatest value, if there is any. -/
def atMost (greatest : Option Int) (n : Int) : Except Problem Int :=
  match greatest with
  | some bound => if bound < n then .error (.above bound) else .ok n
  | none => .ok n

/-! ## Wording -/

/-- A long text is cut in the middle: at most 50 characters are shown. -/
def abridged (s : String) : String :=
  let cs := s.toList
  if 50 < cs.length then
    .ofList (cs.take 25 ++ ['.', '.', '.'] ++ cs.drop (cs.length - 24))
  else s

/-- A refused value and its kind, for the values that an argument can have. -/
def FieldValue.shown? : FieldValue → Option (String × String)
  | .int n => some (Text.decimalInt n, "int")
  | .list => some ("[]", "list")
  | _ => none

/-- The lines on one failure, under the name of its field. -/
def failureLines (pages : Option String) (name : String) (problem : Problem) (value : FieldValue) :
    String :=
  let input := match value.shown? with
    | some (text, kind) => ", input_value=" ++ abridged text ++ ", input_type=" ++ kind
    | none => ""
  let page := match pages with
    | some address => "\n    For further information visit " ++ address ++ problem.code
    | none => ""
  name ++ "\n  " ++ problem.message ++ " [type=" ++ problem.code ++ input ++ "]" ++ page

namespace Validator

/-- What a type makes of a value: the limits come after the conversion. -/
def laxCheck : (t : FieldType) → FieldValue → Except Problem t.Carrier
  | .int least greatest, value => value.toInt >>= atLeast least >>= atMost greatest
  | .optionalInt, value => value.toInt?
  | .bool, value => value.toBool

/-- What a class makes of values that are given by name: no field may fail. -/
def laxConstruct (s : Schema) (given : List (String × FieldValue)) :
    Except (List (FieldError s.Field Problem)) s.Record :=
  match s.failures laxCheck given with
  | [] => .ok fun f => (s.settled laxCheck given f).toOption.getD (s.default f)
  | errors => .error errors

/-- The validator with lax conversions; `pages` is the address of the pages about problems. -/
def lax (pages : Option String) : Validator Problem where
  check := laxCheck
  construct := laxConstruct
  describe s errors :=
    let noun := if errors.length = 1 then " validation error" else " validation errors"
    "\n".intercalate ((Text.decimal errors.length ++ noun ++ " for " ++ s.title) ::
      errors.map fun e => failureLines pages (s.name e.field) e.problem e.value)

end Validator

end ChipEight
