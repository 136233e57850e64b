/-
# `ChipEight.Options.Problem` — what can be wrong with the value of an option

Each problem has a short name, by which a host tells problems apart, and a
description for people.
-/
import ChipEight.Text.Numeral

namespace ChipEight

/-- What is wrong with a value. -/
inductive Problem where
  | notWhole
  | fraction
  /-- The value is a number, but none of the real numbers. -/
  | notFinite
  | unreadableNumber
  /-- A number with too many digits, or a real number too far from zero. -/
  | tooLong
  | below (bound : Int)
  | above (bound : Int)
  | notTruth
  | unreadableTruth
  deriving DecidableEq, Repr

namespace Problem

/-- The short name of a problem. -/
def code : Problem → String
  | .notWhole => "int_type"
  | .fraction => "int_from_float"
  | .notFinite => "finite_number"
  | .unreadableNumber => "int_parsing"
  | .tooLong => "int_parsing_size"
  | .below _ => "greater_than_equal"
  | .above _ => "less_than_equal"
  | .notTruth => "bool_type"
  | .unreadableTruth => "bool_parsing"

/-- The description of a problem. -/
def message : Problem → String
  | .notWhole => "Input should be a valid integer"
  | .fraction => "Input should be a valid integer, got a number with a fractional part"
  | .notFinite => "Input should be a finite number"
  | .unreadableNumber => "Input should be a valid integer, unable to parse string as an integer"
  | .tooLong => "Unable to parse input string as an integer, exceeded maximum size"
  | .below bound => "Input should be greater than or equal to " ++ Text.decimalInt bound
  | .above bound => "Input should be less than or equal to " ++ Text.decimalInt bound
  | .notTruth => "Input should be a valid boolean"
  | .unreadableTruth => "Input should be a valid boolean, unable to interpret input"

end Problem

end ChipEight
