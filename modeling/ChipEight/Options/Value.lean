/-
# `ChipEight.Options.Value` — values given for options

A host gives the value of an option as a number, a truth value, a text or
something else.  Which of them will do for an option is not settled here.
-/

namespace ChipEight

/-- A value given for a field.  What a list or a record holds does not matter here. -/
inductive FieldValue where
  | null
  | bool (b : Bool)
  | int (n : Int)
  /-- A number with a point or an exponent. -/
  | real (x : Rat)
  /-- An infinite value, or one that is not a number. -/
  | notFinite
  | text (s : String)
  | list
  | record
  deriving DecidableEq, Repr

end ChipEight
