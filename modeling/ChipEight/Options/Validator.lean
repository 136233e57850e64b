/-
# `ChipEight.Options.Validator` — declared fields and their validator

Options are a class with declared fields: each has a name, a type and a default.  Values
for them come under names, and a validator makes the fields of a class out of them, or
reports what is wrong with them.

The validator is a library of its own.  It is a parameter of all that is done with options
here, and what is relied on is no more than what is documented of it:

    values of a declared type are accepted as they are
    limits are checked on the integer that a value was converted to
    where nothing is an admissible value, any other one is converted as if it were not
    a list is no integer
    a field holds the value made of the given one, or else its default
    all failures are reported, each with the value that failed
    they are reported in the order of the fields

Nothing is said of which values besides those of the declared type are converted, nor of
how problems are told apart and worded.
-/
import ChipEight.Options.Value

namespace ChipEight

/-! ## Declarations -/

/-- The types that fields are declared with. -/
inductive FieldType where
  /-- An integer, with a least and a greatest value if there are any. -/
  | int (least greatest : Option Int)
  /-- An integer or nothing. -/
  | optionalInt
  | bool
  deriving DecidableEq, Repr

namespace FieldType

/-- The values of a type. -/
@[reducible] def Carrier : FieldType → Type
  | .int _ _ => Int
  | .optionalInt => Option Int
  | .bool => Bool

/-- A value of a type as one that can be given. -/
def given : (t : FieldType) → t.Carrier → FieldValue
  | .int _ _, n => .int n
  | .optionalInt, seed => (seed.map .int).getD .null
  | .bool, b => .bool b

/-- Whether a value of a type is within its limits. -/
def Admits : (t : FieldType) → t.Carrier → Prop
  | .int least greatest, n => (∀ bound ∈ least, bound ≤ n) ∧ ∀ bound ∈ greatest, n ≤ bound
  | .optionalInt, _ => True
  | .bool, _ => True

end FieldType

/-- A class of options. -/
structure Schema where
  title : String
  Field : Type
  /-- The fields in the order of their declaration. -/
  declared : List Field
  nodup : declared.Nodup
  mem_declared : ∀ f, f ∈ declared
  /-- The name under which a field is given. -/
  name : Field → String
  type : Field → FieldType
  default : (f : Field) → (type f).Carrier

/-- A value for each field of a class. -/
abbrev Schema.Record (s : Schema) : Type := (f : s.Field) → (s.type f).Carrier

/-- A field that could not be accepted, with the value it was given. -/
structure FieldError (F ε : Type) where
  field : F
  problem : ε
  value : FieldValue
  deriving DecidableEq, Repr

/-! ## Validators -/

/-- A validator that tells problems apart in its own way. -/
structure Validator (ε : Type) where
  /-- What a type makes of a value, or what is wrong with it. -/
  check : (t : FieldType) → FieldValue → Except ε t.Carrier
  /-- What a class makes of values that are given by name, or what is wrong with them. -/
  construct : (s : Schema) → List (String × FieldValue) →
    Except (List (FieldError s.Field ε)) s.Record
  /-- The description of what is wrong with the values for a class. -/
  describe : (s : Schema) → List (FieldError s.Field ε) → String

namespace Validator

variable {ε : Type}

/-- What is documented of a validator. -/
structure Documented (v : Validator ε) : Prop where
  /-- A value of the declared type within its limits is accepted as it is. -/
  accepts : ∀ (t : FieldType) (x : t.Carrier), t.Admits x → v.check t (t.given x) = .ok x
  /-- Limits are checked last, on the integer that a value was converted to. -/
  limited : ∀ least greatest value n, v.check (.int least greatest) value = .ok n →
    v.check (.int none none) value = .ok n ∧ (FieldType.int least greatest).Admits n
  /-- Where nothing is allowed, all but null is converted as an integer. -/
  optional : ∀ value seed, value ≠ .null → v.check .optionalInt value = .ok seed →
    ∃ n, seed = some n ∧ v.check (.int none none) value = .ok n
  /-- A list is not converted to an integer. -/
  list : ∀ n, v.check (.int none none) .list ≠ .ok n
  /-- A field holds what its type makes of the value that is given under its name. -/
  held : ∀ s given r, v.construct s given = .ok r → ∀ f value,
    given.lookup (s.name f) = some value → v.check (s.type f) value = .ok (r f)
  /-- A field under whose name nothing is given holds its default, which is not checked. -/
  defaulted : ∀ s given r, v.construct s given = .ok r → ∀ f,
    given.lookup (s.name f) = none → r f = s.default f
  /-- Nothing is reported without a failure. -/
  raised : ∀ s given errors, v.construct s given = .error errors → errors ≠ []
  /-- One report holds all failures, and nothing but failures. -/
  reported : ∀ s given errors, v.construct s given = .error errors → ∀ e,
    e ∈ errors ↔ given.lookup (s.name e.field) = some e.value ∧
      v.check (s.type e.field) e.value = .error e.problem
  /-- The failures are reported in the order of the fields. -/
  ordered : ∀ s given errors, v.construct s given = .error errors →
    (errors.map FieldError.field).Sublist s.declared

end Validator

/-! ## Field by field -/

/-- The failure among the outcomes of a computation. -/
def failure? {ε α : Type} : Except ε α → Option ε
  | .ok _ => none
  | .error e => some e

namespace Schema

variable {ε : Type} (s : Schema) (check : (t : FieldType) → FieldValue → Except ε t.Carrier)
  (given : List (String × FieldValue))

/-- What becomes of a field: it has its default, or the value made of the given one, or it fails. -/
def settled (f : s.Field) : Except (FieldError s.Field ε) (s.type f).Carrier :=
  match given.lookup (s.name f) with
  | none => .ok (s.default f)
  | some value => (check (s.type f) value).mapError fun problem => ⟨f, problem, value⟩

/-- The failures of the fields, in the order of their declaration. -/
def failures : List (FieldError s.Field ε) :=
  s.declared.filterMap fun f => failure? (s.settled check given f)

end Schema

end ChipEight
