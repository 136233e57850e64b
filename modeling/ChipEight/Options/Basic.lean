/-
# `ChipEight.Options.Basic` — the options of a run

The options of a run are a class with four declared fields.  They arrive as named
values of several kinds, of which a validator makes the options.
-/
import ChipEight.Options.Validator

namespace ChipEight

/-- The options of a run. -/
structure Options where
  /-- How many instructions a tick has. -/
  instructionsPerTick : Int := 4
  /-- The seed of the random source; without one the host chooses. -/
  seed : Option Int := none
  /-- Whether executed instructions are recorded. -/
  trace : Bool := false
  /-- How many of them at most. -/
  traceLimit : Int := 10000
  deriving DecidableEq, Repr

/-- The fields in the order of their declaration. -/
inductive Field where
  | instructionsPerTick
  | seed
  | trace
  | traceLimit
  deriving DecidableEq, Repr

namespace Field

/-- The name under which a field is given. -/
def name : Field → String
  | .instructionsPerTick => "instructions_per_tick"
  | .seed => "seed"
  | .trace => "trace"
  | .traceLimit => "trace_limit"

/-- The type that a field is declared with. -/
@[reducible] def type : Field → FieldType
  | .instructionsPerTick => .int (some 1) (some 1000)
  | .seed => .optionalInt
  | .trace => .bool
  | .traceLimit => .int (some 1) none

/-- The fields in the order of their declaration. -/
def all : List Field := [.instructionsPerTick, .seed, .trace, .traceLimit]

theorem forall_iff {p : Field → Prop} :
    (∀ field, p field) ↔ p .instructionsPerTick ∧ p .seed ∧ p .trace ∧ p .traceLimit := by
  constructor
  · exact fun h => ⟨h _, h _, h _, h _⟩
  · rintro ⟨hinstructions, hseed, htrace, hlimit⟩ field
    cases field with
    | instructionsPerTick => exact hinstructions
    | seed => exact hseed
    | trace => exact htrace
    | traceLimit => exact hlimit

theorem mem_all (field : Field) : field ∈ all := by
  cases field <;> decide

end Field

namespace Options

/-- What the options hold in a field. -/
def get (o : Options) : (field : Field) → field.type.Carrier
  | .instructionsPerTick => o.instructionsPerTick
  | .seed => o.seed
  | .trace => o.trace
  | .traceLimit => o.traceLimit

/-- The declaration of the options. -/
@[reducible] def schema : Schema where
  title := "RunOptions"
  Field := Field
  declared := Field.all
  nodup := by decide
  mem_declared := Field.mem_all
  name := Field.name
  type := Field.type
  default := ({} : Options).get

/-- The options with given values for the fields. -/
def ofRecord (r : schema.Record) : Options where
  instructionsPerTick := r .instructionsPerTick
  seed := r .seed
  trace := r .trace
  traceLimit := r .traceLimit

/-- What a validator makes of named values: options, or all the fields that cannot be accepted. -/
def ofFields {ε : Type} (v : Validator ε) (given : List (String × FieldValue)) :
    Except (List (FieldError Field ε)) Options :=
  (v.construct schema given).map ofRecord

/-- The seed in force, given the one the host would choose. -/
def seedOr (o : Options) (chosen : Int) : Int := o.seed.getD chosen

end Options

end ChipEight
