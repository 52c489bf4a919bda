import BusinessRules.Decimal.Arithmetic
import BusinessRules.Fault
import BusinessRules.Text.Integer

/-!
# Settings

The environment may set the precision of arithmetic, the default rule file and the default
directory of rule files.  Settings are read when they are needed, so a setting that cannot be read
is a fault of the operation that needs settings.

## Main definitions

* `Environment`: the variables of the environment
* `Settings`, `Settings.ofEnvironment`: the settings and their reader
* `Environment.precision`: the precision of arithmetic
-/

namespace BusinessRules

/- Powers are the plain ones of the natural numbers and the integers. -/
attribute [local instance (2000)] instPowNat

/-- The variables of the environment. -/
abbrev Environment := List (String × String)

/-- The settings. -/
structure Settings where
  decimalPrecision : Int
  rulesFile : Option String
  rulesDir : Option String
  deriving DecidableEq, Repr

namespace Environment

/-- The value of a variable, whatever the case of its name.  Of several variables whose names
differ in case alone the last one counts. -/
def setting? (env : Environment) (name : String) : Option String :=
  (env.reverse.find? fun (n, _) => n.toLower = name).map Prod.snd

end Environment

namespace Settings

/-- The number of significant digits unless the environment sets one. -/
def defaultPrecision : Int := 28

/-- Read the settings. -/
def ofEnvironment (env : Environment) : Outcome Settings :=
  let file := env.setting? "rulify_rules_file"
  let dir := env.setting? "rulify_rules_dir"
  match env.setting? "rulify_decimal_precision" with
  | none => .ok ⟨defaultPrecision, file, dir⟩
  | some text =>
    match Text.wholeNumber? text with
    | some n => .ok ⟨n, file, dir⟩
    | none => .error .invalidSettings

end Settings

/-- Whether a number fits into a machine word with a sign. -/
def fitsWord (n : Int) : Bool :=
  n.toNat < 2 ^ (63 : Nat) && (-n).toNat ≤ 2 ^ (63 : Nat)

/-- The precision of arithmetic. -/
def Environment.precision (env : Environment) : Outcome Precision :=
  match Settings.ofEnvironment env with
  | .error f => .error f
  | .ok settings =>
    match Precision.ofInt? settings.decimalPrecision with
    | some p => .ok p
    | none =>
      .error (if fitsWord settings.decimalPrecision then .precisionOutOfRange
        else .precisionTooLarge)

end BusinessRules
