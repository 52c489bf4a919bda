import BusinessRules.Facts

/-!
# Results of rules

Evaluating a rule in a context gives a result: success or an error text, and named data.  A
success whose data say so counts as skipped.

## Main definitions

* `RuleResult`, `RuleResult.ok`, `RuleResult.fail`: the results
* `Status`, `RuleResult.status`: matched, skipped or failed
-/

namespace BusinessRules

/-- The outcome of one rule in one context.  Durations are in milliseconds. -/
structure RuleResult where
  success : Bool
  error : Option String
  data : Facts
  duration : Int
  deriving Repr, BEq, Inhabited

/-- What became of a rule. -/
inductive Status where
  | matched
  | skipped
  | failed
  deriving DecidableEq, Repr

/-- The name of a status. -/
def Status.name : Status → String
  | .matched => "matched"
  | .skipped => "skipped"
  | .failed => "failed"

namespace RuleResult

/-- A success. -/
def ok (data : Facts) (duration : Int) : RuleResult := ⟨true, none, data, duration⟩

/-- A failure. -/
def fail (error : Option String) (data : Facts) (duration : Int) : RuleResult :=
  ⟨false, error, data, duration⟩

/-- A success without data. -/
def done : RuleResult := ok .empty 0

/-- A success that did nothing. -/
def skip : RuleResult := ok ⟨[("skipped", .bool true)]⟩ 0

/-- A failure with nothing but a text. -/
def failed (error : String) : RuleResult := fail (some error) .empty 0

/-- The same result with a measured duration. -/
def withDuration (r : RuleResult) (duration : Int) : RuleResult := { r with duration }

/-- Whether a success did nothing. -/
def isSkipped (r : RuleResult) : Bool :=
  r.success && ((r.data.get? "skipped").map Datum.isFilled).getD false

/-- What became of the rule. -/
def status (r : RuleResult) : Status :=
  if !r.success then .failed else if r.isSkipped then .skipped else .matched

end RuleResult

end BusinessRules
