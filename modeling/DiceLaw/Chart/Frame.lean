import DiceLaw.Roll.Statistics

/-!
# Frames

A roll as columns of equal length: its outcomes, with probabilities and running sums as doubles.

## Main definitions

* `Frame`: the columns
* `Roll.frame?`: the columns of a roll
-/

namespace DiceLaw

/-- The columns of a roll. -/
structure Frame where
  values : List Int
  probabilities : List Binary64
  cumulative : List Binary64
  deriving DecidableEq

/-- The names of the columns. -/
def Frame.columns : List String := ["value", "probability", "cumulative"]

/-- The columns of a roll; none if a number is too large for a double. -/
def Roll.frame? (r : Roll) : Option Frame := do
  let probabilities ← r.table.entries.mapM fun e => Binary64.ofRat? e.2
  let cumulative ← r.table.cumulative.mapM fun e => Binary64.ofRat? e.2
  return { values := r.table.outcomes, probabilities := probabilities, cumulative := cumulative }

end DiceLaw
