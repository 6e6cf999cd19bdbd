import DiceLaw.Table.Basic

/-!
# Expectations

## Main definitions

* `expectationOver`: the sum of the values of a function, each times the weight of its outcome
* `Table.expectation`: the expectation of a function under a table
-/

namespace DiceLaw

/-- The sum over entries of the values of a function, each times the weight of its outcome. -/
def expectationOver (f : Int → Rat) : List Entry → Rat
  | [] => 0
  | (v, w) :: rest => f v * w + expectationOver f rest

/-- The expectation of a function of the outcomes. -/
def Table.expectation (t : Table) (f : Int → Rat) : Rat := expectationOver f t.entries

end DiceLaw
