import DiceLaw.Chart.Frame
import DiceLaw.Keyed

/-!
# Charts

Several rolls in one chart: for each of them the probabilities of all outcomes that any of them has.
The outcomes make a column of their own beside those of the rolls, so its name is no label.

## Main definitions

* `Trace`, `Chart`: the bars of one roll, and all of them with their titles
* `ChartError`: why there is no chart
* `Chart.outcomes`: the outcomes of several rolls
* `Chart.ofRolls`: the chart of labelled rolls
-/

namespace DiceLaw

/-- The bars of one roll. -/
structure Trace where
  label : String
  x : List String
  y : List Binary64
  deriving DecidableEq

/-- Bars with what is written beside them. -/
structure Chart where
  mode : String
  xTitle : String
  yTitle : String
  yFormat : String
  traces : List Trace
  deriving DecidableEq

/-- The causes for which there is no chart. -/
inductive ChartError where
  /-- A probability is too large for a double. -/
  | tooLarge
  /-- A roll is labelled as the column of outcomes is. -/
  | labelTaken
  deriving DecidableEq, Repr

namespace Chart

/-- The name of the column of outcomes. -/
def outcomeColumn : String := "outcome"

/-- The outcomes of several rolls, in ascending order. -/
def outcomes (rolls : List Roll) : List Int :=
  ((rolls.map Roll.table).foldr (· + ·) Table.empty).outcomes

/-- The bars of a roll at the given outcomes; an outcome that it lacks has probability zero. There
are none if a probability is too large for a double. -/
def trace? (values : List Int) (label : String) (r : Roll) : Option Trace := do
  let y ← values.mapM fun v => Binary64.ofRat? (r.table.weight v)
  let x := values.map fun v => String.ofList (Number.signedNumeral v)
  return { label := label, x := x, y := y }

/-- The bars of labelled rolls, each over those of the others. -/
def ofTraces (traces : List Trace) : Chart where
  mode := "overlay"
  xTitle := "value"
  yTitle := "probability"
  yFormat := "%"
  traces := traces

/-- The chart of labelled rolls. Of several rolls under one label the last is shown. All
probabilities are rounded before the labels are looked at. -/
def ofRolls (rolls : List (String × Roll)) : Except ChartError Chart :=
  let labelled := Keyed.ofPairs rolls
  let values := outcomes (labelled.map (·.2))
  match labelled.mapM fun e => trace? values e.1 e.2 with
  | none => .error .tooLarge
  | some traces =>
    if (Keyed.get? outcomeColumn labelled).isSome then .error .labelTaken else .ok (ofTraces traces)

/-- The chart of a single roll, labelled by its name. -/
def ofRoll (r : Roll) : Except ChartError Chart := ofRolls [(r.name, r)]

end Chart

end DiceLaw
