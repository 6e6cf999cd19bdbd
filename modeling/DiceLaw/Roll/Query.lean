import DiceLaw.Number.DecimalText
import DiceLaw.Roll.Statistics

/-!
# Probabilities and quantiles

The probability that a roll comes out below, at, or above a number is read off the running sums.

## Main definitions

* `Roll.sumWhile`: the running sum at the last outcome of an initial stretch
* `Roll.prob`, `Roll.probLt`, `Roll.probLte`, `Roll.probGte`, `Roll.probGt`: probabilities
* `Comparison`, `Roll.compareWith`: all five at once
* `Roll.quantile`, `Roll.quantileOf`: the first outcome at which a probability is reached
-/

namespace DiceLaw

namespace Roll

variable (r : Roll)

/-! ## Probabilities -/

/-- The running sum at the last of the first outcomes that have a property; zero before all. -/
def sumWhile (p : Int → Bool) : Rat :=
  match (r.table.cumulative.takeWhile fun e => p e.1).getLast? with
  | some e => e.2
  | none => 0

/-- The probability of a number. -/
def prob (v : Int) : Rat := r.table.weight v

/-- The probability of less than a number. -/
def probLt (v : Int) : Rat := r.sumWhile fun u => u < v

/-- The probability of at most a number. -/
def probLte (v : Int) : Rat := r.sumWhile fun u => u ≤ v

/-- The probability of at least a number. -/
def probGte (v : Int) : Rat := 1 - r.probLt v

/-- The probability of more than a number. -/
def probGt (v : Int) : Rat := 1 - r.probLte v

end Roll

/-- The probabilities on all sides of a number. -/
structure Comparison where
  lt : Rat
  lte : Rat
  eq : Rat
  gte : Rat
  gt : Rat
  deriving DecidableEq, Repr

/-- The probabilities on all sides of a number, from two of them. -/
def Roll.compareWith (r : Roll) (v : Int) : Comparison :=
  let gt := r.probGt v
  let eq := r.prob v
  let lte := 1 - gt
  { lt := lte - eq, lte := lte, eq := eq, gte := gt + eq, gt := gt }

/-! ## Quantiles -/

/-- What is said about a level that the running sums do not reach. -/
def unreachedMessage (level : Binary64) : String :=
  "cumulative distribution does not reach " ++ level.text

/-- The causes for which there is no quantile. -/
inductive QuantileError where
  /-- A number is too large for a double. -/
  | tooLarge
  /-- The running sums do not reach the probability. -/
  | unreached (p : Binary64)
  deriving DecidableEq

/-- The first outcome whose running sum, rounded to a double, reaches a probability. -/
def firstReaching (p : Binary64) : List Entry → Except QuantileError Int
  | [] => .error (.unreached p)
  | (v, c) :: rest =>
    (Binary64.ofRat? c).elim (.error .tooLarge) fun c =>
      if p.le c then .ok v else firstReaching p rest

theorem firstReaching_cons {p c : Binary64} {v : Int} {sum : Rat} {rest : List Entry}
    (h : Binary64.ofRat? sum = some c) :
    firstReaching p ((v, sum) :: rest) = if p.le c then .ok v else firstReaching p rest := by
  rw [firstReaching, h, Option.elim_some]

/-- The first outcome at which a probability is reached. From one on it is the greatest outcome. -/
def Roll.quantile (r : Roll) (p : Binary64) : Except QuantileError Int :=
  if Binary64.one.le p then .ok r.greatest else firstReaching p r.table.cumulative

/-- The quantile of an exact probability, which is rounded to a double. -/
def Roll.quantileOf (r : Roll) (p : Rat) : Except QuantileError Int :=
  (Binary64.ofRat? p).elim (.error .tooLarge) r.quantile

end DiceLaw
