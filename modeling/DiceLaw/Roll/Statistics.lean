import DiceLaw.Number.Binary64
import DiceLaw.Number.Numeral
import DiceLaw.Roll.Basic
import DiceLaw.Table.Cumulative
import DiceLaw.Table.Expectation

/-!
# Statistics of a roll

Mean and variance are exact; the standard deviation is a double.

## Main definitions

* `Roll.least`, `Roll.greatest`, `Roll.median`, `Roll.modes`: outcomes of note
* `Roll.mean`, `Roll.variance`, `Roll.deviation`: moments
* `Roll.caption`: the name with the mean
-/

namespace DiceLaw

namespace Roll

variable (r : Roll)

/-- The least outcome. -/
def least : Int := (r.table.entries.head r.occupied).1

/-- The greatest outcome. -/
def greatest : Int := (r.table.entries.getLast r.occupied).1

/-- The first outcome at which half of all weight is reached; the greatest one if it never is. -/
def median : Int :=
  match r.table.cumulative.find? fun e => (1 : Rat) / 2 ≤ e.2 with
  | some e => e.1
  | none => r.greatest

/-- The greatest weight, which counts from minus one upwards. -/
def peak : Rat := r.table.entries.foldl (fun best e => if best < e.2 then e.2 else best) (-1)

/-- The outcomes of greatest weight. -/
def modes : List Int :=
  let peak := r.peak
  (r.table.entries.filter fun e => e.2 = peak).map (·.1)

/-- The sum of the outcomes, each times its weight. -/
def mean : Rat := r.table.expectation fun v => v

/-- The sum of the squared distances from the mean, each times its weight. -/
def variance : Rat :=
  let mean := r.mean
  r.table.expectation fun v => ((v : Rat) - mean) * ((v : Rat) - mean)

end Roll

/-! ## Standard deviation -/

/-- The causes for which a standard deviation is no double. -/
inductive DeviationError where
  /-- The variance is too large for a double. -/
  | tooLarge
  /-- The variance is negative. -/
  | negative
  deriving DecidableEq, Repr

/-- The standard deviation: the root of the variance, which is rounded to a double first. -/
def Roll.deviation (r : Roll) : Except DeviationError Binary64 :=
  match Binary64.ofRat? r.variance with
  | none => .error .tooLarge
  | some variance =>
    match variance.sqrt? with
    | some root => .ok root
    | none => .error .negative

/-! ## Caption -/

/-- A fraction in lowest terms; a whole number has no denominator. -/
def fractionText (q : Rat) : String :=
  let numerator := String.ofList (Number.signedNumeral q.num)
  if q.den = 1 then numerator else numerator ++ "/" ++ String.ofList (Number.numeral q.den)

/-- The name of a roll with its mean. -/
def Roll.caption (r : Roll) : String :=
  "<Dice " ++ r.name ++ " mean=" ++ fractionText r.mean ++ ">"

end DiceLaw
