/-!
# Operators on outcomes

Two outcomes are combined by an operator. Only division can fail, by a divisor of zero.

## Main definitions

* `LawError`, `LawError.message?`: why a table cannot be had, and what is said about it
* `nearestQuotient`: division rounded to the nearest whole number
* `Operator`, `Operator.combine`, `Operator.apply`: the operators, in total and with their failure
* `Operator.ofName?`, `applyNamed`: operators by name
-/

namespace DiceLaw

/-- The causes for which a table cannot be had. -/
inductive LawError where
  /-- A quotient whose divisor can be zero. -/
  | divisionByZero
  /-- A number of repetitions below zero. -/
  | negativeCount (count : Int)
  /-- A name that no operator has. -/
  | unknownOperator (name : String)
  /-- No table to start from. -/
  | noTables
  deriving DecidableEq, Repr

/-- What is said about a cause. A division by zero is noticed by the division itself, and nothing is
said about it here. -/
def LawError.message? : LawError → Option String
  | .divisionByZero => none
  | .negativeCount count => some ("cannot sample a distribution " ++ toString count ++ " times")
  | .unknownOperator name => some ("unknown combinator " ++ name)
  | .noTables => some "cannot convolve an empty list of distributions"

/-- The whole number nearest to a quotient. A half goes away from zero. -/
def nearestQuotient (a b : Int) : Int :=
  let quotient := a.natAbs / b.natAbs
  let remainder := a.natAbs % b.natAbs
  let size := if b.natAbs ≤ 2 * remainder then quotient + 1 else quotient
  if (a < 0) = (b < 0) then size else -size

/-- The operators that combine two outcomes. -/
inductive Operator where
  | sum
  | product
  | quotient
  | max
  | min
  deriving DecidableEq, Repr

namespace Operator

/-- The operator of a name. -/
def ofName? : String → Option Operator
  | "+" => some .sum
  | "*" => some .product
  | "/" => some .quotient
  | "max" => some .max
  | "min" => some .min
  | _ => none

/-- The combination of two outcomes. A quotient by zero has no meaning. -/
def combine : Operator → Int → Int → Int
  | .sum => fun a b => a + b
  | .product => fun a b => a * b
  | .quotient => nearestQuotient
  | .max => fun a b => Max.max a b
  | .min => fun a b => Min.min a b

/-- An operator fails on a second operand if it is a division by zero. -/
def failsOn (op : Operator) (b : Int) : Bool :=
  op = .quotient && b = 0

/-- The combination of two outcomes, if it has a meaning. -/
def apply (op : Operator) (a b : Int) : Except LawError Int :=
  if op.failsOn b then .error .divisionByZero else .ok (op.combine a b)

end Operator

/-- The combination of two outcomes by an operator that is given by name. -/
def applyNamed (name : String) (a b : Int) : Except LawError Int :=
  match Operator.ofName? name with
  | some op => op.apply a b
  | none => .error (.unknownOperator name)

end DiceLaw
