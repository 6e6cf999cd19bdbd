/-!
# Joints

The six ways in which several parts make one formula.

## Main definitions

* `Joint`
-/

namespace DiceLaw

/-- A way of joining parts. -/
inductive Joint where
  | sum
  | quotient
  | product
  | sampleSum
  | max
  | min
  deriving DecidableEq, Repr

end DiceLaw
