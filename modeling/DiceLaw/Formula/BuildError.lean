import DiceLaw.Formula.NodeText
import DiceLaw.Symbol.ReadError

/-!
# Why parts are not a formula

## Main definitions

* `BuildError`: the causes
* `BuildError.message`: what is said about each
-/

namespace DiceLaw

/-- The causes for which parts make no formula. -/
inductive BuildError where
  /-- The symbols are not a formula. -/
  | reading (e : ReadError)
  /-- A joint without parts. -/
  | noParts (joint : Joint)
  /-- A die whose last face lies below its first. -/
  | reversedDie (lo hi : Int)
  deriving DecidableEq, Repr

/-- What is said about a cause. -/
def BuildError.message : BuildError → String
  | .reading e => e.message
  | .noParts joint => joint.nodeName ++ " needs at least one child"
  | .reversedDie lo hi =>
    "die with maximum " ++ Formula.integerText hi ++ " below minimum " ++ Formula.integerText lo

end DiceLaw
