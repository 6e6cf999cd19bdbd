import DiceLaw.Formula.Notation

/-!
# Naming the nodes of a formula

The full form of a formula: each node by its name, followed by its parts in brackets.

## Main definitions

* `Joint.nodeName`: the name of a joint's node
* `Formula.nodeText`: the full form of a formula
-/

namespace DiceLaw

/-- The name of a joint's node. -/
def Joint.nodeName : Joint → String
  | .sum => "SumCompound"
  | .quotient => "DivisionCompound"
  | .product => "ProductCompound"
  | .sampleSum => "SampleSumCompound"
  | .max => "MaxCompound"
  | .min => "MinCompound"

namespace Formula

/-- A name followed by parts in brackets. -/
def node (name : String) (parts : List String) : String :=
  name ++ "(" ++ ", ".intercalate parts ++ ")"

/-- The text of an integer. -/
def integerText (n : Int) : String := String.ofList (Number.signedNumeral n)

mutual

/-- The full form of a formula. -/
def nodeText : Formula → String
  | .constant value => node "Constant" [integerText value]
  | .die d => node "FairDie" [integerText d.lo, integerText d.hi]
  | .join joint first rest => node joint.nodeName (nodeText first :: nodeTexts rest)
  | .absolute body => node "Absolute" [nodeText body]
  | .explode body threshold limit =>
    node "Explode" [nodeText body, String.ofList (thresholdText threshold), integerText limit]

/-- The full forms of several formulas. -/
def nodeTexts : List Formula → List String
  | [] => []
  | f :: rest => nodeText f :: nodeTexts rest

end

end Formula

end DiceLaw
