import DiceLaw.Table.Basic
import DiceLaw.Table.Operator

/-!
# Combining independent tables

The outcomes of independent tables are combined pair by pair; the weights of a pair are multiplied,
and pairs with the same result are added up.

## Main definitions

* `Table.combine`: two tables under a function of their outcomes
* `Table.convolve`, `Table.convolveAll`: tables under an operator
* `Table.convolveNamed`, `Table.convolveAllNamed`: tables under an operator given by name
* `Table.absolute`: the sizes of the outcomes
-/

namespace DiceLaw

namespace Table

/-- The results of one outcome, of a given weight, with each outcome of a table. -/
def row (f : Int → Int → Int) (e : Entry) (t : Table) : Table :=
  gather (t.entries.map fun g => (f e.1 g.1, e.2 * g.2))

/-- Two independent tables under a function of their outcomes. -/
def combine (f : Int → Int → Int) (a b : Table) : Table :=
  a.entries.foldr (fun e t => row f e b + t) empty

/-- A pair of outcomes on which an operator fails can occur. -/
def meetsFailure (op : Operator) (a b : Table) : Bool :=
  !a.isEmpty && b.outcomes.any op.failsOn

/-- Two independent tables under an operator. -/
def convolve (op : Operator) (a b : Table) : Except LawError Table :=
  if meetsFailure op a b then .error .divisionByZero else .ok (combine op.combine a b)

/-- Two independent tables under an operator that is given by name. The name matters only when
there is a pair of outcomes to combine. -/
def convolveNamed (name : String) (a b : Table) : Except LawError Table :=
  match Operator.ofName? name with
  | some op => convolve op a b
  | none => if a.isEmpty || b.isEmpty then .ok empty else .error (.unknownOperator name)

/-- Tables taken together from left to right. -/
def chain (f : Table → Table → Except LawError Table) : List Table → Except LawError Table
  | [] => .error .noTables
  | first :: rest => rest.foldlM f first

/-- Independent tables under an operator, from left to right. -/
def convolveAll (op : Operator) (tables : List Table) : Except LawError Table :=
  chain (convolve op) tables

/-- Independent tables under an operator that is given by name. -/
def convolveAllNamed (name : String) (tables : List Table) : Except LawError Table :=
  chain (convolveNamed name) tables

/-- The sizes of the outcomes. -/
def absolute (t : Table) : Table :=
  gather (t.entries.map fun e => ((e.1.natAbs : Int), e.2))

end Table

end DiceLaw
