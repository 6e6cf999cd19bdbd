import DiceLaw.Formula.Law
import DiceLaw.Formula.Notation

/-!
# Rolls

A roll has a name and a table with at least one outcome. A formula makes a roll that is named by
its text.

## Main definitions

* `Roll`: the rolls
* `RollError`, `RollError.message?`: why there is no roll, and what is said about it
* `Roll.ofTable?`, `Roll.ofFormula?`: the roll of a table, and of a formula
-/

namespace DiceLaw

/-- A named table with at least one outcome. -/
structure Roll where
  name : String
  table : Table
  occupied : table.entries ≠ []

/-- The causes for which there is no roll. -/
inductive RollError where
  /-- The formula has no law. -/
  | law (e : LawError)
  /-- The table has no outcome. -/
  | emptyTable
  deriving DecidableEq, Repr

/-- What is said about a cause. -/
def RollError.message? : RollError → Option String
  | .law e => e.message?
  | .emptyTable => some "cannot summarize an empty distribution"

namespace Roll

/-- The roll of a table under a name. -/
def ofTable? (name : String) (table : Table) : Except RollError Roll :=
  if h : table.entries = [] then .error .emptyTable else .ok ⟨name, table, h⟩

/-- The roll of a formula, named by its text. -/
def ofFormula? (f : Formula) : Except RollError Roll :=
  match f.law with
  | .error e => .error (.law e)
  | .ok table => ofTable? f.text table

theorem ofTable?_eq_ok {name : String} {table : Table} {r : Roll}
    (h : ofTable? name table = .ok r) : r.name = name ∧ r.table = table := by
  unfold ofTable? at h
  split at h
  · cases h
  · obtain rfl := Except.ok.inj h
    exact ⟨rfl, rfl⟩

end Roll

end DiceLaw
