import DiceLaw.Table.Basic

/-!
# Cumulative weights

## Main definitions

* `runningSums`: each entry with the sum of the weights up to it
* `Table.cumulative`: the running sums of a table

## Main results

* `map_fst_runningSums`: the outcomes stay in place
-/

namespace DiceLaw

/-- Each outcome with the sum of the weights up to it, over and above a start. -/
def runningSums (start : Rat) : List Entry → List Entry
  | [] => []
  | (v, w) :: rest => (v, start + w) :: runningSums (start + w) rest

/-- The running sums of a table. -/
def Table.cumulative (t : Table) : List Entry := runningSums 0 t.entries

theorem map_fst_runningSums (start : Rat) (entries : List Entry) :
    (runningSums start entries).map (·.1) = entries.map (·.1) := by
  induction entries generalizing start with
  | nil => rfl
  | cons e rest ih => simp [runningSums, ih]

end DiceLaw
