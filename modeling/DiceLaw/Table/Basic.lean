/-!
# Tables of weights

A table gives weights to finitely many whole numbers, its outcomes. It lists them in ascending
order, so two tables with the same weights are equal. Weights may be zero or negative, and need not
sum to one; an outcome of weight zero is still an outcome.

## Main definitions

* `Table`: the tables
* `Table.weight`, `Table.outcomes`: the weight of a number, and the numbers that have one
* `Table.insert`, `Table.assign`: adding to one weight, and replacing it
* `Table.add`, `Table.scale`, `Table.filter`: adding, scaling and restricting tables
* `Table.gather`: the sum of the weights that arise at each number

## Main results

* `Table.addEntries_ascending`: sums of tables are in order
-/

namespace DiceLaw

/-- An outcome and its weight. -/
abbrev Entry := Int × Rat

/-- Outcomes in strictly ascending order. -/
abbrev Ascending (entries : List Entry) : Prop := entries.Pairwise fun a b => a.1 < b.1

/-- A table of weights. -/
structure Table where
  entries : List Entry
  ascending : Ascending entries
  deriving DecidableEq

namespace Table

/-! ## Sums of entries -/

/-- Entries with a weight added at one outcome; `more` says what is done with the entries above
it. -/
def weave (v : Int) (w : Rat) (more : List Entry → List Entry) : List Entry → List Entry
  | [] => (v, w) :: more []
  | (u, x) :: rest =>
    if u < v then (u, x) :: weave v w more rest
    else if u = v then (v, w + x) :: more rest
    else (v, w) :: more ((u, x) :: rest)

/-- Entries added to entries, outcome by outcome. -/
def addEntries : List Entry → List Entry → List Entry
  | [] => fun entries => entries
  | (v, w) :: rest => weave v w (addEntries rest)

/-- The weight of a number among entries; zero if it is no outcome. -/
def weightIn (v : Int) : List Entry → Rat
  | [] => 0
  | (u, x) :: rest => if u = v then x else weightIn v rest

section

variable {b v : Int} {w : Rat} {more : List Entry → List Entry} {xs ys : List Entry}

theorem weave_above (hmore : ∀ l : List Entry, (∀ e ∈ l, b < e.1) → ∀ e ∈ more l, b < e.1)
    (hv : b < v) (hys : ∀ e ∈ ys, b < e.1) : ∀ e ∈ weave v w more ys, b < e.1 := by
  induction ys with
  | nil =>
    intro e he
    rcases List.mem_cons.1 he with rfl | he
    · exact hv
    · exact hmore [] hys e he
  | cons head rest ih =>
    have hrest : ∀ e ∈ rest, b < e.1 := fun e he => hys e (List.mem_cons_of_mem _ he)
    intro e he
    simp only [weave] at he
    split at he
    · rcases List.mem_cons.1 he with rfl | he
      · exact hys _ List.mem_cons_self
      · exact ih hrest e he
    · split at he
      · rcases List.mem_cons.1 he with rfl | he
        · exact hv
        · exact hmore rest hrest e he
      · rcases List.mem_cons.1 he with rfl | he
        · exact hv
        · exact hmore _ hys e he

theorem addEntries_above (hxs : ∀ e ∈ xs, b < e.1) (hys : ∀ e ∈ ys, b < e.1) :
    ∀ e ∈ addEntries xs ys, b < e.1 := by
  induction xs generalizing ys with
  | nil => exact hys
  | cons head rest ih =>
    have hrest : ∀ e ∈ rest, b < e.1 := fun e he => hxs e (List.mem_cons_of_mem _ he)
    exact weave_above (fun l hl => ih hrest hl) (hxs _ List.mem_cons_self) hys

/-- Entries in order, added to entries in order, are in order. -/
theorem addEntries_ascending (hxs : Ascending xs) (hys : Ascending ys) :
    Ascending (addEntries xs ys) := by
  induction xs generalizing ys with
  | nil => exact hys
  | cons head rest ih =>
    obtain ⟨v, w⟩ := head
    obtain ⟨hv, hrest⟩ := List.pairwise_cons.1 hxs
    induction ys with
    | nil =>
      exact List.pairwise_cons.2
        ⟨fun e he => addEntries_above hv (by simp) e he, ih hrest hys⟩
    | cons next ys ihy =>
      obtain ⟨u, x⟩ := next
      obtain ⟨hu, hys'⟩ := List.pairwise_cons.1 hys
      simp only [addEntries, weave]
      split
      · rename_i huv
        have hvu : ∀ e ∈ (v, w) :: rest, u < e.1 := by
          intro e he
          rcases List.mem_cons.1 he with rfl | he
          · exact huv
          · exact Int.lt_trans huv (hv e he)
        exact List.pairwise_cons.2 ⟨fun e he => addEntries_above hvu hu e he, ihy hys'⟩
      · split
        · rename_i huv
          subst huv
          exact List.pairwise_cons.2
            ⟨fun e he => addEntries_above hv hu e he, ih hrest hys'⟩
        · rename_i hle hne
          have hvu : v < u := by omega
          have habove : ∀ e ∈ (u, x) :: ys, v < e.1 := by
            intro e he
            rcases List.mem_cons.1 he with rfl | he
            · exact hvu
            · exact Int.lt_trans hvu (hu e he)
          exact List.pairwise_cons.2
            ⟨fun e he => addEntries_above hv habove e he, ih hrest hys⟩

end

/-! ## Tables -/

/-- The table without outcomes. -/
def empty : Table := ⟨[], List.Pairwise.nil⟩

/-- The table of a sure outcome. -/
def sure (v : Int) : Table := ⟨[(v, 1)], by simp⟩

instance : Inhabited Table := ⟨empty⟩

/-- The numbers that have a weight, in ascending order. -/
def outcomes (t : Table) : List Int := t.entries.map (·.1)

/-- The weight of a number; zero if it is no outcome. -/
def weight (t : Table) (v : Int) : Rat := weightIn v t.entries

/-- A table is empty when it has no outcome. -/
def isEmpty (t : Table) : Bool := t.entries.isEmpty

/-- The sum of two tables, outcome by outcome. -/
def add (a b : Table) : Table :=
  ⟨addEntries a.entries b.entries, addEntries_ascending a.ascending b.ascending⟩

instance : Add Table := ⟨add⟩

/-- Adds a weight at one number. -/
def insert (v : Int) (w : Rat) (t : Table) : Table :=
  ⟨addEntries [(v, w)] t.entries, addEntries_ascending (by simp) t.ascending⟩

/-- Each weight multiplied by a factor. -/
def scale (factor : Rat) (t : Table) : Table :=
  ⟨t.entries.map fun e => (e.1, e.2 * factor), List.pairwise_map.2 t.ascending⟩

/-- The outcomes with a property, with their weights. -/
def filter (p : Int → Bool) (t : Table) : Table :=
  ⟨t.entries.filter fun e => p e.1, t.ascending.filter _⟩

/-- Gives a weight to one number, whatever it had before. -/
def assign (v : Int) (w : Rat) (t : Table) : Table :=
  (t.filter fun u => u != v).insert v w

/-- The table of numbers that are given weights one after the other; the last weight given to a
number is the one it keeps. -/
def ofAssignments (entries : List Entry) : Table :=
  entries.foldl (fun t e => t.assign e.1 e.2) empty

/-- The table of numbers that weights arise at; the weights that arise at one number are added. -/
def gather (entries : List Entry) : Table :=
  entries.foldr (fun e t => t.insert e.1 e.2) empty

@[simp] theorem entries_empty : empty.entries = [] := rfl

@[simp] theorem entries_add (a b : Table) : (a + b).entries = addEntries a.entries b.entries := rfl

@[simp] theorem gather_nil : gather [] = empty := rfl

theorem gather_cons (e : Entry) (rest : List Entry) :
    gather (e :: rest) = (gather rest).insert e.1 e.2 := rfl

end Table

end DiceLaw
