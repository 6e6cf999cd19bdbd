import DiceLaw.Proofs.Law.Assignment

/-!
# Tables in the order in which their numbers came up

Tables can be combined by loops over their entries, in whatever order the entries are listed. A
weight is added in the place of its number if the number has come up before, and is listed behind
all others if it has not. The order of the result depends on the orders that the loops went through;
the table that is listed does not.

## Main definitions

* `Listing`: entries in some order, each number once
* `Listing.table`: the table that is listed
* `Listing.accrue`: a weight added at a number
* `Listing.convolve`, `Listing.convolveAll`: listings combined entry by entry

## Main results

* `Listing.table_eq_iff`: the listings of a table
* `Listing.table_accrue`, `Listing.table_accrueAll`: the table of a listing with weights added
* `Listing.table_convolve`, `Listing.table_convolveAll`: the table of listings combined
-/

namespace DiceLaw

/-- The entries of a table in some order. Each number is listed once. -/
structure Listing where
  entries : List Entry
  nodup : (entries.map (·.1)).Nodup

namespace Listing

variable {u v : Int} {w : Rat} {entries : List Entry} {l : Listing}

/-- The table that is listed. -/
def table (l : Listing) : Table := .ofAssignments l.entries

theorem entries_table_perm (l : Listing) : l.table.entries.Perm l.entries :=
  Table.entries_ofAssignments_perm l.nodup

/-- The listings of a table have its entries, in some order. -/
theorem table_eq_iff {t : Table} : l.table = t ↔ l.entries.Perm t.entries := by
  constructor
  · rintro rfl
    exact l.entries_table_perm.symm
  · intro h
    exact Table.eq_of_entries_perm (l.entries_table_perm.trans h)

theorem mem_outcomes_table : v ∈ l.table.outcomes ↔ v ∈ l.entries.map (·.1) :=
  Table.mem_outcomes_ofAssignments

theorem expectation_table (l : Listing) (f : Int → Rat) :
    l.table.expectation f = expectationOver f l.entries := by
  rw [Table.expectation, Table.expectationOver_eq_sum_map, Table.expectationOver_eq_sum_map,
    (l.entries_table_perm.map _).sum_eq]

/-! ## Adding weights -/

/-- Entries with a weight added at a number: in its place, or behind all others. -/
def accrueIn (v : Int) (w : Rat) : List Entry → List Entry
  | [] => [(v, w)]
  | (u, x) :: rest => if u = v then (u, x + w) :: rest else (u, x) :: accrueIn v w rest

theorem mem_accrueIn : u ∈ (accrueIn v w entries).map (·.1) ↔ u = v ∨ u ∈ entries.map (·.1) := by
  induction entries with
  | nil => simp [accrueIn]
  | cons e rest ih =>
    rw [accrueIn]
    split
    · rename_i hv
      subst hv
      simp
    · rw [List.map_cons, List.mem_cons, ih, List.map_cons, List.mem_cons, or_left_comm]

theorem nodup_accrueIn (h : (entries.map (·.1)).Nodup) :
    ((accrueIn v w entries).map (·.1)).Nodup := by
  induction entries with
  | nil => simp [accrueIn]
  | cons e rest ih =>
    obtain ⟨hhead, hrest⟩ := List.nodup_cons.1 h
    rw [accrueIn]
    split
    · exact List.nodup_cons.2 ⟨hhead, hrest⟩
    · rename_i hv
      refine List.nodup_cons.2 ⟨fun hmem => ?_, ih hrest⟩
      -- the number in front is not the new one, and is not listed behind
      rcases mem_accrueIn.1 hmem with rfl | hmem
      · exact hv rfl
      · exact hhead hmem

theorem expectationOver_accrueIn (f : Int → Rat) :
    expectationOver f (accrueIn v w entries)
      = f v * w + expectationOver f entries := by
  induction entries with
  | nil => rfl
  | cons e rest ih =>
    rw [accrueIn]
    split
    · rename_i hv
      subst hv
      rw [expectationOver, expectationOver]
      ring
    · rw [expectationOver, ih, expectationOver]
      ring

/-- The listing of nothing. -/
def empty : Listing := ⟨[], List.nodup_nil⟩

/-- A weight added at a number: in its place, or behind all others. -/
def accrue (v : Int) (w : Rat) (l : Listing) : Listing :=
  ⟨accrueIn v w l.entries, nodup_accrueIn l.nodup⟩

/-- Weights added one after the other. -/
def accrueAll (arising : List Entry) (l : Listing) : Listing :=
  arising.foldl (fun l e => l.accrue e.1 e.2) l

theorem table_accrue (v : Int) (w : Rat) (l : Listing) :
    (l.accrue v w).table = l.table.insert v w := by
  refine Table.ext_expectation (fun u => ?_) fun f => ?_
  · rw [mem_outcomes_table, Table.mem_outcomes_insert, mem_outcomes_table, accrue, mem_accrueIn]
  · rw [expectation_table, Table.expectation_insert, expectation_table, accrue,
      expectationOver_accrueIn]

theorem accrueAll_cons (e : Entry) (rest : List Entry) (l : Listing) :
    l.accrueAll (e :: rest) = (l.accrue e.1 e.2).accrueAll rest := rfl

theorem accrueAll_append (xs ys : List Entry) (l : Listing) :
    l.accrueAll (xs ++ ys) = (l.accrueAll xs).accrueAll ys := List.foldl_append

/-- Weights are added to a table in whatever order they arise. -/
theorem table_accrueAll (arising : List Entry) (l : Listing) :
    (l.accrueAll arising).table = l.table + Table.gather arising := by
  induction arising generalizing l with
  | nil => exact (Table.add_empty _).symm
  | cons e rest ih => rw [accrueAll_cons, ih, table_accrue, Table.gather_cons, Table.insert_add]

/-! ## Combining entry by entry -/

/-- Adds the weight of a pair of entries at its result, if there is one. -/
def addPair (op : Operator) (d : Entry) (l : Listing) (e : Entry) : Except LawError Listing := do
  let v ← op.apply d.1 e.1
  return l.accrue v (d.2 * e.2)

/-- Two listings under an operator, entry by entry. -/
def convolve (op : Operator) (a b : Listing) : Except LawError Listing :=
  a.entries.foldlM (fun l d => b.entries.foldlM (addPair op d) l) empty

/-- Listings under an operator, from left to right. -/
def convolveAll (op : Operator) : List Listing → Except LawError Listing
  | [] => .error .noTables
  | first :: rest => rest.foldlM (convolve op) first

/-- One entry goes through the entries of the other side, up to the first on which the operator
fails. -/
theorem foldlM_addPair (op : Operator) (d : Entry) (ys : List Entry) (l : Listing) :
    ys.foldlM (addPair op d) l =
      if ys.any fun e => op.failsOn e.1 then .error .divisionByZero
      else .ok (l.accrueAll (ys.map fun e => (op.combine d.1 e.1, d.2 * e.2))) := by
  induction ys generalizing l with
  | nil => rfl
  | cons e rest ih =>
    rw [List.foldlM_cons, addPair, Operator.apply, List.any_cons]
    cases op.failsOn e.1 with
    | true => rfl
    | false => exact ih _

/-- All entries go through the entries of the other side, unless the operator fails on one of
these. -/
theorem foldlM_rows (op : Operator) (xs ys : List Entry) (l : Listing) :
    xs.foldlM (fun l d => ys.foldlM (addPair op d) l) l =
      if !xs.isEmpty && ys.any fun e => op.failsOn e.1 then .error .divisionByZero
      else .ok (l.accrueAll (Table.pairwise op.combine xs ys)) := by
  cases hfails : ys.any fun e => op.failsOn e.1 with
  | true =>
    cases xs with
    | nil => rfl
    | cons d rest =>
      rw [List.foldlM_cons, foldlM_addPair, hfails]
      rfl
  | false =>
    rw [Bool.and_false, if_neg Bool.false_ne_true]
    induction xs generalizing l with
    | nil => rfl
    | cons d rest ih =>
      rw [List.foldlM_cons, foldlM_addPair, hfails, Table.pairwise, List.flatMap_cons,
        accrueAll_append]
      exact ih _

theorem pairwise_table_perm (g : Int → Int → Int) (a b : Listing) :
    (Table.pairwise g a.entries b.entries).Perm
      (Table.pairwise g a.table.entries b.table.entries) :=
  (a.entries_table_perm.symm.flatMap_right _).trans
    (List.Perm.flatMap_left _ fun _ _ => b.entries_table_perm.symm.map _)

theorem meetsFailure_table (op : Operator) (a b : Listing) :
    Table.meetsFailure op a.table b.table
      = (!a.entries.isEmpty && b.entries.any fun e => op.failsOn e.1) := by
  rw [Table.meetsFailure, Table.isEmpty, Table.outcomes, List.any_map,
    a.entries_table_perm.isEmpty_eq, b.entries_table_perm.any_eq]
  rfl

/-- The table of two listings under an operator is that of their tables. -/
theorem table_convolve (op : Operator) (a b : Listing) :
    (convolve op a b).map table = Table.convolve op a.table b.table := by
  rw [convolve, foldlM_rows, Table.convolve, meetsFailure_table]
  split
  · rfl
  · rw [Except.map, table_accrueAll, Table.combine_eq_gather,
      Table.gather_perm (pairwise_table_perm op.combine a b)]
    rfl

/-- The table of several listings under an operator is that of their tables. -/
theorem table_convolveAll (op : Operator) (listings : List Listing) :
    (convolveAll op listings).map table = Table.convolveAll op (listings.map table) := by
  cases listings with
  | nil => rfl
  | cons first rest =>
    show (rest.foldlM (convolve op) first).map table
      = (rest.map table).foldlM (Table.convolve op) first.table
    induction rest generalizing first with
    | nil => rfl
    | cons next rest ih =>
      rw [List.map_cons, List.foldlM_cons, List.foldlM_cons, ← table_convolve]
      cases convolve op first next with
      | error e => rfl
      | ok l => exact ih l

end Listing

end DiceLaw
