import DiceLaw.Proofs.Law.Listing
import DiceLaw.Proofs.Law.Mirror

/-!
# Order and grouping of operands

Sums, products, greatest and least outcomes do not depend on the order of their operands, nor on how
operands that stand side by side are grouped. A quotient depends on both: only operands in front may
be grouped. And no operator depends on the order in which the entries of its operands are listed.

## Main results

* `Table.convolveAll_perm`: operands in any order
* `Table.convolveAll_groups`: groups of operands
* `Table.convolveAll_lead`: a group in front
* `Table.convolveAll_regrouped`: order and grouping together
-/

namespace DiceLaw

/-! ## Operators -/

namespace Operator

variable {op : Operator}

theorem combine_comm (hop : op ≠ .quotient) (x y : Int) : op.combine x y = op.combine y x := by
  cases op with
  | sum => exact Int.add_comm x y
  | product => exact Int.mul_comm x y
  | quotient => exact absurd rfl hop
  | max => exact Int.max_comm x y
  | min => exact Int.min_comm x y

theorem combine_assoc (hop : op ≠ .quotient) (x y z : Int) :
    op.combine (op.combine x y) z = op.combine x (op.combine y z) := by
  cases op with
  | sum => exact Int.add_assoc x y z
  | product => exact Int.mul_assoc x y z
  | quotient => exact absurd rfl hop
  | max => exact max_assoc x y z
  | min => exact min_assoc x y z

end Operator

namespace Table

variable {op : Operator} {t first : Table} {tables permuted lead rest : List Table}
  {groups : List (List Table)}

section

variable (hop : op ≠ .quotient)

include hop

theorem commutative_combine : Std.Commutative (combine op.combine) :=
  ⟨combine_comm (Operator.combine_comm hop)⟩

theorem associative_combine : Std.Associative (combine op.combine) :=
  ⟨combine_assoc (Operator.combine_assoc hop)⟩

theorem convolveAll_cons (first : Table) (rest : List Table) :
    convolveAll op (first :: rest) = .ok (rest.foldl (combine op.combine) first) :=
  foldlM_convolve_eq_ok hop rest first

/-! ## Order -/

/-- The operands may come in any order. -/
theorem convolveAll_perm (h : permuted.Perm tables) :
    convolveAll op permuted = convolveAll op tables := by
  have hcomm := commutative_combine hop
  have hassoc := associative_combine hop
  -- no table is left alone by greatest and least outcomes, so that there is no neutral one to start
  -- from: the first operand is kept apart, and changes only when it is swapped
  induction h with
  | nil => rfl
  | cons first h _ => rw [convolveAll_cons hop, convolveAll_cons hop, h.foldl_op_eq]
  | swap a b rest =>
    rw [convolveAll_cons hop, convolveAll_cons hop, List.foldl_cons, List.foldl_cons,
      hcomm.comm a b]
  | trans _ _ ih ih' => exact ih.trans ih'

/-! ## Grouping -/

/-- Groups behind a table have results that stand in for them. -/
theorem exists_foldl_flatten (hgroups : ∀ g ∈ groups, g ≠ []) (a : Table) :
    ∃ ts, groups.mapM (convolveAll op) = .ok ts ∧
      ts.foldl (combine op.combine) a = groups.flatten.foldl (combine op.combine) a := by
  have hassoc := associative_combine hop
  induction groups generalizing a with
  | nil => exact ⟨[], rfl, rfl⟩
  | cons group groups ih =>
    obtain ⟨hgroup, hothers⟩ := List.forall_mem_cons.1 hgroups
    obtain ⟨first, rest, rfl⟩ := List.exists_cons_of_ne_nil hgroup
    obtain ⟨ts, hts, hfold⟩ :=
      ih hothers (combine op.combine a (rest.foldl (combine op.combine) first))
    -- the group goes through one by one, or its result does at once
    have hgroup : rest.foldl (combine op.combine) (combine op.combine a first)
        = combine op.combine a (rest.foldl (combine op.combine) first) := List.foldl_assoc
    refine ⟨_ :: ts,
      Except.mapM_cons_eq_ok.2 ⟨_, ts, convolveAll_cons hop first rest, hts, rfl⟩, ?_⟩
    rw [List.foldl_cons, hfold, List.flatten_cons, List.foldl_append, List.foldl_cons, hgroup]

/-- Operands may be grouped, if no group is empty. -/
theorem convolveAll_groups (hgroups : ∀ g ∈ groups, g ≠ [])
    (ht : convolveAll op groups.flatten = .ok t) :
    ∃ ts, groups.mapM (convolveAll op) = .ok ts ∧ convolveAll op ts = .ok t := by
  cases groups with
  | nil => cases ht
  | cons group groups =>
    obtain ⟨hgroup, hothers⟩ := List.forall_mem_cons.1 hgroups
    obtain ⟨first, rest, rfl⟩ := List.exists_cons_of_ne_nil hgroup
    obtain ⟨ts, hts, hfold⟩ :=
      exists_foldl_flatten hop hothers (rest.foldl (combine op.combine) first)
    refine ⟨_ :: ts,
      Except.mapM_cons_eq_ok.2 ⟨_, ts, convolveAll_cons hop first rest, hts, rfl⟩, ?_⟩
    rw [convolveAll_cons hop, hfold, ← List.foldl_append, ← convolveAll_cons hop]
    exact ht

end

/-- Operands in front may be grouped under any operator. -/
theorem convolveAll_lead (op : Operator) (rest : List Table) (hlead : lead ≠ []) :
    convolveAll op (lead ++ rest)
      = convolveAll op lead >>= fun t => convolveAll op (t :: rest) := by
  obtain ⟨first, others, rfl⟩ := List.exists_cons_of_ne_nil hlead
  exact List.foldlM_append

/-! ## Order and grouping -/

/-- Listings of the operands, each in some order, have a result that lists the result. -/
theorem exists_convolveAll_listing {listings : List Listing}
    (h : List.Forall₂ (fun (l : Listing) (t : Table) => l.entries.Perm t.entries) listings tables)
    (ht : convolveAll op tables = .ok t) :
    ∃ l, Listing.convolveAll op listings = .ok l ∧ l.entries.Perm t.entries := by
  have htables : listings.map Listing.table = tables := by
    simp only [← Listing.table_eq_iff] at h
    exact List.forall₂_eq_eq_eq ▸ List.forall₂_map_left_iff.2 h
  rw [← htables, ← Listing.table_convolveAll, Except.map_eq_ok] at ht
  obtain ⟨l, hl, hlt⟩ := ht
  exact ⟨l, hl, Listing.table_eq_iff.1 hlt⟩

/-- Sums, products, greatest and least outcomes of several tables are the same for any order of the
tables, for any groups of tables that stand side by side, and for any order in which the entries of
the tables are listed. In a quotient, tables in front may be grouped. -/
theorem convolveAll_regrouped :
    (∀ op : Operator, op ≠ .quotient → ∀ tables : List Table, tables ≠ [] →
      ∃ t, convolveAll op tables = .ok t ∧
        (∀ permuted : List Table, permuted.Perm tables → convolveAll op permuted = .ok t) ∧
        (∀ groups : List (List Table), (∀ g ∈ groups, g ≠ []) → groups.flatten = tables →
          ∃ ts, groups.mapM (convolveAll op) = .ok ts ∧ convolveAll op ts = .ok t) ∧
        ∀ listings,
          List.Forall₂ (fun (l : Listing) (t : Table) => l.entries.Perm t.entries) listings tables →
          ∃ l, Listing.convolveAll op listings = .ok l ∧ l.entries.Perm t.entries) ∧
    ∀ lead rest : List Table, lead ≠ [] →
      convolveAll .quotient (lead ++ rest)
        = convolveAll .quotient lead >>= fun t => convolveAll .quotient (t :: rest) := by
  refine ⟨fun op hop tables htables => ?_, fun lead rest => convolveAll_lead .quotient rest⟩
  obtain ⟨first, rest, rfl⟩ := List.exists_cons_of_ne_nil htables
  have ht := convolveAll_cons hop first rest
  refine ⟨_, ht, fun permuted hperm => ?_, fun groups hgroups hflatten => ?_, fun listings h => ?_⟩
  · exact (convolveAll_perm hop hperm).trans ht
  · exact convolveAll_groups hop hgroups (hflatten ▸ ht)
  · exact exists_convolveAll_listing h ht

/-- A coin with the faces one and two, a coin with the faces zero and three that is listed from its
greater face on, and a sure two. -/
theorem convolveAll_regrouped_of_coins :
    (∃ t, convolveAll .product [gather [(1, 1 / 2), (2, 1 / 2)], gather [(0, 1 / 2), (3, 1 / 2)],
        sure 2] = .ok t ∧
      convolveAll .product [sure 2, gather [(1, 1 / 2), (2, 1 / 2)],
        gather [(0, 1 / 2), (3, 1 / 2)]] = .ok t ∧
      (∃ ts, [[gather [(1, 1 / 2), (2, 1 / 2)]], [gather [(0, 1 / 2), (3, 1 / 2)], sure 2]].mapM
          (convolveAll .product) = .ok ts ∧ convolveAll .product ts = .ok t) ∧
      ∃ l, Listing.convolveAll .product [⟨[(1, 1 / 2), (2, 1 / 2)], by decide⟩,
        ⟨[(3, 1 / 2), (0, 1 / 2)], by decide⟩, ⟨[(2, 1)], by decide⟩] = .ok l ∧
        l.entries.Perm t.entries) ∧
    (convolveAll .quotient [sure 2] >>= fun t =>
      convolveAll .quotient [t, gather [(1, 1 / 2), (2, 1 / 2)]])
      = .ok (gather [(1, 1 / 2), (2, 1 / 2)]) := by
  obtain ⟨hfree, hlead⟩ := convolveAll_regrouped
  obtain ⟨t, ht, hperm, hgroups, hlistings⟩ := hfree .product (by decide)
    [gather [(1, 1 / 2), (2, 1 / 2)], gather [(0, 1 / 2), (3, 1 / 2)], sure 2] (by simp)
  refine ⟨⟨t, ht, hperm _ (List.perm_append_comm_assoc [_] [_, _] []), hgroups _ ?_ rfl, ?_⟩, ?_⟩
  · simp
  · refine hlistings _ (.cons ?_ (.cons ?_ (.cons ?_ .nil))) <;> decide +kernel
  · rw [← hlead [sure 2] _ (by simp)]
    decide +kernel

end Table

end DiceLaw
