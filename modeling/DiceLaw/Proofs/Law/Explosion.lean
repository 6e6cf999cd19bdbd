import DiceLaw.Proofs.Law.Combination
import DiceLaw.Table.Explosion

/-!
# Exploding rolls, from the first roll on

The totals that have exploded are kept aside and rolled on, all at once, until none is left or the
limit is reached. Seen from the first roll on, an exploding roll ends below the threshold, or is
followed by an exploding roll with a limit that is less by one.

## Main results

* `Table.explodeFrom_eq_combine`: what is kept aside is independent of what is still rolled
* `Table.explode_zero`, `Table.explode_succ`: an exploding roll, from the first roll on
-/

namespace DiceLaw

namespace Table

/-- A roll that cannot explode is kept as it falls. -/
theorem explode_zero (t : Table) (threshold : Int) : explode t threshold 0 = t :=
  combine_sure_left Int.zero_add t

/-- Before the first roll nothing has been rolled. -/
theorem explode_succ_eq_explodeFrom (t : Table) (threshold : Int) (limit : Nat) :
    explode t threshold (limit + 1)
      = t.filter (fun v => v < threshold)
        + explodeFrom t threshold limit (t.filter fun v => threshold ≤ v) := by
  rw [explode, explodeFrom, if_neg (by decide), combine_sure_left Int.zero_add,
    combine_sure_left Int.zero_add]

/-- The totals that have exploded are added to what an exploding roll comes out at. -/
theorem explodeFrom_eq_combine (t : Table) (threshold : Int) (limit : Nat) (pending : Table) :
    explodeFrom t threshold limit pending
      = combine (· + ·) pending (explode t threshold limit) := by
  induction limit generalizing pending with
  | zero => rw [explodeFrom, explode_zero]
  | succ limit ih =>
    by_cases hempty : pending.isEmpty = true
    · rw [eq_empty_of_isEmpty hempty]
      rfl
    · -- the rolls so far can be added to the next one before or after that is rolled on
      calc explodeFrom t threshold (limit + 1) pending
          = combine (· + ·) pending (t.filter fun v => v < threshold)
              + explodeFrom t threshold limit
                  (combine (· + ·) pending (t.filter fun v => threshold ≤ v)) := if_neg hempty
        _ = combine (· + ·) pending (t.filter fun v => v < threshold)
              + combine (· + ·) pending
                  (explodeFrom t threshold limit (t.filter fun v => threshold ≤ v)) := by
            rw [ih, combine_assoc Int.add_assoc, ← ih]
        _ = combine (· + ·) pending (explode t threshold (limit + 1)) := by
            rw [← combine_add, explode_succ_eq_explodeFrom]

/-- An exploding roll ends below the threshold, or is rolled again. -/
theorem explode_succ (t : Table) (threshold : Int) (limit : Nat) :
    explode t threshold (limit + 1)
      = t.filter (fun v => v < threshold)
        + combine (· + ·) (t.filter fun v => threshold ≤ v) (explode t threshold limit) := by
  rw [explode_succ_eq_explodeFrom, explodeFrom_eq_combine]

end Table

end DiceLaw
