import DiceLaw.Table.Convolution

/-!
# Exploding rolls

A roll that reaches a threshold explodes: it is rolled again and the results are added, up to a
limit of repetitions. The last repetition is kept as it falls.

## Main definitions

* `Table.explodeFrom`: the totals that end, from the totals that have exploded so far
* `Table.explode`: an exploding roll
* `Table.explodeWithin`: an exploding roll under a limit that may be negative
-/

namespace DiceLaw

namespace Table

/-- The totals at which the rolls end. The totals in `pending` have exploded and are rolled on;
when none is left, nothing more can end. -/
def explodeFrom (t : Table) (threshold : Int) : Nat → Table → Table
  | 0, pending => combine (· + ·) pending t
  | limit + 1, pending =>
    if pending.isEmpty then empty
    else
      combine (· + ·) pending (t.filter fun v => v < threshold)
        + explodeFrom t threshold limit
            (combine (· + ·) pending (t.filter fun v => threshold ≤ v))

/-- A roll that explodes from a threshold on, at most `limit` times. -/
def explode (t : Table) (threshold : Int) (limit : Nat) : Table :=
  explodeFrom t threshold limit (sure 0)

/-- A roll that explodes from a threshold on. Under a negative limit it is not even rolled once. -/
def explodeWithin (t : Table) (threshold limit : Int) : Table :=
  if limit < 0 then empty else explode t threshold limit.toNat

end Table

end DiceLaw
