import DiceLaw.Number.Search

/-!
# The scale of doubles

The magnitudes that a double can hold form a scale that starts at zero, and a magnitude is known by
its rank on it. Every magnitude is a whole number of units of `2 ^ (-1074)`: the first `2 ^ 52`
ranks are one unit apart, and after every further `2 ^ 52` ranks the distance doubles. The scale
itself has no end; infinity takes the rank where the exponents of a double end.

A positive quantity is rounded by comparing it with the scale: to the nearest rank, and to the even
one of two that are equally near.

## Main definitions

* `units`: the magnitude at a rank, in units
* `infinityRank`: the first rank that no finite double has
* `nearestRank`: the rank nearest to a quantity that is given by comparisons
* `rankOfRatio`, `rankOfRoot`: the nearest ranks to a quotient and to a square root

## Main results

* `units_succ`, `units_strictMono`: the distances on the scale, and its order
-/

namespace DiceLaw.Number

/-- The exponent of the unit: a unit is `2 ^ (-unitExponent)`. -/
def unitExponent : Nat := 1074

/-- The ranks between two doublings of the distance. -/
def binadeSize : Nat := power 2 52

/-- The magnitude at a rank, in units. -/
def units (rank : Nat) : Nat :=
  if rank < binadeSize then rank
  else (binadeSize + rank % binadeSize) * power 2 (rank / binadeSize - 1)

/-- The first rank that no finite double has; it stands for infinity. -/
def infinityRank : Nat := 2047 * binadeSize

@[simp] theorem units_zero : units 0 = 0 := by decide

/-- From one rank to the next it is one unit, doubled after every binade but the first. -/
theorem units_succ (rank : Nat) :
    units (rank + 1) = units rank + power 2 (rank / binadeSize - 1) := by
  have hb : 0 < binadeSize := by decide
  by_cases hlow : rank + 1 < binadeSize
  · have hdiv : rank / binadeSize = 0 := Nat.div_eq_of_lt (by omega)
    have hrank : rank < binadeSize := by omega
    simp [units, hlow, hrank, hdiv]
  · by_cases hrank : rank < binadeSize
    · have heq : rank + 1 = binadeSize := by omega
      have hdiv : rank / binadeSize = 0 := Nat.div_eq_of_lt hrank
      have hm : (rank + 1) % binadeSize = 0 := by rw [heq]; exact Nat.mod_self _
      have hd : (rank + 1) / binadeSize = 1 := by rw [heq]; exact Nat.div_self hb
      rw [units, units, if_neg hlow, if_pos hrank, hm, hd, hdiv]
      simp only [Nat.sub_self, Nat.zero_sub, power_zero, Nat.add_zero, Nat.mul_one]
      omega
    · have hmod := Nat.mod_add_div rank binadeSize
      have hlt := Nat.mod_lt rank hb
      have hone : 1 ≤ rank / binadeSize := (Nat.one_le_div_iff hb).2 (by omega)
      simp only [units, hlow, hrank, if_false]
      by_cases hcarry : rank % binadeSize + 1 < binadeSize
      · have hm : (rank + 1) % binadeSize = rank % binadeSize + 1 := by
          rw [Nat.add_mod, Nat.mod_eq_of_lt (show 1 < binadeSize by decide),
            Nat.mod_eq_of_lt hcarry]
        have hd : (rank + 1) / binadeSize = rank / binadeSize := by
          rw [Nat.add_div hb, Nat.mod_eq_of_lt (show 1 < binadeSize by decide),
            Nat.div_eq_of_lt (show 1 < binadeSize by decide), if_neg (by omega)]
          omega
        rw [hm, hd, ← Nat.add_assoc, Nat.add_mul, Nat.one_mul]
      · have hfull : rank % binadeSize + 1 = binadeSize := by omega
        have hnext : rank + 1 = binadeSize * (rank / binadeSize + 1) := by
          rw [Nat.mul_add, Nat.mul_one]; omega
        have hm : (rank + 1) % binadeSize = 0 := by rw [hnext]; exact Nat.mul_mod_right _ _
        have hd : (rank + 1) / binadeSize = rank / binadeSize + 1 := by
          rw [hnext]; exact Nat.mul_div_cancel_left _ hb
        obtain ⟨e, he⟩ : ∃ e, rank / binadeSize = e + 1 := ⟨_, (Nat.sub_add_cancel hone).symm⟩
        have hmod' : rank % binadeSize = binadeSize - 1 := by omega
        rw [hm, hd, he, hmod']
        simp only [Nat.add_sub_cancel, Nat.add_zero, power_succ]
        rw [show binadeSize + (binadeSize - 1) = 2 * binadeSize - 1 by omega,
          Nat.sub_mul, Nat.one_mul, Nat.sub_add_cancel, Nat.mul_comm (power 2 e) 2, ← Nat.mul_assoc,
          Nat.mul_comm binadeSize 2]
        exact Nat.le_mul_of_pos_left _ (by omega)

theorem units_lt_succ (rank : Nat) : units rank < units (rank + 1) := by
  rw [units_succ]
  exact Nat.lt_add_of_pos_right (power_pos (by decide) _)

theorem units_strictMono {a b : Nat} (h : a < b) : units a < units b := by
  induction h with
  | refl => exact units_lt_succ a
  | step _ ih => exact Nat.lt_trans ih (units_lt_succ _)

/-! ## Rounding -/

/-- The rank nearest to a quantity. The comparison `side h` says on which side of the quantity
`h` half units lie: below it, on it or above it. Of two ranks that are equally near, the even one
is taken. -/
def nearestRank (side : Nat → Ordering) : Nat :=
  let below := greatest (fun rank => side (2 * units rank) != .gt) 63 0
  match side (units below + units (below + 1)) with
  | .lt => below + 1
  | .gt => below
  | .eq => if below % 2 = 0 then below else below + 1

/-- The rank nearest to the quotient `n / d`. -/
def rankOfRatio (n d : Nat) : Nat :=
  let target := n * power 2 (unitExponent + 1)
  nearestRank fun h => compare (h * d) target

/-- The rank nearest to the square root of the magnitude of a rank. -/
def rankOfRoot (rank : Nat) : Nat :=
  let target := units rank * power 2 (unitExponent + 2)
  nearestRank fun h => compare (h * h) target

end DiceLaw.Number
