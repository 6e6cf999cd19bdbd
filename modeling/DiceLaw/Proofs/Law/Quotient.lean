import DiceLaw.Proofs.Law.Mirror
import Mathlib.Algebra.Order.Group.Unbundled.Abs
import Mathlib.Algebra.Order.Group.Unbundled.Int
import Mathlib.Algebra.Order.Ring.Abs
import Mathlib.Tactic.Linarith

/-!
# Rounded quotients

A quotient is rounded by its size and its sign apart. What comes out can be told without either: its
product with the divisor misses the dividend by half the divisor at most, and in the middle between
two such products it is the one that lies farther from zero. This leaves one number for each
dividend and divisor, and from it follows how quotients behave under signs, products and order.

## Main definitions

* `IsNearestQuotient`: a whole number is nearest to a quotient, and a half goes away from zero

## Main results

* `IsNearestQuotient.mono`, `IsNearestQuotient.unique`: nearest numbers are in the order of the
  dividends
* `isNearestQuotient_iff`: rounding finds the nearest number
* `nearestQuotient_laws`: signs, products, order and mirror images
-/

namespace DiceLaw

/-- The number times the divisor misses the dividend by half the divisor at most. If it misses it by
half, it lies beyond the dividend, as seen from zero. -/
def IsNearestQuotient (a b q : Int) : Prop :=
  2 * |q * b - a| ≤ |b| ∧ (2 * |q * b - a| = |b| → |a| < |q * b|)

variable {a a' b q q' : Int}

namespace IsNearestQuotient

/-! ## Signs and products -/

theorem neg_left (h : IsNearestQuotient a b q) : IsNearestQuotient (-a) b (-q) := by
  have hmiss : |-q * b - -a| = |q * b - a| := by
    rw [← abs_neg]
    congr 1
    ring
  rw [IsNearestQuotient, hmiss, abs_neg, neg_mul, abs_neg]
  exact h

theorem neg_right (h : IsNearestQuotient a b q) : IsNearestQuotient a (-b) (-q) := by
  rw [IsNearestQuotient, neg_mul_neg, abs_neg]
  exact h

theorem of_mul (hb : b ≠ 0) (a : Int) : IsNearestQuotient (a * b) b a := by
  have hpos : 0 < |b| := abs_pos.2 hb
  rw [IsNearestQuotient, sub_self, abs_zero, mul_zero]
  exact ⟨hpos.le, fun h => absurd h hpos.ne⟩

/-! ## Order -/

/-- Greater dividends have greater nearest numbers. -/
theorem mono (hb : 0 < b) (hle : a ≤ a') (h : IsNearestQuotient a b q)
    (h' : IsNearestQuotient a' b q') : q ≤ q' := by
  obtain ⟨hmiss, htie⟩ := h
  obtain ⟨hmiss', htie'⟩ := h'
  rw [abs_of_pos hb] at hmiss htie hmiss' htie'
  by_contra hlt
  have hupper : 2 * (q * b) ≤ 2 * a + b := by linarith [le_abs_self (q * b - a)]
  have hlower : 2 * a' ≤ 2 * (q' * b) + b := by linarith [neg_abs_le (q' * b - a')]
  have hnext : q' * b + b ≤ q * b := by
    rw [← add_one_mul]
    exact Int.mul_le_mul_of_nonneg_right (by omega) hb.le
  -- the two numbers are neighbours, and both dividends lie in the middle between their products
  have heq : a = a' := by linarith
  subst heq
  have hright : q * b - a = a - q' * b := by linarith
  have hhalf : 2 * (a - q' * b) = b := by linarith
  have hpos : 0 < a - q' * b := by linarith
  have hbeyond : |a| < |q * b| :=
    htie (by rw [hright, abs_of_pos hpos, hhalf])
  have hbeyond' : |a| < |q' * b| :=
    htie' (by rw [abs_sub_comm, abs_of_pos hpos, hhalf])
  -- but of two neighbours one is not beyond their middle, as seen from zero
  by_cases hsign : 0 ≤ q'
  · have hprod : 0 ≤ q' * b := mul_nonneg hsign hb.le
    rw [abs_of_nonneg hprod, abs_of_nonneg (by linarith)] at hbeyond'
    linarith
  · have hprod : q' * b + b ≤ 0 := by
      rw [← add_one_mul]
      exact mul_nonpos_of_nonpos_of_nonneg (by omega) hb.le
    rw [abs_of_nonpos (by linarith : q * b ≤ 0), abs_of_nonpos (by linarith : a ≤ 0)] at hbeyond
    linarith

/-- There is no other nearest number. -/
theorem unique (hb : b ≠ 0) (h : IsNearestQuotient a b q) (h' : IsNearestQuotient a b q') :
    q = q' := by
  rcases lt_or_gt_of_ne hb with hneg | hpos
  · have hdivisor : 0 < -b := by omega
    have hle := mono hdivisor le_rfl h.neg_right h'.neg_right
    have hge := mono hdivisor le_rfl h'.neg_right h.neg_right
    omega
  · exact le_antisymm (mono hpos le_rfl h h') (mono hpos le_rfl h' h)

end IsNearestQuotient

/-! ## Rounding -/

theorem nearestQuotient_neg_right (hb : b ≠ 0) (a : Int) :
    nearestQuotient a (-b) = -nearestQuotient a b := by
  have hside : (-b < 0) = ¬ (b < 0) := by
    rw [eq_iff_iff]
    omega
  unfold nearestQuotient
  rw [Int.natAbs_neg]
  simp only [hside]
  by_cases hneg : a < 0 <;> by_cases hdivisor : b < 0 <;> simp [hneg, hdivisor]

/-- Without signs the quotient is rounded by its remainder. -/
theorem isNearestQuotient_natCast {d : Nat} (hd : 0 < d) (n : Nat) :
    IsNearestQuotient n d (nearestQuotient n d) := by
  have hsides : ((n : Int) < 0) = ((d : Int) < 0) := by
    rw [eq_iff_iff]
    omega
  have hdivision : (n : Int) = (n / d : Nat) * d + (n % d : Nat) := by
    rw [mul_comm]
    exact_mod_cast (Nat.div_add_mod n d).symm
  have hremainder : (n % d : Nat) < (d : Int) := by exact_mod_cast Nat.mod_lt n hd
  unfold nearestQuotient
  simp only [hsides, if_true, Int.natAbs_natCast]
  generalize n / d = quotient at hdivision ⊢
  generalize n % d = remainder at hdivision hremainder ⊢
  rw [IsNearestQuotient, Nat.abs_cast d, Nat.abs_cast n]
  split
  · -- what is missing to the next product is the rest of the divisor
    have hmiss : ((quotient + 1 : Nat) : Int) * d - n = d - remainder := by
      push_cast
      linarith
    have hprod : ((quotient + 1 : Nat) : Int) * d = n + (d - remainder) := by linarith
    rw [hmiss, hprod, abs_of_pos (by omega), abs_of_pos (by omega)]
    omega
  · have hmiss : (quotient : Int) * d - n = -remainder := by linarith
    rw [hmiss, abs_neg, Nat.abs_cast]
    omega

/-- Rounding finds the nearest number. -/
theorem isNearestQuotient_nearestQuotient (hb : b ≠ 0) (a : Int) :
    IsNearestQuotient a b (nearestQuotient a b) := by
  obtain ⟨n, rfl | rfl⟩ := a.eq_nat_or_neg <;> obtain ⟨d, rfl | rfl⟩ := b.eq_nat_or_neg
  · exact isNearestQuotient_natCast (by omega) n
  · rw [nearestQuotient_neg_right (by omega)]
    exact (isNearestQuotient_natCast (by omega) n).neg_right
  · rw [nearestQuotient_neg hb]
    exact (isNearestQuotient_natCast (by omega) n).neg_left
  · rw [nearestQuotient_neg hb, nearestQuotient_neg_right (by omega)]
    exact (isNearestQuotient_natCast (by omega) n).neg_right.neg_left

theorem isNearestQuotient_iff (hb : b ≠ 0) :
    IsNearestQuotient a b q ↔ q = nearestQuotient a b := by
  constructor
  · exact fun h => h.unique hb (isNearestQuotient_nearestQuotient hb a)
  · rintro rfl
    exact isNearestQuotient_nearestQuotient hb a

/-! ## Tables -/

/-- A table without the outcome zero can be a divisor. -/
theorem Table.convolve_quotient_eq_ok {s : Table} (hs : 0 ∉ s.outcomes) (t : Table) :
    convolve .quotient t s = .ok (combine nearestQuotient t s) := by
  have hmeets : meetsFailure .quotient t s = false := by
    rw [meetsFailure, Bool.and_eq_false_iff, List.any_eq_false]
    refine .inr fun v hv => ?_
    have hne : v ≠ 0 := fun h => hs (h ▸ hv)
    simp [Operator.failsOn, hne]
  rw [convolve, hmeets]
  rfl

/-- For a divisor other than zero, rounding finds the one whole number that is nearest to the
quotient, of two that are equally near the one farther from zero. It changes sign with the dividend
and with the divisor, gives back a factor of a product, and for a positive divisor keeps the order
of the dividends. So a table that is mirrored at zero and divided by a table without zero gives the
mirror image of what it gives otherwise. -/
theorem nearestQuotient_laws :
    (∀ a b : Int, b ≠ 0 →
      (∀ q, IsNearestQuotient a b q ↔ q = nearestQuotient a b) ∧
      nearestQuotient (-a) b = -nearestQuotient a b ∧
      nearestQuotient a (-b) = -nearestQuotient a b ∧ nearestQuotient (a * b) b = a) ∧
    (∀ a a' b : Int, 0 < b → a ≤ a' → nearestQuotient a b ≤ nearestQuotient a' b) ∧
    ∀ t s : Table, 0 ∉ s.outcomes → ∃ u, Table.convolve .quotient t s = .ok u ∧
      Table.convolve .quotient t.mirror s = .ok u.mirror := by
  refine ⟨fun a b hb => ⟨fun q => isNearestQuotient_iff hb, nearestQuotient_neg hb a,
    nearestQuotient_neg_right hb a, ?_⟩, fun a a' b hb hle => ?_, fun t s hs => ?_⟩
  · exact ((isNearestQuotient_iff hb).1 (.of_mul hb a)).symm
  · exact IsNearestQuotient.mono hb hle (isNearestQuotient_nearestQuotient hb.ne' a)
      (isNearestQuotient_nearestQuotient hb.ne' a')
  · have hquotient := Table.convolve_quotient_eq_ok hs t
    exact ⟨_, hquotient, by rw [Table.convolve_mirror rfl, hquotient]; rfl⟩

/-- Seven halves go up to four, and minus seven halves down to minus four. A coin is divided by
minus two. -/
theorem nearestQuotient_laws_of_seven_halves :
    nearestQuotient 7 2 = 4 ∧ nearestQuotient (-7) 2 = -4 ∧
      (∀ q : Int, IsNearestQuotient 7 2 q ↔ q = 4) ∧ nearestQuotient 6 2 ≤ nearestQuotient 7 2 ∧
      ∃ u, Table.convolve .quotient (Table.gather [(1, 1 / 2), (2, 1 / 2)]) (.sure (-2)) = .ok u ∧
        Table.convolve .quotient (Table.gather [(1, 1 / 2), (2, 1 / 2)]).mirror (.sure (-2))
          = .ok u.mirror := by
  obtain ⟨hnearest, hmono, htables⟩ := nearestQuotient_laws
  obtain ⟨hseven, hneg, -⟩ := hnearest 7 2 (by decide)
  have hfour : nearestQuotient 7 2 = 4 := by decide
  rw [hfour] at hseven hneg
  exact ⟨hfour, hneg, hseven, hmono 6 7 2 (by decide) (by decide), htables _ _ (by decide)⟩

end DiceLaw
