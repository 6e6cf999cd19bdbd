import DiceLaw.Number.Binary64
import Mathlib.Algebra.Order.Field.Basic
import Mathlib.Algebra.Order.Field.Rat
import Mathlib.Data.Rat.Lemmas
import Mathlib.Tactic.Linarith
import Mathlib.Tactic.Ring

/-!
# Rounding to doubles

A quantity is rounded to the rank that is nearest to it. Greater quantities never come out at lower
ranks, and a quantity that lies on the scale comes out at its own rank. So rounding a number to a
double keeps the order of numbers, and leaves the value of a double as it is.

## Main results

* `Number.rankOfRatio_mono`, `Number.rankOfRatio_of_units`: ranks of quotients
* `Binary64.le_trans`, `Binary64.le_total`: the order of numbers
* `Binary64.le_iff_value`: finite doubles are ordered by their values
* `Binary64.le_of_ofRat?`: rounding keeps the order
* `Binary64.exists_ofRat?_of_toRat?`: rounding leaves doubles alone
* `Binary64.exists_ofRat?_of_abs_le`: which numbers are not too large
-/

namespace DiceLaw

namespace Number

/-! ## The greatest number with a property -/

section

variable {p q : Nat → Bool} {bits start k : Nat}

/-- More numbers with the property have no lower greatest one. -/
theorem greatest_mono (hq : ∀ a b, a ≤ b → q b = true → q a = true)
    (hpq : ∀ k, p k = true → q k = true) (hstart : p start = true) :
    greatest p bits start ≤ greatest q bits start := by
  by_contra hlt
  have hlost := not_of_greatest_lt hq bits (greatest_lt bits start) (not_le.1 hlt)
  rw [hpq _ (greatest_holds bits hstart)] at hlost
  cases hlost

/-- A number with the property whose successor has it no more is the greatest one. -/
theorem greatest_eq (hp : ∀ a b, a ≤ b → p b = true → p a = true) (hstart : start ≤ k)
    (hk : k < start + power 2 bits) (hholds : p k = true) (hlost : p (k + 1) = false) :
    greatest p bits start = k := by
  have hgreatest : p (greatest p bits start) = true :=
    greatest_holds bits (hp start k hstart hholds)
  rcases Nat.lt_trichotomy (greatest p bits start) k with hlt | heq | hlt
  · rw [not_of_greatest_lt hp bits hk hlt] at hholds
    cases hholds
  · exact heq
  · rw [hp (k + 1) _ hlt hgreatest] at hlost
    cases hlost

end

/-! ## The nearest rank -/

/-- Half units lie in order: if some are not above the quantity, fewer are not above it either. -/
def InOrder (side : Nat → Ordering) : Prop := ∀ a b, a ≤ b → side b ≠ .gt → side a ≠ .gt

/-- The greatest rank that does not lie above the quantity. -/
def rankBelow (side : Nat → Ordering) : Nat :=
  greatest (fun rank => side (2 * units rank) != .gt) 63 0

/-- One of a rank and the next one, by the side on which the middle between them lies. -/
def nearer (middle : Ordering) (below : Nat) : Nat :=
  match middle with
  | .lt => below + 1
  | .gt => below
  | .eq => if below % 2 = 0 then below else below + 1

theorem nearestRank_eq (side : Nat → Ordering) :
    nearestRank side = nearer
      (side (units (rankBelow side) + units (rankBelow side + 1))) (rankBelow side) := rfl

theorem le_nearer (middle : Ordering) (below : Nat) : below ≤ nearer middle below := by
  cases middle <;> grind [nearer]

theorem nearer_le (middle : Ordering) (below : Nat) : nearer middle below ≤ below + 1 := by
  cases middle <;> grind [nearer]

theorem nearer_mono {middle middle' : Ordering} (hnot : middle ≠ .gt → middle' ≠ .gt)
    (hbelow : middle = .lt → middle' = .lt) (below : Nat) :
    nearer middle below ≤ nearer middle' below := by
  cases middle <;> cases middle' <;> grind [nearer]

section

variable {side side' : Nat → Ordering}

theorem InOrder.not_above (h : InOrder side) (a b : Nat) (hab : a ≤ b)
    (hb : (side (2 * units b) != .gt) = true) : (side (2 * units a) != .gt) = true := by
  rcases hab.eq_or_lt with rfl | hlt
  · exact hb
  · rw [bne_iff_ne] at hb ⊢
    exact h _ _ (Nat.mul_le_mul_left 2 (units_strictMono hlt).le) hb

/-- If what is not above one quantity, or below it, is so for another quantity, then this one has no
lower rank. -/
theorem nearestRank_mono (hside : InOrder side') (hzero : side 0 ≠ .gt)
    (hnot : ∀ h, side h ≠ .gt → side' h ≠ .gt) (hbelow : ∀ h, side h = .lt → side' h = .lt) :
    nearestRank side ≤ nearestRank side' := by
  have hranks : rankBelow side ≤ rankBelow side' :=
    greatest_mono hside.not_above (fun k hk => bne_iff_ne.2 (hnot _ (bne_iff_ne.1 hk)))
      (bne_iff_ne.2 hzero)
  rw [nearestRank_eq, nearestRank_eq]
  rcases hranks.eq_or_lt with heq | hlt
  · -- both lie between the same two ranks, with the same middle
    rw [← heq]
    exact nearer_mono (hnot _) (hbelow _) _
  · exact (nearer_le _ _).trans (Nat.le_trans hlt (le_nearer _ _))

/-- What lies on a rank comes out there. -/
theorem nearestRank_of_eq {rank : Nat} (hside : InOrder side) (hrank : rank < power 2 63)
    (hon : side (2 * units rank) = .eq) (habove : ∀ h, 2 * units rank < h → side h = .gt) :
    nearestRank side = rank := by
  have hnext : units rank < units (rank + 1) := units_lt_succ rank
  have hbelow : rankBelow side = rank := by
    refine greatest_eq hside.not_above (Nat.zero_le _) (by omega) ?_ ?_
    · rw [hon]
      rfl
    · rw [habove _ (by omega)]
      rfl
  rw [nearestRank_eq, hbelow, habove _ (by omega)]
  rfl

end

/-! ## Ranks of quotients -/

section

variable {n d n' d' : Nat}

theorem compare_mul_inOrder (d target : Nat) : InOrder fun h => compare (h * d) target := by
  intro a b hab hb
  simp only [ne_eq, compare_gt_iff_gt, not_lt] at hb ⊢
  exact (Nat.mul_le_mul_right d hab).trans hb

/-- Quotients in order have nearest ranks in order, whatever the unit is. -/
theorem nearestRank_compare_mono {target target' : Nat} (hd : 0 < d) (hd' : 0 < d')
    (h : target * d' ≤ target' * d) :
    nearestRank (fun k => compare (k * d) target)
      ≤ nearestRank fun k => compare (k * d') target' := by
  -- half units are compared with both quotients over the common denominator
  have hcommon : ∀ k : Nat, k * d' * d = k * d * d' := fun k => Nat.mul_right_comm k d' d
  refine nearestRank_mono (compare_mul_inOrder _ _) ?_ (fun k => ?_) fun k => ?_
  · simp only [Nat.zero_mul, ne_eq, compare_gt_iff_gt, Nat.not_lt_zero,
      not_false_eq_true]
  · simp only [ne_eq, compare_gt_iff_gt, not_lt]
    intro hk
    refine Nat.le_of_mul_le_mul_right ?_ hd
    rw [hcommon]
    exact (Nat.mul_le_mul_right d' hk).trans h
  · simp only [compare_lt_iff_lt]
    intro hk
    refine Nat.lt_of_mul_lt_mul_right (a := d) ?_
    rw [hcommon]
    exact (Nat.mul_lt_mul_of_pos_right hk hd').trans_le h

/-- Quotients in order have ranks in order. -/
theorem rankOfRatio_mono (hd : 0 < d) (hd' : 0 < d') (h : n * d' ≤ n' * d) :
    rankOfRatio n d ≤ rankOfRatio n' d' := by
  rw [rankOfRatio, rankOfRatio]
  generalize power 2 (unitExponent + 1) = halves
  refine nearestRank_compare_mono hd hd' ?_
  rw [Nat.mul_right_comm, Nat.mul_right_comm n']
  exact Nat.mul_le_mul_right _ h

/-- A quotient that lies on the scale has its own rank. -/
theorem rankOfRatio_of_units {rank : Nat} (hd : 0 < d) (hrank : rank < power 2 63)
    (h : n * power 2 unitExponent = units rank * d) : rankOfRatio n d = rank := by
  have htarget : n * power 2 (unitExponent + 1) = 2 * units rank * d := by
    rw [power_succ, ← Nat.mul_assoc, h]
    ring
  rw [rankOfRatio, htarget]
  refine nearestRank_of_eq (compare_mul_inOrder _ _) hrank (compare_eq_iff_eq.2 rfl) fun k hk => ?_
  exact compare_gt_iff_gt.2 (Nat.mul_lt_mul_of_pos_right hk hd)

end

end Number

namespace Binary64

open Number

section

variable {a b c : Binary64} {p q : Rat}

/-! ## Order -/

theorem le_trans (hab : a.le b = true) (hbc : b.le c = true) : a.le c = true := by
  obtain ⟨m, n, hm, hn, hmn⟩ := le_iff_ordinal.1 hab
  obtain ⟨n', k, hn', hk, hnk⟩ := le_iff_ordinal.1 hbc
  obtain rfl := Option.some.inj (hn.symm.trans hn')
  exact le_iff_ordinal.2 ⟨m, k, hm, hk, hmn.trans hnk⟩

/-- Only numbers are in order with anything, and a number is in order with itself. -/
theorem le_self_of_le (h : a.le b = true) : a.le a = true ∧ b.le b = true := by
  obtain ⟨m, n, hm, hn, -⟩ := le_iff_ordinal.1 h
  exact ⟨le_iff_ordinal.2 ⟨m, m, hm, hm, le_rfl⟩, le_iff_ordinal.2 ⟨n, n, hn, hn, le_rfl⟩⟩

theorem le_total (ha : a.le a = true) (hb : b.le b = true) : a.le b = true ∨ b.le a = true := by
  obtain ⟨m, -, hm, -, -⟩ := le_iff_ordinal.1 ha
  obtain ⟨n, -, hn, -, -⟩ := le_iff_ordinal.1 hb
  rcases Int.le_total m n with hle | hle
  · exact Or.inl (le_iff_ordinal.2 ⟨m, n, hm, hn, hle⟩)
  · exact Or.inr (le_iff_ordinal.2 ⟨n, m, hn, hm, hle⟩)

/-! ## Values -/

theorem unit_pos : 0 < power 2 unitExponent := power_pos (by decide) _

theorem magnitude_eq (rank : Nat) :
    magnitude rank = (units rank : Rat) / (power 2 unitExponent : Nat) := by
  rw [magnitude, Rat.mkRat_eq_div]
  rfl

theorem magnitude_lt_iff {r s : Nat} : magnitude r < magnitude s ↔ r < s := by
  have hunit : (0 : Rat) < (power 2 unitExponent : Nat) := Nat.cast_pos.2 unit_pos
  have hmono : StrictMono units := fun _ _ => units_strictMono
  rw [magnitude_eq, magnitude_eq, div_lt_div_iff_of_pos_right hunit, Nat.cast_lt, hmono.lt_iff_lt]

theorem magnitude_nonneg (rank : Nat) : 0 ≤ magnitude rank := by
  rw [magnitude_eq]
  exact div_nonneg (Nat.cast_nonneg _) (Nat.cast_nonneg _)

theorem magnitude_zero : magnitude 0 = 0 := by
  rw [magnitude_eq, units_zero, Nat.cast_zero, zero_div]

theorem magnitude_le_iff {r s : Nat} : magnitude r ≤ magnitude s ↔ r ≤ s := by
  rw [← not_lt, magnitude_lt_iff, not_lt]

theorem magnitude_le_neg_iff {r s : Nat} : magnitude r ≤ -magnitude s ↔ r = 0 ∧ s = 0 := by
  constructor
  · intro h
    have hr := magnitude_nonneg r
    have hs := magnitude_nonneg s
    have hr0 : magnitude r ≤ magnitude 0 := by rw [magnitude_zero]; linarith
    have hs0 : magnitude s ≤ magnitude 0 := by rw [magnitude_zero]; linarith
    exact ⟨Nat.le_zero.1 (magnitude_le_iff.1 hr0), Nat.le_zero.1 (magnitude_le_iff.1 hs0)⟩
  · rintro ⟨rfl, rfl⟩
    rw [magnitude_zero, neg_zero]

theorem ordinal?_eq_some_of_toRat? (h : a.toRat? = some p) :
    ∃ (negative : Bool) (rank : Nat), rank < infinityRank ∧
      p = (if negative then -magnitude rank else magnitude rank) ∧
      a.ordinal? = some (if negative then -(rank : Int) else rank) := by
  cases a with
  | notANumber => cases h
  | signed negative rank bounded =>
    rw [toRat?] at h
    split at h
    · cases h
    · exact ⟨negative, rank, by omega, (Option.some.inj h).symm, rfl⟩

/-- Doubles with a value are in order when their values are. -/
theorem le_iff_value (ha : a.toRat? = some p) (hb : b.toRat? = some q) :
    a.le b = true ↔ p ≤ q := by
  obtain ⟨s, r, -, rfl, hr⟩ := ordinal?_eq_some_of_toRat? ha
  obtain ⟨t, k, -, rfl, hk⟩ := ordinal?_eq_some_of_toRat? hb
  have hle : a.le b = true ↔
      (if s then -(r : Int) else r) ≤ (if t then -(k : Int) else k) := by
    simp [le, hr, hk]
  rw [hle]
  -- sizes are in order as their ranks are; negative ones in the other order
  cases s <;> cases t
  · simp [magnitude_le_iff]
  · simp only [Bool.false_eq_true, if_false, if_true, magnitude_le_neg_iff]
    omega
  · have hvalue := (neg_nonpos.2 (magnitude_nonneg r)).trans (magnitude_nonneg k)
    simp only [Bool.false_eq_true, if_false, if_true, hvalue, iff_true]
    omega
  · simp [magnitude_le_iff]

/-! ## Rounding -/

theorem abs_eq_natAbs_div (q : Rat) : |q| = (q.num.natAbs : Rat) / q.den := by
  conv_lhs => rw [← Rat.num_div_den q]
  rw [abs_div, Nat.abs_cast, Nat.cast_natAbs, Int.cast_abs]

/-- Larger numbers have higher ranks, whatever their signs are. -/
theorem rankOfRatio_abs_mono (h : |p| ≤ |q|) :
    rankOfRatio p.num.natAbs p.den ≤ rankOfRatio q.num.natAbs q.den := by
  refine rankOfRatio_mono p.pos q.pos ?_
  rw [Rat.le_iff, Rat.num_abs_eq_abs_num, Rat.num_abs_eq_abs_num, Rat.den_abs_eq_den,
    Rat.den_abs_eq_den] at h
  zify
  exact h

/-- The size of a double has its own rank. -/
theorem rankOfRatio_abs_of_magnitude {rank : Nat} (hrank : rank ≤ infinityRank)
    (h : |q| = magnitude rank) : rankOfRatio q.num.natAbs q.den = rank := by
  refine rankOfRatio_of_units q.pos (hrank.trans_lt (by decide)) ?_
  have hunit : ((power 2 unitExponent : Nat) : Rat) ≠ 0 := Nat.cast_ne_zero.2 unit_pos.ne'
  have hden : (q.den : Rat) ≠ 0 := Nat.cast_ne_zero.2 q.den_nz
  rw [abs_eq_natAbs_div, magnitude_eq, div_eq_div_iff hden hunit] at h
  exact_mod_cast h

theorem ofRat?_eq_some_iff : ofRat? q = some a ↔
    ∃ h : rankOfRatio q.num.natAbs q.den < infinityRank,
      a = .signed (q.num < 0) (rankOfRatio q.num.natAbs q.den) h.le := by
  rw [ofRat?]
  by_cases h : rankOfRatio q.num.natAbs q.den < infinityRank
  · rw [dif_pos h, Option.some.injEq, exists_prop_of_true h, eq_comm]
  · rw [dif_neg h]
    refine ⟨nofun, ?_⟩
    rintro ⟨h', -⟩
    exact absurd h' h

/-- A number that is no larger than another one is not too large either. -/
theorem exists_ofRat?_of_abs_le (h : |p| ≤ |q|) (hq : ofRat? q = some b) :
    ∃ a, ofRat? p = some a := by
  obtain ⟨hrank, -⟩ := ofRat?_eq_some_iff.1 hq
  exact ⟨_, ofRat?_eq_some_iff.2 ⟨(rankOfRatio_abs_mono h).trans_lt hrank, rfl⟩⟩

/-- What is rounded to a double has a value. -/
theorem exists_toRat?_of_ofRat? (h : ofRat? q = some a) : ∃ p, a.toRat? = some p := by
  obtain ⟨hrank, rfl⟩ := ofRat?_eq_some_iff.1 h
  rw [toRat?, if_neg hrank.ne]
  exact ⟨_, rfl⟩

theorem ordinal?_ofRat? (h : ofRat? q = some a) :
    a.ordinal? = some (if q < 0 then -(rankOfRatio q.num.natAbs q.den : Int)
      else rankOfRatio q.num.natAbs q.den) := by
  obtain ⟨-, rfl⟩ := ofRat?_eq_some_iff.1 h
  simp only [ordinal?, Rat.num_neg, decide_eq_true_eq]

/-- Rounding keeps the order of numbers. -/
theorem le_of_ofRat? (h : p ≤ q) (ha : ofRat? p = some a) (hb : ofRat? q = some b) :
    a.le b = true := by
  refine le_iff_ordinal.2 ⟨_, _, ordinal?_ofRat? ha, ordinal?_ofRat? hb, ?_⟩
  have hlarger := rankOfRatio_abs_mono (p := p) (q := q)
  have hlower := rankOfRatio_abs_mono (p := q) (q := p)
  generalize rankOfRatio p.num.natAbs p.den = r at hlarger hlower ⊢
  generalize rankOfRatio q.num.natAbs q.den = k at hlarger hlower ⊢
  by_cases hp : p < 0
  · by_cases hq : q < 0
    · -- the lower of two negative numbers is the larger one
      have := hlower (by rw [abs_of_neg hp, abs_of_neg hq]; exact neg_le_neg h)
      simp only [hp, hq, if_true]
      omega
    · simp only [hp, hq, if_true, if_false]
      omega
  · have hq : ¬ q < 0 := fun hq => hp (h.trans_lt hq)
    have := hlarger (by rw [abs_of_nonneg (not_lt.1 hp), abs_of_nonneg (not_lt.1 hq)]; exact h)
    simp only [hp, hq, if_false]
    omega

/-- The value of a double is rounded to itself. -/
theorem exists_ofRat?_of_toRat? (h : a.toRat? = some q) :
    ∃ b, ofRat? q = some b ∧ b.toRat? = some q := by
  obtain ⟨negative, rank, hrank, hq, -⟩ := ordinal?_eq_some_of_toRat? h
  have habs : |q| = magnitude rank := by
    rw [hq]
    cases negative <;> simp [abs_of_nonneg (magnitude_nonneg rank)]
  have hranks := rankOfRatio_abs_of_magnitude hrank.le habs
  refine ⟨_, ofRat?_eq_some_iff.2 ⟨hranks.trans_lt hrank, rfl⟩, ?_⟩
  -- a negative zero loses its sign here, but not its value
  rw [toRat?, if_neg (by rw [hranks]; exact hrank.ne), hranks, ← habs]
  by_cases hneg : q < 0
  · simp [hneg, abs_of_neg hneg]
  · simp [hneg, abs_of_nonneg (not_lt.1 hneg)]

end

end Binary64

end DiceLaw
