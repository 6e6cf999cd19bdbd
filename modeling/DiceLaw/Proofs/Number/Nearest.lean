import DiceLaw.Proofs.Number.Rounding

/-!
# The nearest double

A number is rounded by comparisons of whole numbers, with the scale and with the middle between two
neighbours on it. What comes out is the nearest of all finite doubles, and the even one of two that
are equally near. Zero comes with either sign; a number that is rounded to zero keeps its own sign.
So the nearest double is told by the values of doubles alone, and there is no other one. Numbers are
too large for a double from the middle on that lies behind the greatest one.

## Main definitions

* `Binary64.overflow`: from where on numbers are too large
* `Binary64.offset`, `Binary64.Precedes`: which of two ranks is nearer to the size of a number
* `Binary64.isNegative`, `Binary64.isEven`, `Binary64.IsNearest`: a double is nearest to a number

## Main results

* `Number.nearestRank_spec`, `Binary64.exists_neighbours`: the neighbours that a number lies between
* `Binary64.exists_ofRat?_iff`: which numbers are rounded to a finite double
* `Binary64.precedes_rankOfRatio`: the rank of a number is nearer than all other ones
* `Binary64.isNearest_of_ofRat?`: rounding gives the nearest double
* `Binary64.IsNearest.unique`: there is only one nearest double
-/

namespace DiceLaw

namespace Number

section

variable {side : Nat → Ordering} {rank : Nat}

theorem rankBelow_not_above (hzero : side 0 ≠ .gt) : side (2 * units (rankBelow side)) ≠ .gt := by
  have hstart : (side (2 * units 0) != .gt) = true := bne_iff_ne.2 hzero
  exact bne_iff_ne.1 (greatest_holds (p := fun rank => side (2 * units rank) != .gt) 63 hstart)

variable (hside : InOrder side)

include hside

theorem above_of_rankBelow_lt (hrank : rank < power 2 63) (hlt : rankBelow side < rank) :
    side (2 * units rank) = .gt := by
  have hreach : rank < 0 + power 2 63 := by omega
  have habove := not_of_greatest_lt hside.not_above 63 hreach hlt
  rwa [bne_eq_false_iff_eq] at habove

variable (hzero : side 0 ≠ .gt)

include hzero

/-- A quantity lies between two neighbours on the scale, and comes out at one of them. -/
theorem nearestRank_spec (hrank : nearestRank side < infinityRank) :
    ∃ below, side (2 * units below) ≠ .gt ∧ side (2 * units (below + 1)) = .gt ∧
      nearestRank side = nearer (side (units below + units (below + 1))) below := by
  have hnext : rankBelow side + 1 < power 2 63 := by
    have hle : rankBelow side ≤ nearestRank side := le_nearer _ _
    have hinfinity : infinityRank < power 2 63 := by decide
    omega
  exact ⟨rankBelow side, rankBelow_not_above hzero,
    above_of_rankBelow_lt hside hnext (Nat.lt_succ_self _), nearestRank_eq side⟩

/-- What comes out at an odd rank or below it are the quantities below the middle between this rank
and the next one. -/
theorem nearestRank_le_iff (hrank : rank < power 2 63) (hodd : rank % 2 = 1) :
    nearestRank side ≤ rank ↔ side (units rank + units (rank + 1)) = .gt := by
  have hmiddle : units rank < units (rank + 1) := units_lt_succ rank
  rw [nearestRank_eq]
  constructor
  · intro hle
    -- otherwise the quantity has reached the middle, from where on the next rank is taken
    by_contra hnot
    have hreached : rank ≤ rankBelow side := by
      by_contra hlt
      exact hside _ _ (by omega) hnot (above_of_rankBelow_lt hside hrank (by omega))
    have heq : rankBelow side = rank := ((le_nearer _ _).trans hle).antisymm hreached
    rw [heq] at hle
    cases hcase : side (units rank + units (rank + 1)) with
    | lt =>
      rw [hcase, nearer] at hle
      omega
    | eq =>
      rw [hcase, nearer, if_neg (by omega)] at hle
      omega
    | gt => exact hnot hcase
  · intro habove
    rcases Nat.lt_trichotomy (rankBelow side) rank with hlt | heq | hlt
    · exact (nearer_le _ _).trans hlt
    · rw [heq, habove]
      exact le_rfl
    · -- a rank beyond the middle is not below the quantity
      have hunits : units (rank + 1) ≤ units (rankBelow side) := by
        rcases Nat.eq_or_lt_of_le hlt with heq | hbeyond
        · exact (congrArg units heq).le
        · exact (units_strictMono hbeyond).le
      exact absurd habove (hside _ _ (by omega) (rankBelow_not_above hzero))

end

end Number

namespace Binary64

open Number

section

variable {a b : Binary64} {q x y : Rat} {rank : Nat}

/-! ## Neighbours on the scale -/

/-- Half units, multiplied by the denominator of a number, are compared with its numerator as they
are themselves with the size of the number. -/
theorem compare_halfUnits (q : Rat) (h : Nat) :
    compare (h * q.den) (q.num.natAbs * power 2 (unitExponent + 1))
      = compare ((h : Rat) / (power 2 (unitExponent + 1) : Nat)) |q| := by
  have hhalves : (0 : Rat) < (power 2 (unitExponent + 1) : Nat) :=
    Nat.cast_pos.2 (power_pos (by decide) _)
  have hden : (0 : Rat) < q.den := Nat.cast_pos.2 q.pos
  generalize power 2 (unitExponent + 1) = halves at hhalves ⊢
  -- to divide both sides by the same positive number does not change how they compare
  have hmono : StrictMono fun n : Nat => (n : Rat) / (halves * q.den) := fun m n hmn =>
    div_lt_div_of_pos_right (Nat.cast_lt.2 hmn) (mul_pos hhalves hden)
  have hleft : ((h * q.den : Nat) : Rat) / (halves * q.den) = h / halves := by
    rw [Nat.cast_mul, mul_div_mul_right _ _ hden.ne']
  have hright : ((q.num.natAbs * halves : Nat) : Rat) / (halves * q.den) = |q| := by
    rw [Nat.cast_mul, mul_comm, mul_div_mul_left _ _ hhalves.ne', abs_eq_natAbs_div]
  rw [← cmp_eq_compare, ← hmono.cmp_map_eq, hleft, hright, cmp_eq_compare]

theorem compare_units (q : Rat) (rank : Nat) :
    compare (2 * units rank * q.den) (q.num.natAbs * power 2 (unitExponent + 1))
      = compare (magnitude rank) |q| := by
  rw [compare_halfUnits, magnitude_eq, power_succ, Nat.cast_mul, Nat.cast_mul, mul_comm,
    Nat.cast_ofNat, mul_div_mul_right _ _ two_ne_zero]

theorem compare_middle (q : Rat) (rank : Nat) :
    compare ((units rank + units (rank + 1)) * q.den) (q.num.natAbs * power 2 (unitExponent + 1))
      = compare ((magnitude rank + magnitude (rank + 1)) / 2) |q| := by
  rw [compare_halfUnits, magnitude_eq, magnitude_eq, power_succ, Nat.cast_mul, Nat.cast_add,
    Nat.cast_ofNat, ← add_div, div_div]

theorem compare_zero (q : Rat) :
    compare (0 * q.den) (q.num.natAbs * power 2 (unitExponent + 1)) ≠ .gt := by
  rw [Nat.zero_mul, ne_eq, compare_gt_iff_gt]
  exact Nat.not_lt_zero _

/-- The size of a number lies between two neighbours on the scale. Its rank is one of them, by the
side on which the middle between them lies. -/
theorem exists_neighbours (hrank : rankOfRatio q.num.natAbs q.den < infinityRank) :
    ∃ below, magnitude below ≤ |q| ∧ |q| < magnitude (below + 1) ∧
      rankOfRatio q.num.natAbs q.den
        = nearer (compare ((magnitude below + magnitude (below + 1)) / 2) |q|) below := by
  obtain ⟨below, hle, hlt, hnearer⟩ :=
    nearestRank_spec (compare_mul_inOrder _ _) (compare_zero q) hrank
  rw [compare_units, ne_eq, compare_gt_iff_gt, not_lt] at hle
  rw [compare_units, compare_gt_iff_gt] at hlt
  rw [compare_middle] at hnearer
  exact ⟨below, hle, hlt, hnearer⟩

/-! ## Numbers that are too large -/

/-- The middle between the greatest finite double and the magnitude that would come next. -/
def overflow : Rat := (magnitude (infinityRank - 1) + magnitude infinityRank) / 2

/-- The numbers below this middle are those that are not too large. -/
theorem exists_ofRat?_iff : (∃ a, ofRat? q = some a) ↔ |q| < overflow := by
  have hlast : infinityRank - 1 < power 2 63 ∧ (infinityRank - 1) % 2 = 1 ∧
      infinityRank - 1 + 1 = infinityRank := by decide
  obtain ⟨hreach, hodd, hnext⟩ := hlast
  have hmiddle := nearestRank_le_iff (compare_mul_inOrder _ _) (compare_zero q) hreach hodd
  rw [compare_middle, hnext, compare_gt_iff_gt] at hmiddle
  rw [overflow, ← hmiddle, Nat.le_sub_one_iff_lt (by decide)]
  constructor
  · rintro ⟨a, ha⟩
    exact (ofRat?_eq_some_iff.1 ha).1
  · intro hrank
    exact ⟨_, ofRat?_eq_some_iff.2 ⟨hrank, rfl⟩⟩

example : overflow = (2 ^ 1024 - 2 ^ 970 : Nat) := by decide +kernel

/-! ## The nearest rank -/

/-- How far the magnitude at a rank is from the size of a number. -/
def offset (q : Rat) (rank : Nat) : Rat := abs (magnitude rank - |q|)

/-- A rank comes before another one if it is nearer to the size of a number, or as near and even. -/
def Precedes (q : Rat) (rank other : Nat) : Prop :=
  offset q rank < offset q other ∨ offset q rank = offset q other ∧ rank % 2 = 0

/-- What is even farther than the other rank is farther as well. -/
theorem Precedes.of_le {other : Nat} {distance : Rat} (h : Precedes q rank other)
    (hfar : offset q other ≤ distance) :
    offset q rank < distance ∨ offset q rank = distance ∧ rank % 2 = 0 := by
  rcases h with hlt | ⟨heq, heven⟩
  · exact .inl (hlt.trans_le hfar)
  · exact (heq.trans_le hfar).lt_or_eq.imp_right fun hdistance => ⟨hdistance, heven⟩

section

variable {below other : Nat}

theorem offset_below (hle : magnitude below ≤ |q|) (hother : other ≤ below) :
    offset q other = |q| - magnitude other := by
  have hmagnitude := magnitude_le_iff.2 hother
  rw [offset, abs_of_nonpos (by linarith), neg_sub]

theorem offset_above (hlt : |q| < magnitude (below + 1)) (hother : below + 1 ≤ other) :
    offset q other = magnitude other - |q| := by
  have hmagnitude := magnitude_le_iff.2 hother
  rw [offset, abs_of_nonneg (by linarith)]

variable (hle : magnitude below ≤ |q|) (hlt : |q| < magnitude (below + 1))

include hle hlt

/-- Of two neighbours the one on the side of the middle comes first. -/
theorem precedes_neighbour
    (hrank : rank = nearer (compare ((magnitude below + magnitude (below + 1)) / 2) |q|) below)
    (hother : other = below ∨ other = below + 1) (hne : other ≠ rank) : Precedes q rank other := by
  have hbelow := offset_below hle le_rfl
  have habove := offset_above hlt le_rfl
  cases hmiddle : compare ((magnitude below + magnitude (below + 1)) / 2) |q| with
  | lt =>
    rw [hmiddle] at hrank
    obtain rfl : rank = below + 1 := hrank
    obtain rfl := hother.resolve_right hne
    rw [compare_lt_iff_lt] at hmiddle
    refine .inl ?_
    rw [hbelow, habove]
    linarith
  | gt =>
    rw [hmiddle] at hrank
    obtain rfl : rank = below := hrank
    obtain rfl := hother.resolve_left hne
    rw [compare_gt_iff_gt] at hmiddle
    refine .inl ?_
    rw [hbelow, habove]
    linarith
  | eq =>
    -- both are equally near, and the even one is taken
    rw [hmiddle, nearer] at hrank
    rw [compare_eq_iff_eq] at hmiddle
    have hequal : offset q below = offset q (below + 1) := by
      rw [hbelow, habove]
      linarith
    by_cases heven : below % 2 = 0
    · obtain rfl : rank = below := hrank.trans (if_pos heven)
      obtain rfl := hother.resolve_left hne
      exact .inr ⟨hequal, heven⟩
    · obtain rfl : rank = below + 1 := hrank.trans (if_neg heven)
      obtain rfl := hother.resolve_right hne
      exact .inr ⟨hequal.symm, Nat.succ_mod_two_eq_zero_iff.2 (Nat.mod_two_ne_zero.1 heven)⟩

/-- A rank is no nearer than the neighbour on its side, and less near if it is another one. -/
theorem exists_neighbour_on_side (other : Nat) :
    ∃ neighbour, (neighbour = below ∨ neighbour = below + 1) ∧
      (other = neighbour ∨ offset q neighbour < offset q other) := by
  rcases Nat.lt_or_ge below other with hside | hside
  · refine ⟨below + 1, .inr rfl, (Nat.eq_or_lt_of_le hside).imp Eq.symm fun hbeyond => ?_⟩
    have hmagnitude := magnitude_lt_iff.2 hbeyond
    rw [offset_above hlt le_rfl, offset_above hlt hside]
    linarith
  · refine ⟨below, .inl rfl, (Nat.eq_or_lt_of_le hside).imp_right fun hbeyond => ?_⟩
    have hmagnitude := magnitude_lt_iff.2 hbeyond
    rw [offset_below hle le_rfl, offset_below hle hside]
    linarith

end

/-- The rank of a number comes before all other ones. -/
theorem precedes_rankOfRatio (hrank : rankOfRatio q.num.natAbs q.den < infinityRank) {other : Nat}
    (hne : other ≠ rankOfRatio q.num.natAbs q.den) :
    Precedes q (rankOfRatio q.num.natAbs q.den) other := by
  obtain ⟨below, hle, hlt, hnearer⟩ := exists_neighbours hrank
  obtain ⟨neighbour, hneighbour, hside⟩ := exists_neighbour_on_side hle hlt other
  by_cases hsame : neighbour = rankOfRatio q.num.natAbs q.den
  · rw [← hsame] at hne ⊢
    exact .inl (hside.resolve_left hne)
  · have hfirst := precedes_neighbour hle hlt hnearer hneighbour hsame
    rcases hside with rfl | hfar
    · exact hfirst
    · exact hfirst.of_le hfar.le

/-! ## The nearest double -/

/-- The sign of a double; a zero has one as well. -/
def isNegative : Binary64 → Bool
  | .notANumber => false
  | .signed negative _ _ => negative

/-- A double is even when its rank is, that is when its last bit is zero. -/
def isEven : Binary64 → Bool
  | .notANumber => false
  | .signed _ rank _ => rank % 2 = 0

/-- A double is nearest to a number if it has the sign of the number, and if every finite double of
another value is farther away, or just as far away while this one is even. -/
structure IsNearest (a : Binary64) (q : Rat) : Prop where
  sign : a.isNegative = decide (q < 0)
  nearest : ∃ x, a.toRat? = some x ∧ ∀ (b : Binary64) (y : Rat), b.toRat? = some y → y ≠ x →
    |x - q| < |y - q| ∨ |x - q| = |y - q| ∧ a.isEven = true

/-- The value of a double of a sign and a rank. -/
def signedMagnitude (negative : Bool) (rank : Nat) : Rat :=
  if negative then -magnitude rank else magnitude rank

theorem toRat?_signed_eq_some {negative : Bool} {hrank : rank ≤ infinityRank} :
    toRat? (.signed negative rank hrank) = some x ↔
      rank < infinityRank ∧ signedMagnitude negative rank = x := by
  rw [toRat?]
  by_cases hinfinity : rank = infinityRank
  · rw [if_pos hinfinity]
    constructor
    · intro h
      cases h
    · rintro ⟨hlt, -⟩
      exact absurd hinfinity hlt.ne
  · rw [if_neg hinfinity, Option.some.injEq]
    exact ⟨fun h => ⟨hrank.lt_of_ne hinfinity, h⟩, And.right⟩

theorem abs_signedMagnitude (negative : Bool) (rank : Nat) :
    |signedMagnitude negative rank| = magnitude rank := by
  cases negative <;> simp [signedMagnitude, abs_of_nonneg (magnitude_nonneg rank)]

/-- With the sign of the number, a value is as far from it as its magnitude is from its size. -/
theorem abs_signedMagnitude_sub (q : Rat) (rank : Nat) :
    |signedMagnitude (q < 0) rank - q| = offset q rank := by
  by_cases hneg : q < 0
  · simp only [signedMagnitude, hneg, decide_true, if_true, offset, abs_of_neg hneg]
    rw [← abs_neg]
    congr 1
    ring
  · simp only [signedMagnitude, hneg, decide_false, Bool.false_eq_true, if_false, offset,
      abs_of_nonneg (not_lt.1 hneg)]

theorem offset_le_abs_sub (hy : |y| = magnitude rank) : offset q rank ≤ |y - q| := by
  rw [offset, ← hy]
  exact abs_abs_sub_abs_le y q

/-- With the other sign, a value is farther from a number than zero is. -/
theorem lt_abs_sub_of_ne (hy : |y| = magnitude rank) (hne : y ≠ signedMagnitude (q < 0) rank) :
    |q| < |y - q| := by
  have hnonneg := magnitude_nonneg rank
  rw [signedMagnitude] at hne
  generalize magnitude rank = m at hy hne hnonneg
  by_cases hneg : q < 0
  · rw [if_pos (decide_eq_true hneg)] at hne
    have hvalue : y = m := (eq_or_eq_neg_of_abs_eq hy).resolve_right hne
    have hpos : 0 < y := (hvalue ▸ hnonneg).lt_of_ne fun hzero => hne (by linarith)
    rw [abs_of_neg hneg, abs_of_pos (by linarith)]
    linarith
  · rw [if_neg (by simpa using hneg)] at hne
    have hvalue : y = -m := (eq_or_eq_neg_of_abs_eq hy).resolve_left hne
    have hpos : 0 < m := hnonneg.lt_of_ne fun hzero => hne (by linarith)
    rw [abs_of_nonneg (not_lt.1 hneg), abs_of_neg (by linarith)]
    linarith

/-- The rank of a number is not farther from its size than zero is. -/
theorem offset_rankOfRatio_le (hrank : rankOfRatio q.num.natAbs q.den < infinityRank) :
    offset q (rankOfRatio q.num.natAbs q.den) ≤ |q| := by
  have hzero : offset q 0 = |q| := by rw [offset, magnitude_zero, zero_sub, abs_neg, abs_abs]
  by_cases hne : 0 = rankOfRatio q.num.natAbs q.den
  · rw [← hne, hzero]
  · rw [← hzero]
    rcases precedes_rankOfRatio hrank hne with hlt | ⟨heq, -⟩
    · exact hlt.le
    · exact heq.le

/-- Rounding gives the nearest double. -/
theorem isNearest_of_ofRat? (h : ofRat? q = some a) : a.IsNearest q := by
  obtain ⟨hrank, rfl⟩ := ofRat?_eq_some_iff.1 h
  have hle := offset_rankOfRatio_le hrank
  have hprecedes : ∀ other ≠ rankOfRatio q.num.natAbs q.den,
      Precedes q (rankOfRatio q.num.natAbs q.den) other := fun _ => precedes_rankOfRatio hrank
  have hsign : decide (q.num < 0) = decide (q < 0) := by simp only [Rat.num_neg]
  generalize rankOfRatio q.num.natAbs q.den = rank at hrank hle hprecedes ⊢
  refine ⟨hsign, _, toRat?_signed_eq_some.2 ⟨hrank, rfl⟩, fun b y hy hne => ?_⟩
  obtain ⟨negative, other, -, hvalue, -⟩ := ordinal?_eq_some_of_toRat? hy
  have habs : |y| = magnitude other := by rw [hvalue]; exact abs_signedMagnitude negative other
  rw [hsign] at hne ⊢
  rw [abs_signedMagnitude_sub]
  by_cases hother : other = rank
  · -- a double of this magnitude and another value has the other sign
    rw [hother] at habs
    exact .inl (hle.trans_lt (lt_abs_sub_of_ne habs hne))
  · have hfar := (hprecedes other hother).of_le (offset_le_abs_sub habs)
    exact hfar.imp_right fun ⟨heq, heven⟩ => ⟨heq, decide_eq_true heven⟩

/-! ## Uniqueness -/

/-- Two values that are as far from a number lie on both sides of it, and what lies between them is
nearer. -/
theorem abs_sub_lt_of_between {z : Rat} (hxy : |x - q| = |y - q|)
    (hz : x < z ∧ z < y ∨ y < z ∧ z < x) : |z - q| < |x - q| := by
  have hsides : x - q = -(y - q) := by
    refine (abs_eq_abs.1 hxy).resolve_left fun hsame => ?_
    rcases hz with ⟨hx, hy⟩ | ⟨hy, hx⟩ <;> linarith
  rcases hz with ⟨hx, hy⟩ | ⟨hy, hx⟩
  · rw [abs_of_neg (by linarith : x - q < 0), abs_lt]
    constructor <;> linarith
  · rw [abs_of_pos (by linarith : 0 < x - q), abs_lt]
    constructor <;> linarith

theorem signedMagnitude_between (negative : Bool) {r m k : Nat} (hr : r < m) (hk : m < k) :
    signedMagnitude negative r < signedMagnitude negative m ∧
        signedMagnitude negative m < signedMagnitude negative k ∨
      signedMagnitude negative k < signedMagnitude negative m ∧
        signedMagnitude negative m < signedMagnitude negative r := by
  have hlower := magnitude_lt_iff.2 hr
  have hhigher := magnitude_lt_iff.2 hk
  cases negative with
  | false =>
    simp only [signedMagnitude, Bool.false_eq_true, if_false]
    exact .inl ⟨hlower, hhigher⟩
  | true =>
    simp only [signedMagnitude, if_true]
    exact .inr ⟨neg_lt_neg hhigher, neg_lt_neg hlower⟩

/-- Of two distances none is smaller if each is, or is equal for a reason of its own. -/
theorem eq_of_lt_or_eq {d e : Rat} {reason reason' : Prop} (h : d < e ∨ d = e ∧ reason)
    (h' : e < d ∨ e = d ∧ reason') : d = e ∧ reason ∧ reason' := by
  rcases h with hlt | ⟨heq, hreason⟩
  · rcases h' with hlt' | ⟨heq', -⟩
    · exact absurd hlt hlt'.not_gt
    · exact absurd heq' hlt.ne'
  · rcases h' with hlt' | ⟨-, hreason'⟩
    · exact absurd heq hlt'.ne'
    · exact ⟨heq, hreason, hreason'⟩

/-- Of two doubles with one sign, the one of higher rank is not nearest beside the other. -/
theorem IsNearest.rank_le {negative : Bool} {r k : Nat} {hr : r ≤ infinityRank}
    {hk : k ≤ infinityRank} (h : (signed negative r hr).IsNearest q)
    (h' : (signed negative k hk).IsNearest q) : k ≤ r := by
  by_contra hlt
  rw [not_le] at hlt
  obtain ⟨x, hx, hnearest⟩ := h.nearest
  obtain ⟨y, hy, hnearest'⟩ := h'.nearest
  obtain ⟨-, rfl⟩ := toRat?_signed_eq_some.1 hx
  obtain ⟨hfinite, rfl⟩ := toRat?_signed_eq_some.1 hy
  have hne : signedMagnitude negative k ≠ signedMagnitude negative r := by
    intro heq
    have hmagnitude := congrArg abs heq
    rw [abs_signedMagnitude, abs_signedMagnitude] at hmagnitude
    exact (magnitude_lt_iff.2 hlt).ne' hmagnitude
  -- they are equally near, so that both of them are even
  obtain ⟨heq, heven, heven'⟩ :=
    eq_of_lt_or_eq (hnearest _ _ hy hne) (hnearest' _ _ hx hne.symm)
  have hr2 : r % 2 = 0 := of_decide_eq_true heven
  have hk2 : k % 2 = 0 := of_decide_eq_true heven'
  -- but then there is an odd one between them, which is nearer
  have hgap : r + 1 < k := by omega
  have hodd : toRat? (.signed negative (r + 1) (hgap.le.trans hk))
      = some (signedMagnitude negative (r + 1)) :=
    toRat?_signed_eq_some.2 ⟨hgap.trans hfinite, rfl⟩
  have hbetween := signedMagnitude_between negative (Nat.lt_add_one r) hgap
  have hnearer := abs_sub_lt_of_between heq hbetween
  have hother : signedMagnitude negative (r + 1) ≠ signedMagnitude negative r := by
    rcases hbetween with ⟨hlower, -⟩ | ⟨-, hhigher⟩
    · exact hlower.ne'
    · exact hhigher.ne
  rcases hnearest _ _ hodd hother with hfar | ⟨hfar, -⟩
  · exact absurd hnearer hfar.not_gt
  · exact absurd hnearer hfar.not_gt

/-- There is only one nearest double. -/
theorem IsNearest.unique (h : a.IsNearest q) (h' : b.IsNearest q) : a = b := by
  cases a with
  | notANumber =>
    obtain ⟨x, hx, -⟩ := h.nearest
    cases hx
  | signed negative r hr =>
    cases b with
    | notANumber =>
      obtain ⟨y, hy, -⟩ := h'.nearest
      cases hy
    | signed negative' k hk =>
      obtain rfl : negative = negative' := h.sign.trans h'.sign.symm
      obtain rfl : r = k := Nat.le_antisymm (h'.rank_le h) (h.rank_le h')
      rfl

end

end Binary64

end DiceLaw
