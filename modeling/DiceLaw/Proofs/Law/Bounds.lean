import DiceLaw.Proofs.Law.Mean
import DiceLaw.Proofs.Law.Support
import Mathlib.Algebra.Order.BigOperators.Group.List
import Mathlib.Order.Bounds.Image

/-!
# Bounds of outcomes

The least and the greatest number that joined parts come out at are found from those of the parts.
Sums, greatest and least outcomes grow with their operands, so that the ends of the operands make
the ends of the result. A product has its ends among the products of ends, whichever signs these
have. A sampling has them where the count is at one of its ends and all samples are at the same end;
a count of zero makes no sample, which is why an end of the count may also be the wrong one.

## Main definitions

* `Bounds`: two ends
* `Bounds.IsTight`: the ends of a set are reached, and nothing lies beyond them
* `Bounds.add`, `Bounds.mul`, `Bounds.max`, `Bounds.min`, `Bounds.sampled`: arithmetic on bounds
* `Joint.bounds?`: the arithmetic of a joint
* `Formula.bounds?`: the bounds of a formula, from its numbers and dice alone
* `Formula.HasBounds`: the formulas that have bounds

## Main results

* `Joint.isTight_support`: bounds of two joined parts
* `Joint.bounds_law`: bounds of a joined law
* `Formula.bounds?_of_law`: bounds of the law of a formula
-/

namespace DiceLaw

/-- A lower and an upper end. -/
structure Bounds where
  lo : Int
  hi : Int
  deriving DecidableEq, Repr

namespace Bounds

variable {a b : Bounds} {s t : Set Int}

/-! ## Arithmetic -/

/-- End by end. -/
def add (a b : Bounds) : Bounds := ⟨a.lo + b.lo, a.hi + b.hi⟩

/-- The greater of the lower ends, and the greater of the upper ends. -/
def max (a b : Bounds) : Bounds := ⟨Max.max a.lo b.lo, Max.max a.hi b.hi⟩

/-- The less of the lower ends, and the less of the upper ends. -/
def min (a b : Bounds) : Bounds := ⟨Min.min a.lo b.lo, Min.min a.hi b.hi⟩

/-- The least and the greatest of the four products of ends. -/
def mul (a b : Bounds) : Bounds where
  lo := Min.min (Min.min (a.lo * b.lo) (a.lo * b.hi)) (Min.min (a.hi * b.lo) (a.hi * b.hi))
  hi := Max.max (Max.max (a.lo * b.lo) (a.lo * b.hi)) (Max.max (a.hi * b.lo) (a.hi * b.hi))

/-- As many samples at the lower end as the count says at one of its ends, whichever makes less, and
as many at the upper end, whichever makes more. -/
def sampled (count sample : Bounds) : Bounds where
  lo := Min.min (count.lo * sample.lo) (count.hi * sample.lo)
  hi := Max.max (count.lo * sample.hi) (count.hi * sample.hi)

/-! ## Tight bounds -/

/-- Both ends are in the set, and nothing in it lies beyond them. -/
structure IsTight (b : Bounds) (s : Set Int) : Prop where
  isLeast : IsLeast s b.lo
  isGreatest : IsGreatest s b.hi

theorem IsTight.unique (ha : a.IsTight s) (hb : b.IsTight s) : a = b := by
  obtain ⟨lo, hi⟩ := a
  obtain ⟨lo', hi'⟩ := b
  obtain rfl : lo = lo' := ha.isLeast.unique hb.isLeast
  obtain rfl : hi = hi' := ha.isGreatest.unique hb.isGreatest
  rfl

/-- What grows with both operands has the ends of the operands as its ends. -/
theorem IsTight.image2 {f : Int → Int → Int}
    (hf : ∀ {x x' y y' : Int}, x ≤ x' → y ≤ y' → f x y ≤ f x' y') (ha : a.IsTight s)
    (hb : b.IsTight t) : IsTight ⟨f a.lo b.lo, f a.hi b.hi⟩ (Set.image2 f s t) where
  isLeast := ha.isLeast.image2 (fun _ _ _ h => hf h le_rfl) (fun _ _ _ h => hf le_rfl h) hb.isLeast
  isGreatest :=
    ha.isGreatest.image2 (fun _ _ _ h => hf h le_rfl) (fun _ _ _ h => hf le_rfl h) hb.isGreatest

/-- A multiple of what lies between two ends lies between the multiples of the ends. Which of them
is the lower one depends on the sign of the factor. -/
theorem min_mul_le_and_le_max_mul {l h x : Int} (hl : l ≤ x) (hh : x ≤ h) (k : Int) :
    Min.min (l * k) (h * k) ≤ x * k ∧ x * k ≤ Max.max (l * k) (h * k) := by
  rcases le_total 0 k with hk | hk
  · exact ⟨(min_le_left _ _).trans (mul_le_mul_of_nonneg_right hl hk),
      (mul_le_mul_of_nonneg_right hh hk).trans (le_max_right _ _)⟩
  · exact ⟨(min_le_right _ _).trans (mul_le_mul_of_nonpos_right hh hk),
      (mul_le_mul_of_nonpos_right hl hk).trans (le_max_left _ _)⟩

/-- Each of the four products of ends is a product, and one of them lies as low as any product, and
one as high. -/
theorem IsTight.mul (ha : a.IsTight s) (hb : b.IsTight t) :
    (a.mul b).IsTight (Set.image2 (· * ·) s t) := by
  have hcorner : ∀ {x y : Int}, x ∈ s → y ∈ t → x * y ∈ Set.image2 (· * ·) s t :=
    fun hx hy => Set.mem_image2_of_mem hx hy
  have hends : ∀ {x y : Int}, y ∈ t →
      Min.min (x * b.lo) (x * b.hi) ≤ x * y ∧ x * y ≤ Max.max (x * b.lo) (x * b.hi) := by
    intro x y hy
    have h := min_mul_le_and_le_max_mul (hb.isLeast.2 hy) (hb.isGreatest.2 hy) x
    simpa only [mul_comm] using h
  have hall : ∀ {x y : Int}, x ∈ s → y ∈ t → (a.mul b).lo ≤ x * y ∧ x * y ≤ (a.mul b).hi := by
    intro x y hx hy
    -- first the one factor goes to an end, then the other
    have h := min_mul_le_and_le_max_mul (ha.isLeast.2 hx) (ha.isGreatest.2 hx) y
    exact ⟨(min_le_min (hends hy).1 (hends hy).1).trans h.1,
      h.2.trans (max_le_max (hends hy).2 (hends hy).2)⟩
  constructor
  · refine ⟨?_, Set.forall_mem_image2.2 fun x hx y hy => (hall hx hy).1⟩
    exact min_rec' _
      (min_rec' _ (hcorner ha.isLeast.1 hb.isLeast.1) (hcorner ha.isLeast.1 hb.isGreatest.1))
      (min_rec' _ (hcorner ha.isGreatest.1 hb.isLeast.1) (hcorner ha.isGreatest.1 hb.isGreatest.1))
  · refine ⟨?_, Set.forall_mem_image2.2 fun x hx y hy => (hall hx hy).2⟩
    exact max_rec' _
      (max_rec' _ (hcorner ha.isLeast.1 hb.isLeast.1) (hcorner ha.isLeast.1 hb.isGreatest.1))
      (max_rec' _ (hcorner ha.isGreatest.1 hb.isLeast.1) (hcorner ha.isGreatest.1 hb.isGreatest.1))

/-- As many samples as a count says lie between as many lower and as many upper ends; so they do
for the count at one of its ends. If no count is below zero, all these sums are reached. -/
theorem IsTight.sampled (ha : a.IsTight s) (hb : b.IsTight t) (hcount : ∀ c ∈ s, 0 ≤ c) :
    (a.sampled b).IsTight (sampleSupport s t) := by
  have hreached : ∀ {c k : Int}, c ∈ s → k ∈ t → c * k ∈ sampleSupport s t := by
    intro c k hc hk
    have hcast : ((c.toNat : Nat) : Int) = c := Int.toNat_of_nonneg (hcount c hc)
    -- all samples are the same
    refine ⟨List.replicate c.toNat k, ?_, fun l hl => List.eq_of_mem_replicate hl ▸ hk, ?_⟩
    · rwa [List.length_replicate, hcast]
    · rw [List.sum_replicate, nsmul_eq_mul, hcast]
  constructor
  · refine ⟨min_rec' _ (hreached ha.isLeast.1 hb.isLeast.1)
      (hreached ha.isGreatest.1 hb.isLeast.1), ?_⟩
    rintro v ⟨ks, hc, hks, rfl⟩
    -- the samples are replaced by the end first, and then their number
    have hsum := List.card_nsmul_le_sum ks b.lo fun k hk => hb.isLeast.2 (hks k hk)
    rw [nsmul_eq_mul] at hsum
    exact (min_mul_le_and_le_max_mul (ha.isLeast.2 hc) (ha.isGreatest.2 hc) b.lo).1.trans hsum
  · refine ⟨max_rec' _ (hreached ha.isLeast.1 hb.isGreatest.1)
      (hreached ha.isGreatest.1 hb.isGreatest.1), ?_⟩
    rintro v ⟨ks, hc, hks, rfl⟩
    have hsum := List.sum_le_card_nsmul ks b.hi fun k hk => hb.isGreatest.2 (hks k hk)
    rw [nsmul_eq_mul] at hsum
    exact hsum.trans (min_mul_le_and_le_max_mul (ha.isLeast.2 hc) (ha.isGreatest.2 hc) b.hi).2

end Bounds

/-! ## Joints -/

/-- The arithmetic of a joint. Quotients have none: their ends need not come from ends. -/
def Joint.bounds? : Joint → Option (Bounds → Bounds → Bounds)
  | .sum => some Bounds.add
  | .product => some Bounds.mul
  | .sampleSum => some Bounds.sampled
  | .max => some Bounds.max
  | .min => some Bounds.min
  | .quotient => none

theorem Operator.support_eq_image2 {op : Operator} (hop : op ≠ .quotient) (a b : Set Int) :
    op.support a b = Set.image2 op.combine a b := by
  have hfails : ∀ v, op.failsOn v = false := fun v => by simp [failsOn, hop]
  ext v
  simp [support, apply, hfails, Set.mem_image2]

/-- The bounds of two joined parts are found from the bounds of the parts, if no count is below
zero. -/
theorem Joint.isTight_support {joint : Joint} {op : Bounds → Bounds → Bounds} {a b : Bounds}
    {s t : Set Int} (hj : joint.bounds? = some op) (ha : a.IsTight s) (hb : b.IsTight t)
    (hcount : joint = .sampleSum → ∀ c ∈ s, 0 ≤ c) : (op a b).IsTight (joint.support s t) := by
  have himage : ∀ operator : Operator, operator ≠ .quotient →
      joint.operator? = some operator → joint.support s t = Set.image2 operator.combine s t := by
    intro operator hop hoperator
    rw [support, hoperator]
    exact operator.support_eq_image2 hop s t
  cases joint with
  | quotient => cases hj
  | sampleSum =>
    obtain rfl := Option.some.inj hj
    exact ha.sampled hb (hcount rfl)
  | product =>
    obtain rfl := Option.some.inj hj
    rw [himage .product (by decide) rfl]
    exact ha.mul hb
  | sum =>
    obtain rfl := Option.some.inj hj
    rw [himage .sum (by decide) rfl]
    exact ha.image2 (fun hx hy => Int.add_le_add hx hy) hb
  | max =>
    obtain rfl := Option.some.inj hj
    rw [himage .max (by decide) rfl]
    exact ha.image2 (fun hx hy => max_le_max hx hy) hb
  | min =>
    obtain rfl := Option.some.inj hj
    rw [himage .min (by decide) rfl]
    exact ha.image2 (fun hx hy => min_le_min hx hy) hb

/-! ## Tables -/

namespace Table

variable {t : Table} {b : Bounds}

/-- The least and the greatest outcome; zero if there is none. -/
def bounds (t : Table) : Bounds := ⟨(t.entries.head?.map (·.1)).getD 0, t.greatest?.getD 0⟩

theorem isTight_bounds (h : t.outcomes ≠ []) : t.bounds.IsTight t.support := by
  obtain ⟨l, hhead, hl, hleast⟩ := exists_least h
  obtain ⟨g, hg, hgreatest, hsome⟩ := greatest?_eq_some h
  rw [bounds, hhead, hsome]
  exact ⟨⟨hl, hleast⟩, hg, hgreatest⟩

theorem bounds_eq_iff (h : t.outcomes ≠ []) : t.bounds = b ↔ b.IsTight t.support :=
  ⟨fun hb => hb ▸ isTight_bounds h, fun hb => (isTight_bounds h).unique hb⟩

end Table

/-- Joined tables have the bounds that the joint finds from those of the tables, from left to
right. -/
theorem Joint.bounds_law {joint : Joint} {op : Bounds → Bounds → Bounds} {first t : Table}
    {rest : List Table} (hj : joint.bounds? = some op)
    (h : ∀ t ∈ first :: rest, t.IsDistribution) (ht : joint.law (first :: rest) = .ok t) :
    t.bounds = (rest.map Table.bounds).foldl op first.bounds := by
  have hstep : ∀ {a b u : Table}, a.IsDistribution → b.IsDistribution → u.IsDistribution →
      u.support = joint.support a.support b.support →
      (joint = .sampleSum → ∀ c ∈ a.outcomes, 0 ≤ c) → u.bounds = op a.bounds b.bounds := by
    intro a b u ha hb hu hsupport hcount
    rw [Table.bounds_eq_iff hu.outcomes_ne_nil, hsupport]
    exact isTight_support hj (Table.isTight_bounds ha.outcomes_ne_nil)
      (Table.isTight_bounds hb.outcomes_ne_nil) hcount
  cases joint with
  | sampleSum =>
    -- a sampling with a result has no count below zero
    refine Table.chain_foldl (fun a b u ha hb hu => ?_) h ht
    have hdistribution := ha.of_sampleSum hb hu
    exact ⟨hdistribution, hstep ha hb hdistribution (Table.support_sampleSum hu)
      fun _ => Table.nonneg_of_sampleSum hu⟩
  | _ =>
    refine Table.chain_foldl (fun a b u ha hb hu => ?_) h ht
    have hdistribution := ha.of_convolve hb hu
    exact ⟨hdistribution, hstep ha hb hdistribution (Table.support_convolve hu) nofun⟩

/-! ## Formulas -/

namespace Formula

mutual

/-- The bounds of a formula. They are found from the ends of its dice, without any table. -/
def bounds? : Formula → Option Bounds
  | .constant value => some ⟨value, value⟩
  | .die d => some ⟨d.lo, d.hi⟩
  | .join joint first rest => do
    let op ← joint.bounds?
    let b ← bounds? first
    let bs ← boundsAll? rest
    return bs.foldl op b
  | .absolute _ | .explode .. => none

/-- The bounds of each of several formulas. -/
def boundsAll? : List Formula → Option (List Bounds)
  | [] => some []
  | f :: rest => do
    let b ← bounds? f
    let bs ← boundsAll? rest
    return b :: bs

end

/-- Numbers and dice that are joined in any way but by quotients. -/
inductive HasBounds : Formula → Prop
  | constant (value : Int) : HasBounds (.constant value)
  | die (d : Die) : HasBounds (.die d)
  | join {joint : Joint} {first : Formula} {rest : List Formula} (hjoint : joint ≠ .quotient)
      (hparts : ∀ part ∈ first :: rest, HasBounds part) : HasBounds (.join joint first rest)

theorem boundsAll?_of_laws {fs : List Formula} {ts : List Table}
    (h : ∀ f ∈ fs, ∀ t, law f = .ok t → bounds? f = some t.bounds) (hts : laws fs = .ok ts) :
    boundsAll? fs = some (ts.map Table.bounds) := by
  induction fs generalizing ts with
  | nil =>
    obtain rfl := Except.ok.inj hts
    rfl
  | cons f rest ih =>
    obtain ⟨hf, hrest⟩ := List.forall_mem_cons.1 h
    obtain ⟨u, us, hu, hus, rfl⟩ := laws_cons_eq_ok.1 hts
    rw [boundsAll?, hf u hu, ih hrest hus]
    rfl

/-- The bounds that are found from the numbers and the dice of a formula are the least and the
greatest outcome of its law. -/
theorem bounds?_of_law {f : Formula} (h : f.HasBounds) {t : Table} (ht : law f = .ok t) :
    bounds? f = some t.bounds := by
  induction h generalizing t with
  | constant value =>
    rw [law] at ht
    obtain rfl := Except.ok.inj ht
    rfl
  | die d =>
    have hle := d.lo_le_hi
    rw [law] at ht
    obtain rfl := Except.ok.inj ht
    have htight : Bounds.IsTight ⟨d.lo, d.hi⟩ d.law.support := by
      rw [d.support_law]
      exact ⟨isLeast_Icc hle, isGreatest_Icc hle⟩
    rw [bounds?, (Table.bounds_eq_iff d.isDistribution_law.outcomes_ne_nil).2 htight]
  | @join joint first rest hjoint hparts ih =>
    obtain ⟨u, us, hu, hus, ht⟩ := law_join_eq_ok.1 ht
    have ⟨op, hop⟩ : ∃ op, joint.bounds? = some op := by
      cases joint with
      | quotient => exact absurd rfl hjoint
      | _ => exact ⟨_, rfl⟩
    have hlaws : laws (first :: rest) = .ok (u :: us) := laws_cons_eq_ok.2 ⟨u, us, hu, hus, rfl⟩
    obtain ⟨hfirst, hrest⟩ := List.forall_mem_cons.1 ih
    have hbs := boundsAll?_of_laws (fun f hf t => hrest f hf) hus
    rw [Joint.bounds_law hop (isDistribution_laws _ hlaws) ht, bounds?, hop, hfirst hu, hbs]
    rfl

end Formula

end DiceLaw
