import DiceLaw.Formula.Law
import DiceLaw.Proofs.Law.Explosion
import DiceLaw.Proofs.Law.Samples
import Mathlib.Algebra.Order.Field.Rat

/-!
# Laws are distributions

A distribution is a table of positive weights that sum to one. Every operation on tables that makes
the law of a formula from the laws of its parts keeps weights positive, and keeps their sum: so the
law of a formula is a distribution whenever there is one, and has an outcome.

## Main definitions

* `Table.Positive`, `Table.IsDistribution`: positive weights, and distributions

## Main results

* `Table.IsDistribution.combine`, `Table.IsDistribution.mixture`, `Table.IsDistribution.explode`:
  operations that keep distributions
* `Die.expectation_law`: the faces of a die
* `Formula.isDistribution_law`: the law of a formula is a distribution
-/

namespace DiceLaw

namespace Table

variable {t a b count sample : Table} {v : Int} {w : Rat} {entries : List Entry}

/-! ## Positive weights -/

/-- All weights are positive. -/
def Positive (t : Table) : Prop := ∀ e ∈ t.entries, 0 < e.2

theorem positive_weave {more : List Entry → List Entry}
    (hmore : ∀ l : List Entry, (∀ e ∈ l, 0 < e.2) → ∀ e ∈ more l, 0 < e.2) (hw : 0 < w)
    {ys : List Entry} (hys : ∀ e ∈ ys, 0 < e.2) : ∀ e ∈ weave v w more ys, 0 < e.2 := by
  induction ys with
  | nil => exact List.forall_mem_cons.2 ⟨hw, hmore [] hys⟩
  | cons head rest ih =>
    obtain ⟨hhead, hrest⟩ := List.forall_mem_cons.1 hys
    rw [weave]
    split
    · exact List.forall_mem_cons.2 ⟨hhead, ih hrest⟩
    · split
      · exact List.forall_mem_cons.2 ⟨add_pos hw hhead, hmore rest hrest⟩
      · exact List.forall_mem_cons.2 ⟨hw, hmore _ hys⟩

theorem positive_empty : Positive empty := fun _ he => absurd he List.not_mem_nil

theorem Positive.add (ha : a.Positive) (hb : b.Positive) : (a + b).Positive := by
  have hadd : ∀ xs ys : List Entry, (∀ e ∈ xs, 0 < e.2) → (∀ e ∈ ys, 0 < e.2) →
      ∀ e ∈ addEntries xs ys, 0 < e.2 := by
    intro xs
    induction xs with
    | nil => exact fun ys _ hys => hys
    | cons head rest ih =>
      intro ys hxs hys
      obtain ⟨hhead, hrest⟩ := List.forall_mem_cons.1 hxs
      exact positive_weave (fun l hl => ih l hrest hl) hhead hys
  exact hadd a.entries b.entries ha hb

theorem positive_gather (h : ∀ e ∈ entries, 0 < e.2) : (gather entries).Positive := by
  induction entries with
  | nil => exact positive_empty
  | cons e rest ih =>
    obtain ⟨he, hrest⟩ := List.forall_mem_cons.1 h
    exact positive_weave (fun l hl => hl) he (ih hrest)

theorem positive_foldr_add {F : Entry → Table} (h : ∀ e ∈ entries, (F e).Positive) :
    (entries.foldr (fun e t => F e + t) empty).Positive := by
  induction entries with
  | nil => exact positive_empty
  | cons e rest ih =>
    obtain ⟨he, hrest⟩ := List.forall_mem_cons.1 h
    exact he.add (ih hrest)

theorem Positive.scale (ht : t.Positive) (hw : 0 < w) : (t.scale w).Positive :=
  List.forall_mem_map.2 fun e he => mul_pos (ht e he) hw

theorem Positive.filter (ht : t.Positive) (p : Int → Bool) : (t.filter p).Positive :=
  fun e he => ht e (List.mem_filter.1 he).1

theorem Positive.absolute (ht : t.Positive) : t.absolute.Positive :=
  positive_gather (List.forall_mem_map.2 ht)

theorem Positive.combine (g : Int → Int → Int) (ha : a.Positive) (hb : b.Positive) :
    (combine g a b).Positive :=
  positive_foldr_add fun e he =>
    positive_gather (List.forall_mem_map.2 fun d hd => mul_pos (ha e he) (hb d hd))

theorem Positive.mixture {family : Int → Table} (hcount : count.Positive)
    (h : ∀ c, (family c).Positive) : (count.mixture family).Positive :=
  positive_foldr_add fun e he => (h e.1).scale (hcount e he)

theorem Positive.explode (ht : t.Positive) (threshold : Int) (limit : Nat) :
    (explode t threshold limit).Positive := by
  induction limit with
  | zero => rwa [explode_zero]
  | succ limit ih =>
    rw [explode_succ]
    exact (ht.filter _).add ((ht.filter _).combine _ ih)

/-! ## Distributions -/

/-- A table is a distribution if its weights are positive and sum to one. -/
structure IsDistribution (t : Table) : Prop where
  positive : t.Positive
  total : t.expectation (fun _ => 1) = 1

/-- A distribution has an outcome. -/
theorem IsDistribution.outcomes_ne_nil (h : t.IsDistribution) : t.outcomes ≠ [] := by
  intro hempty
  have htotal := h.total
  rw [expectation_eq_sum, hempty] at htotal
  simp at htotal

theorem isDistribution_sure (v : Int) : (sure v).IsDistribution where
  positive := List.forall_mem_singleton.2 one_pos
  total := expectation_sure v _

theorem IsDistribution.absolute (h : t.IsDistribution) : t.absolute.IsDistribution where
  positive := h.positive.absolute
  total := by rw [expectation_absolute, h.total]

theorem IsDistribution.combine (g : Int → Int → Int) (ha : a.IsDistribution)
    (hb : b.IsDistribution) : (combine g a b).IsDistribution where
  positive := ha.positive.combine g hb.positive
  total := by rw [expectation_combine, hb.total, ha.total]

theorem IsDistribution.mixture {family : Int → Table} (hcount : count.IsDistribution)
    (h : ∀ c, (family c).IsDistribution) : (count.mixture family).IsDistribution where
  positive := hcount.positive.mixture fun c => (h c).positive
  total := by
    simp only [expectation_mixture, (h _).total]
    exact hcount.total

theorem IsDistribution.samples (h : sample.IsDistribution) (n : Nat) :
    (samples sample n).IsDistribution := by
  rw [Table.samples, addSamples_eq_foldl]
  exact List.foldlRecOn _ _ (isDistribution_sure 0) fun t ht s hs => by
    rw [List.eq_of_mem_replicate hs]
    exact ht.combine _ h

/-- Either the first roll ends, or it is rolled on with a weight of one. -/
theorem IsDistribution.explode (h : t.IsDistribution) (threshold : Int) (limit : Nat) :
    (explode t threshold limit).IsDistribution where
  positive := h.positive.explode threshold limit
  total := by
    induction limit with
    | zero => rw [explode_zero, h.total]
    | succ limit ih =>
      rw [explode_succ, expectation_add, expectation_combine, ih, expectation_filter,
        expectation_filter, ← expectation_add_fun]
      -- each outcome counts once: it lies below the threshold or reaches it
      refine (expectation_congr fun v _ => ?_).trans h.total
      by_cases hv : v < threshold
      · simp [hv]
      · simp [hv, Int.not_lt.1 hv]

/-! ## Joints -/

/-- What two tables keep when they are taken together, all tables keep. -/
theorem chain_induction {f : Table → Table → Except LawError Table} {P : Table → Prop}
    (hf : ∀ a b t, P a → P b → f a b = .ok t → P t) {first : Table} {rest : List Table}
    (h : ∀ t ∈ first :: rest, P t) (ht : chain f (first :: rest) = .ok t) : P t := by
  induction rest generalizing first with
  | nil =>
    cases ht
    exact h _ List.mem_cons_self
  | cons next rest ih =>
    simp only [List.forall_mem_cons] at h
    obtain ⟨hfirst, hnext, hrest⟩ := h
    obtain ⟨u, hu, ht⟩ := Except.bind_eq_ok.1 ht
    exact ih (List.forall_mem_cons.2 ⟨hf first next u hfirst hnext hu, hrest⟩) ht

theorem IsDistribution.of_convolve {op : Operator} (ha : a.IsDistribution)
    (hb : b.IsDistribution) (h : convolve op a b = .ok t) : t.IsDistribution := by
  rw [eq_combine_of_convolve h]
  exact ha.combine _ hb

theorem IsDistribution.of_sampleSum (hcount : count.IsDistribution)
    (hsample : sample.IsDistribution) (h : sampleSum count sample = .ok t) :
    t.IsDistribution := by
  -- no count is below zero, so that the sum is a mixture of distributions
  rw [sampleSum_eq_mixture sample (nonneg_of_sampleSum h)] at h
  obtain rfl := Except.ok.inj h
  exact hcount.mixture fun c => hsample.samples c.toNat

end Table

/-- Joined distributions make a distribution. -/
theorem Joint.isDistribution_law {joint : Joint} {first t : Table} {rest : List Table}
    (h : ∀ t ∈ first :: rest, t.IsDistribution) (ht : joint.law (first :: rest) = .ok t) :
    t.IsDistribution := by
  cases joint with
  | sampleSum =>
    exact Table.chain_induction (fun _ _ _ ha hb h => ha.of_sampleSum hb h) h ht
  | _ => exact Table.chain_induction (fun _ _ _ ha hb h => ha.of_convolve hb h) h ht

/-- Each face of a die has an equal share. -/
theorem Die.expectation_law (d : Die) (f : Int → Rat) :
    d.law.expectation f = ∑ i ∈ Finset.range d.size, f (d.lo + i) * (1 / d.size) := by
  rw [Table.expectation, Table.expectationOver_eq_sum_map, Die.law, List.map_map]
  rfl

theorem Die.size_pos (d : Die) : 0 < d.size := by
  have := d.lo_le_hi
  rw [size]
  omega

theorem Die.isDistribution_law (d : Die) : d.law.IsDistribution where
  positive := List.forall_mem_map.2 fun _ _ => one_div_pos.2 (Nat.cast_pos.2 d.size_pos)
  total := by
    have hsize : (d.size : Rat) ≠ 0 := Nat.cast_ne_zero.2 d.size_pos.ne'
    rw [d.expectation_law, Finset.sum_const, Finset.card_range, nsmul_eq_mul, one_mul,
      mul_one_div_cancel hsize]

namespace Formula

mutual

/-- The law of a formula is a distribution. -/
theorem isDistribution_law : ∀ (f : Formula) {t : Table}, law f = .ok t → t.IsDistribution
  | .constant value, t, h => by
    rw [law] at h
    obtain rfl := Except.ok.inj h
    exact Table.isDistribution_sure value
  | .die d, t, h => by
    rw [law] at h
    obtain rfl := Except.ok.inj h
    exact d.isDistribution_law
  | .join joint first rest, t, h => by
    obtain ⟨u, us, hu, hus, h⟩ := law_join_eq_ok.1 h
    exact joint.isDistribution_law
      (List.forall_mem_cons.2 ⟨isDistribution_law first hu, isDistribution_laws rest hus⟩) h
  | .absolute body, t, h => by
    obtain ⟨u, hu, rfl⟩ := law_absolute_eq_ok.1 h
    exact (isDistribution_law body hu).absolute
  | .explode body threshold limit, t, h => by
    obtain ⟨u, hu, rfl⟩ := law_explode_eq_ok.1 h
    exact (isDistribution_law body hu).explode _ limit

theorem isDistribution_laws :
    ∀ (fs : List Formula) {ts : List Table}, laws fs = .ok ts → ∀ t ∈ ts, t.IsDistribution
  | [], ts, h => by
    rw [laws] at h
    obtain rfl := Except.ok.inj h
    exact fun _ ht => absurd ht List.not_mem_nil
  | f :: rest, ts, h => by
    obtain ⟨u, us, hu, hus, rfl⟩ := laws_cons_eq_ok.1 h
    exact List.forall_mem_cons.2 ⟨isDistribution_law f hu, isDistribution_laws rest hus⟩

end

end Formula

end DiceLaw
