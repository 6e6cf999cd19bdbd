import DiceLaw.Proofs.Law.Game
import Mathlib.Order.Bounds.Basic

/-!
# The numbers that a formula comes out at

What a formula can come out at is said part by part, without any weights: two operands come out at
what the operator makes of their numbers, a sampling at the sums of as many numbers as it counts.
The law of a formula has exactly these numbers as its outcomes. None of them is lost when weights
are added up, and none is there that the parts do not come out at.

## Main definitions

* `Table.support`: the outcomes of a table, as a set
* `Operator.support`, `sampleSupport`, `Joint.support`: the numbers that joined parts come out at
* `explosions`: the numbers that an exploding roll comes out at
* `Formula.support`: the numbers that a formula comes out at

## Main results

* `Table.support_chain`: tables that are taken together from left to right
* `Formula.support_law`: the outcomes of a law are the numbers that the formula comes out at
-/

namespace DiceLaw

/-! ## Joined parts -/

/-- The operator of a joint. A sampling has none. -/
def Joint.operator? : Joint → Option Operator
  | .sum => some .sum
  | .quotient => some .quotient
  | .product => some .product
  | .sampleSum => none
  | .max => some .max
  | .min => some .min

/-- What an operator makes of two numbers, wherever it makes something of them. -/
def Operator.support (op : Operator) (a b : Set Int) : Set Int :=
  {v | ∃ x ∈ a, ∃ y ∈ b, op.apply x y = .ok v}

/-- The sums of as many samples as a count says. A negative count says no number of samples. -/
def sampleSupport (count sample : Set Int) : Set Int :=
  {v | ∃ ks : List Int, (ks.length : Int) ∈ count ∧ (∀ k ∈ ks, k ∈ sample) ∧ ks.sum = v}

/-- What two joined parts come out at. -/
def Joint.support (joint : Joint) (a b : Set Int) : Set Int :=
  match joint.operator? with
  | some op => op.support a b
  | none => sampleSupport a b

/-- What an exploding roll comes out at: the last roll is kept, any other one ends below the
threshold or is rolled again. -/
def explosions (roll : Set Int) (threshold : Int) : Nat → Set Int
  | 0 => roll
  | limit + 1 =>
    {v | v ∈ roll ∧ v < threshold} ∪
      {v | ∃ x ∈ roll, threshold ≤ x ∧ ∃ u ∈ explosions roll threshold limit, x + u = v}

/-- The roll explodes from the number on: from the threshold that is given, or else from the
greatest number that it comes out at. -/
def ExplodesFrom (threshold : Option Int) (roll : Set Int) (m : Int) : Prop :=
  match threshold with
  | some given => m = given
  | none => IsGreatest roll m

namespace Formula

mutual

/-- The numbers that a formula comes out at. -/
def support : Formula → Set Int
  | .constant value => {value}
  | .die d => {v | d.lo ≤ v ∧ v ≤ d.hi}
  | .join joint first rest => (supports rest).foldl joint.support (support first)
  | .absolute body => {v | ∃ u ∈ support body, (u.natAbs : Int) = v}
  | .explode body threshold limit =>
    {v | ∃ m, ExplodesFrom threshold (support body) m ∧ v ∈ explosions (support body) m limit}

/-- The numbers that each of several formulas comes out at. -/
def supports : List Formula → List (Set Int)
  | [] => []
  | f :: rest => support f :: supports rest

end

end Formula

/-! ## Outcomes of tables -/

namespace Table

variable {t a b count sample : Table} {v : Int}

/-- The outcomes of a table. -/
def support (t : Table) : Set Int := {v | v ∈ t.outcomes}

@[simp] theorem mem_support : v ∈ t.support ↔ v ∈ t.outcomes := Iff.rfl

theorem support_sure (v : Int) : (sure v).support = {v} := by
  ext u
  simp

theorem support_absolute (t : Table) :
    t.absolute.support = {v | ∃ u ∈ t.support, (u.natAbs : Int) = v} := by
  ext v
  exact mem_outcomes_absolute

theorem support_explode (t : Table) (threshold : Int) (limit : Nat) :
    (t.explode threshold limit).support = explosions t.support threshold limit := by
  induction limit with
  | zero => rw [explode_zero, explosions]
  | succ limit ih =>
    ext v
    rw [explode_succ, explosions, ← ih]
    simp only [mem_support, mem_outcomes_add, mem_outcomes_filter, mem_outcomes_combine,
      decide_eq_true_eq, Set.mem_union, Set.mem_ofPred_eq, and_assoc]

/-- Two tables that have a result under an operator come out at what it makes of their outcomes:
it does not fail on any two of them. -/
theorem support_convolve {op : Operator} (h : convolve op a b = .ok t) :
    t.support = op.support a.support b.support := by
  rw [convolve] at h
  split at h
  · cases h
  · rename_i hmeets
    obtain rfl := Except.ok.inj h
    ext v
    rw [mem_support, mem_outcomes_combine]
    refine exists_congr fun x => and_congr_right fun hx => exists_congr fun y =>
      and_congr_right fun hy => ?_
    have hoccupied : a.isEmpty = false := by
      have := List.ne_nil_of_mem hx
      simpa [isEmpty, outcomes] using this
    have hfails : op.failsOn y = false := by
      simp only [meetsFailure, hoccupied, Bool.not_false, Bool.true_and, List.any_eq_true,
        not_exists, not_and, Bool.not_eq_true] at hmeets
      exact hmeets y hy
    simp [Operator.apply, hfails]

/-- A sum of samples comes out at the sums of as many outcomes as a count says. -/
theorem support_sampleSum (h : sampleSum count sample = .ok t) :
    t.support = sampleSupport count.support sample.support := by
  have hcount := nonneg_of_sampleSum h
  rw [sampleSum_eq_mixture sample hcount] at h
  obtain rfl := Except.ok.inj h
  ext v
  simp only [mem_support, mem_outcomes_mixture, mem_outcomes_samples, mem_draws, sampleSupport,
    Set.mem_ofPred_eq]
  constructor
  · rintro ⟨c, hc, ks, ⟨hlength, hks⟩, rfl⟩
    have hlength : (ks.length : Int) = c := by
      have := hcount c hc
      omega
    exact ⟨ks, hlength ▸ hc, hks, rfl⟩
  · rintro ⟨ks, hc, hks, rfl⟩
    exact ⟨ks.length, hc, ks, ⟨by omega, hks⟩, rfl⟩

/-- If each two tables come out at what a function makes of their outcomes, so do all tables that
are taken together from left to right. -/
theorem support_chain {f : Table → Table → Except LawError Table} {g : Set Int → Set Int → Set Int}
    (hf : ∀ a b t, f a b = .ok t → t.support = g a.support b.support) {first : Table}
    {rest : List Table} (h : chain f (first :: rest) = .ok t) :
    t.support = (rest.map support).foldl g first.support := by
  induction rest generalizing first with
  | nil =>
    obtain rfl := Except.ok.inj h
    rfl
  | cons next rest ih =>
    obtain ⟨u, hu, h⟩ := Except.bind_eq_ok.1 h
    rw [ih h, hf first next u hu, List.map_cons, List.foldl_cons]

end Table

/-! ## The law of a formula -/

theorem Die.support_law (d : Die) : d.law.support = {v | d.lo ≤ v ∧ v ≤ d.hi} := by
  have := d.lo_le_hi
  ext v
  simp only [Table.mem_support, Table.outcomes, Die.law, Die.size, List.map_map, List.mem_map,
    List.mem_range, Function.comp_apply, Set.mem_ofPred_eq]
  constructor
  · rintro ⟨i, hi, rfl⟩
    omega
  · rintro ⟨hlo, hhi⟩
    exact ⟨(v - d.lo).toNat, by omega, by omega⟩

/-- Joined tables come out at what the joint makes of their outcomes. -/
theorem Joint.support_law {joint : Joint} {first t : Table} {rest : List Table}
    (h : joint.law (first :: rest) = .ok t) :
    t.support = (rest.map Table.support).foldl joint.support first.support := by
  cases joint with
  | sampleSum => exact Table.support_chain (fun _ _ _ h => Table.support_sampleSum h) h
  | _ => exact Table.support_chain (fun _ _ _ h => Table.support_convolve h) h

namespace Table

/-- The greatest outcome of a table is the threshold of a roll that is given none. -/
theorem explodesFrom_iff {t : Table} (h : t.outcomes ≠ []) (threshold : Option Int) (m : Int) :
    ExplodesFrom threshold t.support m ↔ m = (threshold <|> t.greatest?).getD 0 := by
  cases threshold with
  | some given => exact Iff.rfl
  | none =>
    obtain ⟨g, hg, hgreatest, hsome⟩ := greatest?_eq_some h
    have hisGreatest : IsGreatest t.support g := ⟨hg, hgreatest⟩
    show IsGreatest t.support m ↔ m = t.greatest?.getD 0
    rw [hsome, Option.getD_some]
    exact ⟨fun hm => hm.unique hisGreatest, fun hm => hm ▸ hisGreatest⟩

end Table

namespace Formula

mutual

/-- The outcomes of the law of a formula are the numbers that the formula comes out at. -/
theorem support_law : ∀ (f : Formula) {t : Table}, law f = .ok t → t.support = support f
  | .constant value, t, h => by
    rw [law] at h
    obtain rfl := Except.ok.inj h
    rw [support, Table.support_sure]
  | .die d, t, h => by
    rw [law] at h
    obtain rfl := Except.ok.inj h
    rw [support, d.support_law]
  | .join joint first rest, t, h => by
    obtain ⟨u, us, hu, hus, h⟩ := law_join_eq_ok.1 h
    rw [joint.support_law h, support_law first hu, supports_laws rest hus, support]
  | .absolute body, t, h => by
    obtain ⟨u, hu, rfl⟩ := law_absolute_eq_ok.1 h
    rw [u.support_absolute, support_law body hu, support]
  | .explode body threshold limit, t, h => by
    obtain ⟨u, hu, rfl⟩ := law_explode_eq_ok.1 h
    have hthreshold := Table.explodesFrom_iff (isDistribution_law body hu).outcomes_ne_nil threshold
    rw [u.support_explode, support, ← support_law body hu]
    ext v
    simp only [hthreshold, Set.mem_ofPred_eq, exists_eq_left]

theorem supports_laws : ∀ (fs : List Formula) {ts : List Table}, laws fs = .ok ts →
    ts.map Table.support = supports fs
  | [], ts, h => by
    rw [laws] at h
    obtain rfl := Except.ok.inj h
    rfl
  | f :: rest, ts, h => by
    obtain ⟨u, us, hu, hus, rfl⟩ := laws_cons_eq_ok.1 h
    rw [List.map_cons, support_law f hu, supports_laws rest hus, supports]

end

end Formula

end DiceLaw
