import DiceLaw.Proofs.Law.Bounds
import DiceLaw.Proofs.Roll.OfFormula

/-!
# Bounds of rolls

The least and the greatest outcome of the roll of a formula are found without its table: from the
ends of the dice, by arithmetic on bounds.

## Main definitions

* `Roll.bounds`: the least and the greatest outcome

## Main results

* `Roll.bounds_of_join`: the bounds of a joint from those of its parts
* `Roll.bounds_by_arithmetic`: the bounds of formulas without quotients
-/

namespace DiceLaw

namespace Roll

variable {f first : Formula} {rest : List Formula} {r : Roll}

/-- The least and the greatest outcome of a roll. -/
def bounds (r : Roll) : Bounds := ⟨r.least, r.greatest⟩

theorem bounds_table (r : Roll) : r.table.bounds = r.bounds := by
  rw [Table.bounds, r.greatest?_table, List.head?_eq_some_head r.occupied]
  rfl

theorem bounds_of_formula (h : f.HasBounds) (hr : ofFormula? f = .ok r) :
    f.bounds? = some r.bounds := by
  rw [Formula.bounds?_of_law h (ofFormula?_eq_ok_iff.1 hr).1, bounds_table]

theorem bounds_of_join {joint : Joint} {op : Bounds → Bounds → Bounds}
    (hj : joint.bounds? = some op) (h : ofFormula? (.join joint first rest) = .ok r) :
    ∃ s rs, (first :: rest).mapM ofFormula? = .ok (s :: rs) ∧
      r.bounds = (rs.map bounds).foldl op s.bounds := by
  obtain ⟨rolls, t, ts, hrolls, htables, hts, hlaw⟩ := exists_parts h
  obtain ⟨s, rs, rfl, rfl, rfl⟩ := List.map_eq_cons_iff.1 htables
  refine ⟨s, rs, hrolls, ?_⟩
  have hbounds := Joint.bounds_law hj hts hlaw
  simpa only [List.map_map, Function.comp_def, bounds_table] using hbounds

/-- The least and the greatest outcome of every formula of numbers and dice that are joined in any
way but by quotients are found by arithmetic on the ends of its dice. At each joint it takes the
ends of the rolls of the parts, whatever formulas these are, from left to right. -/
theorem bounds_by_arithmetic :
    (∀ f r, f.HasBounds → ofFormula? f = .ok r → f.bounds? = some ⟨r.least, r.greatest⟩) ∧
    ∀ joint op first rest r, joint.bounds? = some op →
      ofFormula? (.join joint first rest) = .ok r →
      ∃ s rs, (first :: rest).mapM ofFormula? = .ok (s :: rs) ∧
        r.bounds = (rs.map bounds).foldl op s.bounds :=
  ⟨fun _ _ => bounds_of_formula, fun _ _ _ _ _ => bounds_of_join⟩

/-- A product of two dice that show numbers on both sides of zero, and as many dice with negative
faces as a die says that may show zero. -/
theorem bounds_by_arithmetic_of_signed_dice :
    (∃ r, ofFormula? (.join .product (.die ⟨-1, 2, by decide⟩) [.die ⟨-3, 1, by decide⟩]) = .ok r ∧
      r.least = -6 ∧ r.greatest = 3) ∧
    ∃ r, ofFormula? (.join .sampleSum (.die ⟨0, 2, by decide⟩) [.die ⟨-3, -2, by decide⟩])
        = .ok r ∧
      r.bounds = ⟨-6, 0⟩ := by
  obtain ⟨hformula, hjoin⟩ := bounds_by_arithmetic
  constructor
  · obtain ⟨r, hr, -⟩ :=
      exists_of_law (f := .join .product (.die ⟨-1, 2, by decide⟩) [.die ⟨-3, 1, by decide⟩]) rfl
    have hparts : ∀ part ∈ [.die ⟨-1, 2, by decide⟩, .die ⟨-3, 1, by decide⟩],
        Formula.HasBounds part :=
      List.forall_mem_cons.2 ⟨.die _, List.forall_mem_singleton.2 (.die _)⟩
    have hbounds := hformula _ r (.join (by decide) hparts) hr
    obtain ⟨hleast, hgreatest⟩ := Bounds.mk.inj (Option.some.inj hbounds)
    exact ⟨r, hr, hleast.symm, hgreatest.symm⟩
  · obtain ⟨r, hr, -⟩ :=
      exists_of_law (f := .join .sampleSum (.die ⟨0, 2, by decide⟩) [.die ⟨-3, -2, by decide⟩]) rfl
    obtain ⟨s, rs, hrs, hbounds⟩ := hjoin .sampleSum Bounds.sampled _ _ r rfl hr
    obtain ⟨count, sample, hcount, hsample, heq⟩ := Except.mapM_pair_eq_ok.1 hrs
    obtain ⟨rfl, rfl⟩ := List.cons.inj heq
    have hcounts : ⟨0, 2⟩ = s.bounds := Option.some.inj (hformula _ s (.die _) hcount)
    have hsamples : ⟨-3, -2⟩ = sample.bounds := Option.some.inj (hformula _ sample (.die _) hsample)
    exact ⟨r, hr, by rw [hbounds, List.map_singleton, ← hcounts, ← hsamples]; rfl⟩

end Roll

end DiceLaw
