import DiceLaw.Proofs.Law.Distribution
import DiceLaw.Roll.Statistics

/-!
# The rolls of formulas

The law of a formula has an outcome, so that a formula has a roll whenever it has a law. The table
of the roll is the law.

## Main results

* `Roll.ofFormula?_eq_ok_iff`: the roll of a formula
* `Roll.exists_of_law`, `Roll.exists_of_laws`: laws have rolls
* `Roll.laws_of_rolls`: rolls have laws
* `Roll.exists_parts`, `Roll.exists_body`: the rolls that a roll is made from
-/

namespace DiceLaw

namespace Roll

variable {f : Formula} {fs : List Formula} {t : Table} {ts : List Table} {r : Roll}
  {rs : List Roll}

/-- The roll of a formula is named by the text, and its table is the law. -/
theorem ofFormula?_eq_ok_iff :
    ofFormula? f = .ok r ↔ f.law = .ok r.table ∧ r.name = f.text := by
  constructor
  · intro h
    rw [ofFormula?] at h
    cases hlaw : f.law with
    | error e =>
      rw [hlaw] at h
      cases h
    | ok t =>
      rw [hlaw] at h
      obtain ⟨hname, rfl⟩ := ofTable?_eq_ok h
      exact ⟨rfl, hname⟩
  · rintro ⟨hlaw, hname⟩
    obtain ⟨name, t, hoccupied⟩ := r
    obtain rfl : name = f.text := hname
    rw [ofFormula?, hlaw]
    exact dif_neg hoccupied

/-- A formula with a law has a roll. -/
theorem exists_of_law (h : f.law = .ok t) : ∃ r, ofFormula? f = .ok r ∧ r.table = t := by
  have hoccupied : t.entries ≠ [] := by
    intro hempty
    apply (Formula.isDistribution_law f h).outcomes_ne_nil
    rw [Table.outcomes, hempty, List.map_nil]
  exact ⟨⟨f.text, t, hoccupied⟩, ofFormula?_eq_ok_iff.2 ⟨h, rfl⟩, rfl⟩

/-- So have several formulas. -/
theorem exists_of_laws (h : Formula.laws fs = .ok ts) :
    ∃ rs, fs.mapM ofFormula? = .ok rs ∧ rs.map (·.table) = ts := by
  induction fs generalizing ts with
  | nil =>
    obtain rfl := Except.ok.inj h
    exact ⟨[], rfl, rfl⟩
  | cons f fs ih =>
    obtain ⟨t, us, ht, hus, rfl⟩ := Formula.laws_cons_eq_ok.1 h
    obtain ⟨r, hr, rfl⟩ := exists_of_law ht
    obtain ⟨rs, hrs, rfl⟩ := ih hus
    exact ⟨r :: rs, Except.mapM_cons_eq_ok.2 ⟨r, rs, hr, hrs, rfl⟩, rfl⟩

/-- The tables of rolls are the laws. -/
theorem laws_of_rolls (h : fs.mapM ofFormula? = .ok rs) :
    Formula.laws fs = .ok (rs.map (·.table)) := by
  induction fs generalizing rs with
  | nil =>
    obtain rfl := Except.ok.inj h
    rfl
  | cons f fs ih =>
    obtain ⟨r, others, hr, hothers, rfl⟩ := Except.mapM_cons_eq_ok.1 h
    exact Formula.laws_cons_eq_ok.2 ⟨_, _, (ofFormula?_eq_ok_iff.1 hr).1, ih hothers, rfl⟩

/-- A joint that has a roll is joined from the tables of the rolls of its parts. -/
theorem exists_parts {joint : Joint} {first : Formula} {rest : List Formula}
    (h : ofFormula? (.join joint first rest) = .ok r) :
    ∃ rs t ts, (first :: rest).mapM ofFormula? = .ok rs ∧ rs.map (·.table) = t :: ts ∧
      (∀ u ∈ t :: ts, u.IsDistribution) ∧ joint.law (t :: ts) = .ok r.table := by
  obtain ⟨hlaw, -⟩ := ofFormula?_eq_ok_iff.1 h
  obtain ⟨t, ts, ht, hts, hjoint⟩ := Formula.law_join_eq_ok.1 hlaw
  have hlaws : Formula.laws (first :: rest) = .ok (t :: ts) :=
    Formula.laws_cons_eq_ok.2 ⟨t, ts, ht, hts, rfl⟩
  obtain ⟨rs, hrs, htables⟩ := exists_of_laws hlaws
  exact ⟨rs, t, ts, hrs, htables, Formula.isDistribution_laws _ hlaws, hjoint⟩

theorem greatest?_table (r : Roll) : r.table.greatest? = some r.greatest := by
  rw [Table.greatest?, List.getLast?_eq_some_getLast r.occupied]
  rfl

/-- A formula that explodes has the roll of its body explode, from the greatest outcome on if there
is no threshold. -/
theorem exists_body {body : Formula} {threshold : Option Int} {limit : Nat}
    (h : ofFormula? (.explode body threshold limit) = .ok r) :
    ∃ s, ofFormula? body = .ok s ∧ s.table.IsDistribution ∧
      r.table = s.table.explode (threshold.getD s.greatest) limit := by
  obtain ⟨hlaw, -⟩ := ofFormula?_eq_ok_iff.1 h
  obtain ⟨t, ht, hexplode⟩ := Formula.law_explode_eq_ok.1 hlaw
  obtain ⟨s, hs, rfl⟩ := exists_of_law ht
  refine ⟨s, hs, Formula.isDistribution_law body ht, ?_⟩
  rw [← hexplode, greatest?_table]
  cases threshold <;> rfl

end Roll

end DiceLaw
