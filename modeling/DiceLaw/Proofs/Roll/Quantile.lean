import DiceLaw.Proofs.Number.Rounding
import DiceLaw.Proofs.Roll.Statistics

/-!
# Quantiles of a roll

A quantile is found like the outcome for a draw, by the first running sum that reaches a level. But
it rounds the running sums to doubles first, and takes the greatest outcome from one on without
looking. Rounding keeps what is in order, so that a greater level is never reached earlier; and it
leaves the draw alone, so that a sum that reaches a draw exactly reaches it when it is rounded as
well. A quantile therefore comes at or before the outcome for the same draw, and differs from it
only if rounding lifts a running sum from below the draw.

## Main definitions

* `Reaches`: a running sum reaches a level once it is rounded

## Main results

* `exists_first_reaching`: the first running sum that reaches a level
* `Roll.exists_quantile`: every number has a quantile
* `Roll.quantile_mono`: greater levels have greater quantiles
* `Roll.quantile_consistent`: quantiles of a table, and draws
-/

namespace DiceLaw

variable {p q draw : Binary64} {x : Rat} {entries : List Entry} {e : Entry}

/-! ## Rounded running sums -/

/-- The running sum of an entry, rounded to a double, reaches a level. -/
def Reaches (p : Binary64) (e : Entry) : Prop :=
  ∃ c, Binary64.ofRat? e.2 = some c ∧ p.le c = true

theorem Reaches.of_le (hpq : p.le q = true) (h : Reaches q e) : Reaches p e := by
  obtain ⟨c, hc, hle⟩ := h
  exact ⟨c, hc, Binary64.le_trans hpq hle⟩

/-- What reaches a draw exactly reaches it when it is rounded. -/
theorem Reaches.of_exact (hx : draw.toRat? = some x) (hle : x ≤ e.2)
    (hround : ∃ c, Binary64.ofRat? e.2 = some c) : Reaches draw e := by
  obtain ⟨c, hc⟩ := hround
  obtain ⟨b, hb, hvalue⟩ := Binary64.exists_ofRat?_of_toRat? hx
  have hdraw : draw.le b = true := (Binary64.le_iff_value hx hvalue).2 le_rfl
  exact ⟨c, hc, Binary64.le_trans hdraw (Binary64.le_of_ofRat? hle hb hc)⟩

/-- If no running sum is too large, the first one that reaches the level is found. -/
theorem exists_first_reaching (hround : ∀ e ∈ entries, ∃ c, Binary64.ofRat? e.2 = some c)
    (hreached : ∃ e ∈ entries, Reaches p e) :
    ∃ before e after, entries = before ++ e :: after ∧ Reaches p e ∧
      (∀ d ∈ before, ¬ Reaches p d) ∧ firstReaching p entries = .ok e.1 := by
  induction entries with
  | nil =>
    obtain ⟨e, he, -⟩ := hreached
    exact absurd he List.not_mem_nil
  | cons head rest ih =>
    obtain ⟨v, w⟩ := head
    obtain ⟨⟨c, hc⟩, hrest⟩ := List.forall_mem_cons.1 hround
    by_cases hhead : p.le c = true
    · refine ⟨[], (v, w), rest, rfl, ⟨c, hc, hhead⟩, fun d hd => absurd hd List.not_mem_nil, ?_⟩
      rw [firstReaching_cons hc, if_pos hhead]
    · have hnot : ¬ Reaches p (v, w) := by
        rintro ⟨c', hc', hle⟩
        obtain rfl := Option.some.inj (hc.symm.trans hc')
        exact hhead hle
      have hlater : ∃ e ∈ rest, Reaches p e := by
        obtain ⟨e, he, hreaches⟩ := hreached
        rcases List.mem_cons.1 he with rfl | he
        · exact absurd hreaches hnot
        · exact ⟨e, he, hreaches⟩
      obtain ⟨before, e, after, rfl, hreaches, hbefore, hfirst⟩ := ih hrest hlater
      refine ⟨(v, w) :: before, e, after, rfl, hreaches,
        List.forall_mem_cons.2 ⟨hnot, hbefore⟩, ?_⟩
      rw [firstReaching_cons hc, if_neg hhead, hfirst]

namespace Roll

variable {r : Roll} {u v : Int}

theorem one_toRat? : Binary64.one.toRat? = some 1 := by decide +kernel

section

variable (h : r.table.IsProbability)

include h

/-- No running sum is too large for a double. -/
theorem exists_ofRat?_of_mem_cumulative :
    ∀ e ∈ r.table.cumulative, ∃ c, Binary64.ofRat? e.2 = some c := by
  intro e he
  rw [Table.cumulative_eq_map] at he
  obtain ⟨v, -, rfl⟩ := List.mem_map.1 he
  obtain ⟨b, hb, -⟩ := Binary64.exists_ofRat?_of_toRat? one_toRat?
  refine Binary64.exists_ofRat?_of_abs_le ?_ hb
  rw [abs_of_nonneg (h.mass_nonneg _), abs_one]
  exact h.mass_le_one _

/-- A level below one has the first outcome whose rounded running sum reaches it. There is one,
since the last running sum is one. -/
theorem exists_first_of_lt_one (hp : p.le p = true) (hone : Binary64.one.le p = false) :
    ∃ v c, (v, c) ∈ r.table.cumulative ∧ Reaches p (v, c) ∧
      (∀ d ∈ r.table.cumulative, Reaches p d → v ≤ d.1) ∧ r.quantile p = .ok v := by
  have hself : Binary64.one.le Binary64.one = true :=
    (Binary64.le_iff_value one_toRat? one_toRat?).2 le_rfl
  have hbelow : p.le Binary64.one = true :=
    (Binary64.le_total hp hself).resolve_right (by simp [hone])
  have hlast : (r.greatest, 1) ∈ r.table.cumulative := by
    have hlast := List.mem_of_getLast? r.getLast?_cumulative
    rwa [h.total] at hlast
  have hround := exists_ofRat?_of_mem_cumulative h
  have hreached : ∃ e ∈ r.table.cumulative, Reaches p e :=
    ⟨_, hlast, (Reaches.of_exact one_toRat? le_rfl (hround _ hlast)).of_le hbelow⟩
  obtain ⟨before, ⟨v, c⟩, after, hsplit, hreaches, hbefore, hfirst⟩ :=
    exists_first_reaching hround hreached
  have hascending : Ascending r.table.cumulative := ascending_runningSums r.table.ascending
  refine ⟨v, c, by rw [hsplit]; simp, hreaches, fun d hd hd' => ?_, ?_⟩
  · rw [hsplit] at hascending hd
    exact le_of_split hascending hd fun hmem => hbefore d hmem hd'
  · rw [quantile, hone]
    exact hfirst

/-- Every number has a quantile, which is an outcome. -/
theorem exists_quantile (hp : p.le p = true) : ∃ v ∈ r.table.outcomes, r.quantile p = .ok v := by
  cases hone : Binary64.one.le p with
  | true => exact ⟨r.greatest, r.greatest_mem, by rw [quantile, if_pos hone]⟩
  | false =>
    obtain ⟨v, c, hmem, -, -, hv⟩ := exists_first_of_lt_one h hp hone
    exact ⟨v, Table.fst_mem_outcomes hmem, hv⟩

/-- Greater levels have greater quantiles. -/
theorem quantile_mono (hpq : p.le q = true) (hu : r.quantile p = .ok u)
    (hv : r.quantile q = .ok v) : u ≤ v := by
  obtain ⟨hp, hq⟩ := Binary64.le_self_of_le hpq
  cases hone : Binary64.one.le q with
  | true =>
    -- from one on, the quantile is the greatest outcome
    rw [quantile, if_pos hone] at hv
    obtain rfl := Except.ok.inj hv
    obtain ⟨u', hmem, hu'⟩ := exists_quantile h hp
    obtain rfl := Except.ok.inj (hu'.symm.trans hu)
    exact le_greatest hmem
  | false =>
    have honep : Binary64.one.le p = false := by
      by_contra hlow
      rw [Binary64.le_trans (Bool.of_not_eq_false hlow) hpq] at hone
      cases hone
    obtain ⟨u', -, -, -, hfirst, hu'⟩ := exists_first_of_lt_one h hp honep
    obtain ⟨v', c, hmem, hreaches, -, hv'⟩ := exists_first_of_lt_one h hq hone
    obtain rfl := Except.ok.inj (hu'.symm.trans hu)
    obtain rfl := Except.ok.inj (hv'.symm.trans hv)
    exact hfirst _ hmem (hreaches.of_le hpq)

/-- The quantile of a draw comes at or before its outcome. If the two differ, rounding lifts the
running sum of the quantile from below the draw. -/
theorem exists_quantile_of_draw (hx : draw.toRat? = some x) (hlt : x < 1) :
    ∃ u v, r.quantile draw = .ok u ∧ r.sample draw = .ok v ∧ u ≤ v ∧
      (u ≠ v → ∃ c, (u, c) ∈ r.table.cumulative ∧ c < x ∧ Reaches draw (u, c)) := by
  have hself : draw.le draw = true := (Binary64.le_iff_value hx hx).2 le_rfl
  have hone : Binary64.one.le draw = false :=
    Bool.eq_false_iff.2 fun h => ((Binary64.le_iff_value one_toRat? hx).1 h).not_gt hlt
  obtain ⟨u, c, hmem, hreaches, hfirst, hu⟩ := exists_first_of_lt_one h hself hone
  obtain ⟨v, hv⟩ := exists_outcomeAt?_of_total h.total hlt.le
  have hle : u ≤ v := by
    obtain ⟨d, hd, hxd⟩ := exists_mem_of_outcomeAt? hv
    exact hfirst _ hd (Reaches.of_exact hx hxd (exists_ofRat?_of_mem_cumulative h _ hd))
  refine ⟨u, v, hu, by rw [sample_of_toRat? r hx, hv], hle, fun hne => ⟨c, hmem, ?_, hreaches⟩⟩
  -- a running sum that reaches the draw as it is belongs to the outcome
  by_contra hxc
  exact hne (hle.antisymm (le_of_outcomeAt? hv hmem (not_lt.1 hxc)))

end

/-! ## The quantiles of a table -/

/-- If a table has weights that are not negative and sum to one, every number, infinite ones
included, has a quantile among the outcomes, and greater numbers have greater ones. For every draw
below one, the quantile comes at or before the outcome; they differ only if a running sum lies below
the draw, and not below it any more when it is rounded. -/
theorem quantile_consistent (name : String) (t : Table) (hnonneg : ∀ e ∈ t.entries, 0 ≤ e.2)
    (hsum : (t.entries.map (·.2)).sum = 1) :
    ∃ r, ofTable? name t = .ok r ∧
      (∀ p q : Binary64, p.le q = true → ∃ u ∈ t.outcomes, ∃ v ∈ t.outcomes,
        r.quantile p = .ok u ∧ r.quantile q = .ok v ∧ u ≤ v) ∧
      ∀ (draw : Binary64) (x : Rat), draw.toRat? = some x → x < 1 →
        ∃ u v, r.quantile draw = .ok u ∧ r.sample draw = .ok v ∧ u ≤ v ∧
          (u ≠ v → ∃ c rounded value, (u, c) ∈ r.table.cumulative ∧
            Binary64.ofRat? c = some rounded ∧ rounded.toRat? = some value ∧
            c < x ∧ x ≤ value) := by
  have h : t.IsProbability := Table.isProbability_of_sum hnonneg hsum
  refine ⟨_, ofTable?_of_ne_nil name h.entries_ne_nil, fun p q hpq => ?_, fun draw x hx hlt => ?_⟩
  · obtain ⟨hp, hq⟩ := Binary64.le_self_of_le hpq
    obtain ⟨u, hu, hpu⟩ := exists_quantile (r := ⟨name, t, h.entries_ne_nil⟩) h hp
    obtain ⟨v, hv, hqv⟩ := exists_quantile (r := ⟨name, t, h.entries_ne_nil⟩) h hq
    exact ⟨u, hu, v, hv, hpu, hqv, quantile_mono h hpq hpu hqv⟩
  · obtain ⟨u, v, hu, hv, hle, hdiffer⟩ :=
      exists_quantile_of_draw (r := ⟨name, t, h.entries_ne_nil⟩) h hx hlt
    refine ⟨u, v, hu, hv, hle, fun hne => ?_⟩
    obtain ⟨c, hmem, hc, rounded, hround, hreaches⟩ := hdiffer hne
    obtain ⟨value, hvalue⟩ := Binary64.exists_toRat?_of_ofRat? hround
    exact ⟨c, rounded, value, hmem, hround, hvalue, hc,
      (Binary64.le_iff_value hx hvalue).1 hreaches⟩

/-- One fifth lies below the double that it is rounded to. A draw of this double is not reached by a
running sum of one fifth, but the quantile is. -/
theorem quantile_consistent_of_fifth :
    ∃ r, ofTable? "loaded" (Table.ofAssignments [(1, 1 / 5), (2, 4 / 5)]) = .ok r ∧
      (∃ u v, r.quantile (.infinity true) = .ok u ∧ r.quantile (.infinity false) = .ok v ∧ u ≤ v) ∧
      r.quantile (.ofRat (1 / 5)) = .ok 1 ∧ r.sample (.ofRat (1 / 5)) = .ok 2 ∧
      ∃ c, (1, c) ∈ r.table.cumulative ∧ c < 3602879701896397 / 18014398509481984 := by
  obtain ⟨r, hr, hmono, hdraw⟩ := quantile_consistent "loaded"
    (Table.ofAssignments [(1, 1 / 5), (2, 4 / 5)]) (by decide +kernel) (by decide +kernel)
  have hvalue : (Binary64.ofRat (1 / 5)).toRat? = some (3602879701896397 / 18014398509481984) := by
    decide +kernel
  obtain ⟨u, -, v, -, hu, hv, hle⟩ := hmono (.infinity true) (.infinity false) (by decide)
  obtain ⟨low, high, hlow, hhigh, -, hdiffer⟩ := hdraw _ _ hvalue (by norm_num)
  obtain rfl := Except.ok.inj hr
  have hone : low = 1 := Except.ok.inj (hlow.symm.trans (by decide +kernel))
  have htwo : high = 2 := Except.ok.inj (hhigh.symm.trans (by decide +kernel))
  subst hone htwo
  obtain ⟨c, -, -, hmem, -, -, hc, -⟩ := hdiffer (by decide)
  exact ⟨_, hr, ⟨u, v, hu, hv, hle⟩, hlow, hhigh, c, hmem, hc⟩

end Roll

end DiceLaw
