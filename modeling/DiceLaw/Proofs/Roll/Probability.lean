import DiceLaw.Proofs.Law.Assignment
import DiceLaw.Proofs.Roll.RunningSums
import DiceLaw.Roll.Query

/-!
# Probabilities of a roll

The outcomes below a number are an initial stretch of all outcomes, so that the running sum at the
last of them is the weight of all of them. The probability of the outcomes above is read off as what
is missing to one; it is the weight of these outcomes if all weights sum to one.

## Main results

* `Roll.probLt_eq_mass`, `Roll.probLte_eq_mass`, `Roll.probGte_eq_mass`, `Roll.probGt_eq_mass`: the
  probabilities on both sides of a number
* `Roll.compareWith_eq`: all probabilities at once
* `Roll.queries_agree_with_table`: the probabilities of a table that is given in any order
-/

namespace DiceLaw

variable {entries : List Entry}

/-! ## Initial stretches -/

theorem takeWhile_runningSums (p : Int → Bool) (start : Rat) (entries : List Entry) :
    (runningSums start entries).takeWhile (fun e => p e.1)
      = runningSums start (entries.takeWhile fun e => p e.1) := by
  induction entries generalizing start with
  | nil => rfl
  | cons e rest ih =>
    rw [runningSums, List.takeWhile_cons, List.takeWhile_cons, ih]
    split
    · rw [runningSums]
    · rfl

/-- A property of all numbers below one that has it takes an initial stretch of outcomes. -/
theorem takeWhile_eq_filter {p : Int → Prop} [DecidablePred p] (h : Ascending entries)
    (hp : ∀ {u v}, u < v → p v → p u) :
    (entries.takeWhile fun e => p e.1) = entries.filter fun e => p e.1 := by
  induction entries with
  | nil => rfl
  | cons e rest ih =>
    obtain ⟨hhead, hrest⟩ := List.pairwise_cons.1 h
    rw [List.takeWhile_cons, List.filter_cons, ih hrest]
    split
    · rfl
    · rename_i he
      -- what does not hold of the head holds of no outcome behind it
      refine (List.filter_eq_nil_iff.2 fun d hd hd' => he ?_).symm
      exact decide_eq_true (hp (hhead d hd) (of_decide_eq_true hd'))

namespace Roll

variable (r : Roll) (v : Int)

theorem sumWhile_eq_sum (p : Int → Bool) :
    r.sumWhile p = ((r.table.entries.takeWhile fun e => p e.1).map (·.2)).sum := by
  rw [sumWhile, Table.cumulative, takeWhile_runningSums, getLast?_runningSums]
  cases hlast : (r.table.entries.takeWhile fun e => p e.1).getLast? with
  | none =>
    rw [List.getLast?_eq_none_iff.1 hlast]
    rfl
  | some e => exact zero_add _

theorem sumWhile_eq_mass (p : Int → Prop) [DecidablePred p] (hp : ∀ {u v}, u < v → p v → p u) :
    r.sumWhile (fun v => p v) = r.table.mass p := by
  rw [sumWhile_eq_sum, Table.mass_eq_sum_filter, takeWhile_eq_filter r.table.ascending hp]

/-! ## Both sides of a number -/

theorem probLt_eq_mass : r.probLt v = r.table.mass (· < v) :=
  r.sumWhile_eq_mass (· < v) fun hu hv => hu.trans hv

theorem probLte_eq_mass : r.probLte v = r.table.mass (· ≤ v) :=
  r.sumWhile_eq_mass (· ≤ v) fun hu hv => hu.le.trans hv

theorem probLte_eq_add : r.probLte v = r.probLt v + r.prob v := by
  rw [probLte_eq_mass, probLt_eq_mass, Table.mass_le_eq, prob]

variable {r}

theorem probGte_eq_mass (h : r.table.expectation (fun _ => 1) = 1) :
    r.probGte v = r.table.mass (v ≤ ·) := by
  rw [probGte, probLt_eq_mass, ← h, ← r.table.mass_add_mass_not (· < v), add_sub_cancel_left]
  simp only [Int.not_lt]

theorem probGt_eq_mass (h : r.table.expectation (fun _ => 1) = 1) :
    r.probGt v = r.table.mass (v < ·) := by
  rw [probGt, probLte_eq_mass, ← h, ← r.table.mass_add_mass_not (· ≤ v), add_sub_cancel_left]
  simp only [Int.not_le]

/-- The probabilities that are found at once are those that are found one by one. -/
theorem compareWith_eq (r : Roll) (v : Int) :
    r.compareWith v = ⟨r.probLt v, r.probLte v, r.prob v, r.probGte v, r.probGt v⟩ := by
  have hlte : 1 - r.probGt v = r.probLte v := sub_sub_cancel 1 (r.probLte v)
  have hlt : r.probLte v - r.prob v = r.probLt v := by
    rw [probLte_eq_add, add_sub_cancel_right]
  have hgte : r.probGt v + r.prob v = r.probGte v := by
    rw [probGt, probLte_eq_add, probGte]
    ring
  rw [compareWith, hlte, hlt, hgte]

/-! ## Tables in any order -/

theorem ofTable?_of_ne_nil (name : String) {t : Table} (h : t.entries ≠ []) :
    ofTable? name t = .ok ⟨name, t, h⟩ := dif_neg h

theorem mass_ofAssignments {given : List Entry} (h : (given.map (·.1)).Nodup) (p : Int → Prop)
    [DecidablePred p] :
    (Table.ofAssignments given).mass p = ((given.filter fun e => p e.1).map (·.2)).sum := by
  rw [Table.mass_eq_sum_filter]
  exact (((Table.entries_ofAssignments_perm h).filter _).map _).sum_eq

/-- If a table is given in any order, with weights that sum to one, the probability of a number is
the weight that it was given, or zero, and those on both sides of it are the sums of the weights
that were given on that side. And of any table with an outcome, all probabilities at once are those
that are found one by one. -/
theorem queries_agree_with_table :
    (∀ (name : String) (given : List Entry), (given.map (·.1)).Nodup → (given.map (·.2)).sum = 1 →
      ∃ r, ofTable? name (Table.ofAssignments given) = .ok r ∧ ∀ v : Int,
        (∀ w, (v, w) ∈ given → r.prob v = w) ∧ (v ∉ given.map (·.1) → r.prob v = 0) ∧
        r.probLt v = ((given.filter fun e => e.1 < v).map (·.2)).sum ∧
        r.probLte v = ((given.filter fun e => e.1 ≤ v).map (·.2)).sum ∧
        r.probGte v = ((given.filter fun e => v ≤ e.1).map (·.2)).sum ∧
        r.probGt v = ((given.filter fun e => v < e.1).map (·.2)).sum) ∧
    ∀ (name : String) (t : Table), t.entries ≠ [] →
      ∃ r, ofTable? name t = .ok r ∧ ∀ v : Int,
        r.compareWith v = ⟨r.probLt v, r.probLte v, r.prob v, r.probGte v, r.probGt v⟩ := by
  refine ⟨fun name given hnodup hsum => ?_, fun name t ht => ?_⟩
  · have hperm := Table.entries_ofAssignments_perm hnodup
    have hone : (Table.ofAssignments given).expectation (fun _ => 1) = 1 := by
      rw [Table.expectation_one, (hperm.map _).sum_eq, hsum]
    have hne : (Table.ofAssignments given).entries ≠ [] := by
      intro hempty
      rw [hempty, List.nil_perm] at hperm
      rw [hperm] at hsum
      exact zero_ne_one hsum
    refine ⟨_, ofTable?_of_ne_nil name hne, fun v => ⟨fun w hw => ?_, fun hv => ?_, ?_⟩⟩
    · exact Table.weight_of_mem (hperm.mem_iff.2 hw)
    · exact Table.weight_of_notMem (mt Table.mem_outcomes_ofAssignments.1 hv)
    · rw [probLt_eq_mass, probLte_eq_mass, probGte_eq_mass v hone, probGt_eq_mass v hone]
      exact ⟨mass_ofAssignments hnodup _, mass_ofAssignments hnodup _,
        mass_ofAssignments hnodup _, mass_ofAssignments hnodup _⟩
  · exact ⟨_, ofTable?_of_ne_nil name ht, fun v => compareWith_eq _ v⟩

/-- Three numbers that are given out of order, and a table whose weights sum to five. -/
theorem queries_agree_with_table_of_three :
    (∃ r, ofTable? "loaded" (Table.ofAssignments [(4, 1 / 2), (-1, 1 / 6), (2, 1 / 3)]) = .ok r ∧
      r.prob 2 = 1 / 3 ∧ r.prob 3 = 0 ∧ r.probLt 2 = 1 / 6 ∧ r.probLte 3 = 1 / 2 ∧
      r.probGte 2 = 5 / 6 ∧ r.probGt 4 = 0) ∧
    ∃ r, ofTable? "heavy" (Table.ofAssignments [(1, 2), (0, 3)]) = .ok r ∧
      r.compareWith 1 = ⟨3, 5, 2, -2, -4⟩ := by
  obtain ⟨hqueries, hall⟩ := queries_agree_with_table
  constructor
  · obtain ⟨r, hr, hr'⟩ := hqueries "loaded" [(4, 1 / 2), (-1, 1 / 6), (2, 1 / 3)] (by decide)
      (by norm_num)
    obtain ⟨htwo, -, hlt, -, hgte, -⟩ := hr' 2
    obtain ⟨-, hthree, -, hlte, -⟩ := hr' 3
    obtain ⟨-, -, -, -, -, hgt⟩ := hr' 4
    refine ⟨r, hr, htwo _ (by simp), hthree (by simp), hlt.trans ?_, hlte.trans ?_, hgte.trans ?_,
      hgt.trans ?_⟩ <;> decide +kernel
  · obtain ⟨r, hr, hr'⟩ := hall "heavy" (Table.ofAssignments [(1, 2), (0, 3)]) (by decide)
    obtain rfl := Except.ok.inj hr
    exact ⟨_, hr, (hr' 1).trans (by decide +kernel)⟩

end Roll

end DiceLaw
