import DiceLaw.Proofs.Law.Moments
import DiceLaw.Proofs.Roll.OfFormula
import DiceLaw.Proofs.Roll.Probability
import DiceLaw.Roll.Sample
import Mathlib.Order.Interval.Set.Basic

/-!
# Draws of a roll

A draw comes out at the first outcome whose running sum reaches it. The running sum at the outcome
before is the probability of less, so that the draws above zero that come out at one number are
those between the probability of less and the probability of at most this number. These intervals
follow one another and fill everything up to one.

## Main results

* `Roll.probLt_lt_of_outcomeAt?`, `Roll.le_probLte_of_outcomeAt?`: where a draw lies
* `Roll.outcomeAt?_mono`: greater draws have greater outcomes
* `Roll.exists_outcomeAt?_of_total`: every draw up to one has an outcome
* `Roll.outcomeAt?_eq_some_iff`, `Roll.setOf_outcomeAt?`: the draws of a number
* `Roll.exists_sampleMany`: many draws
* `Roll.sample_inverts_cumulative`: draws of the roll of a formula
-/

namespace DiceLaw

namespace Roll

variable {r : Roll} {p q : Rat} {v w : Int}

/-! ## Running sums on both sides of an outcome -/

theorem exists_split_of_outcomeAt? (h : r.outcomeAt? p = some v) :
    ∃ before c after, r.table.cumulative = before ++ (v, c) :: after ∧
      Ascending (before ++ (v, c) :: after) ∧ p ≤ c ∧ ∀ e ∈ before, e.2 < p := by
  obtain ⟨⟨v, c⟩, hfind, rfl⟩ := Option.map_eq_some_iff.1 h
  obtain ⟨hp, before, after, hsplit, hbefore⟩ := List.find?_eq_some_iff_append.1 hfind
  have hascending : Ascending r.table.cumulative := ascending_runningSums r.table.ascending
  exact ⟨before, c, after, hsplit, hsplit ▸ hascending, of_decide_eq_true hp,
    by simpa using hbefore⟩

section

variable {before after : List Entry} {c : Rat}

theorem takeWhile_lt_of_split (h : Ascending (before ++ (v, c) :: after)) :
    (before ++ (v, c) :: after).takeWhile (fun e => e.1 < v) = before := by
  obtain ⟨-, -, hbelow⟩ := List.pairwise_append.1 h
  rw [List.takeWhile_append_of_pos fun e he => decide_eq_true (hbelow e he _ List.mem_cons_self),
    List.takeWhile_cons_of_neg (by simp), List.append_nil]

theorem takeWhile_le_of_split (h : Ascending (before ++ (v, c) :: after)) :
    (before ++ (v, c) :: after).takeWhile (fun e => e.1 ≤ v) = before ++ [(v, c)] := by
  obtain ⟨-, hafter, hbelow⟩ := List.pairwise_append.1 h
  obtain ⟨habove, -⟩ := List.pairwise_cons.1 hafter
  have hnone : after.takeWhile (fun e => e.1 ≤ v) = [] := by
    cases after with
    | nil => rfl
    | cons e rest =>
      exact List.takeWhile_cons_of_neg (by simpa using habove e List.mem_cons_self)
  rw [List.takeWhile_append_of_pos fun e he =>
      decide_eq_true (hbelow e he _ List.mem_cons_self).le,
    List.takeWhile_cons_of_pos (by simp), hnone]

end

/-- A draw reaches no further than the running sum of its outcome. -/
theorem le_probLte_of_outcomeAt? (h : r.outcomeAt? p = some v) : p ≤ r.probLte v := by
  obtain ⟨before, c, after, hsplit, hascending, hp, -⟩ := exists_split_of_outcomeAt? h
  rw [probLte, sumWhile, hsplit, takeWhile_le_of_split hascending, List.getLast?_concat]
  exact hp

/-- A draw above zero lies above the running sum of the outcome before. -/
theorem probLt_lt_of_outcomeAt? (hp : 0 < p) (h : r.outcomeAt? p = some v) : r.probLt v < p := by
  obtain ⟨before, c, after, hsplit, hascending, -, hbefore⟩ := exists_split_of_outcomeAt? h
  rw [probLt, sumWhile, hsplit, takeWhile_lt_of_split hascending]
  split
  · exact hbefore _ (List.mem_of_getLast? ‹_›)
  · exact hp

/-- The running sum of its outcome reaches a draw. -/
theorem exists_mem_of_outcomeAt? (h : r.outcomeAt? p = some v) :
    ∃ c, (v, c) ∈ r.table.cumulative ∧ p ≤ c := by
  obtain ⟨before, c, after, hsplit, -, hp, -⟩ := exists_split_of_outcomeAt? h
  exact ⟨c, by rw [hsplit]; simp, hp⟩

theorem mem_outcomes_of_outcomeAt? (h : r.outcomeAt? p = some v) : v ∈ r.table.outcomes := by
  obtain ⟨c, hmem, -⟩ := exists_mem_of_outcomeAt? h
  exact Table.fst_mem_outcomes hmem

/-- What does not stand in front of an entry has no lower outcome. -/
theorem le_of_split {before after : List Entry} {d e : Entry}
    (h : Ascending (before ++ e :: after)) (hd : d ∈ before ++ e :: after) (hnot : d ∉ before) :
    e.1 ≤ d.1 := by
  obtain ⟨-, hafter, -⟩ := List.pairwise_append.1 h
  obtain ⟨habove, -⟩ := List.pairwise_cons.1 hafter
  rcases List.mem_cons.1 ((List.mem_append.1 hd).resolve_left hnot) with rfl | hd
  · exact le_rfl
  · exact (habove _ hd).le

/-- No outcome below it has a running sum that reaches the draw. -/
theorem le_of_outcomeAt? {e : Entry} (h : r.outcomeAt? p = some v) (he : e ∈ r.table.cumulative)
    (hp : p ≤ e.2) : v ≤ e.1 := by
  obtain ⟨before, c, after, hsplit, hascending, -, hbefore⟩ := exists_split_of_outcomeAt? h
  rw [hsplit] at he
  exact le_of_split hascending he fun hmem => (hbefore _ hmem).not_ge hp

/-- Greater draws have greater outcomes. -/
theorem outcomeAt?_mono (hpq : p ≤ q) (hv : r.outcomeAt? p = some v)
    (hw : r.outcomeAt? q = some w) : v ≤ w := by
  obtain ⟨d, hd, hq⟩ := exists_mem_of_outcomeAt? hw
  exact le_of_outcomeAt? hv hd (hpq.trans hq)

/-! ## Draws up to one -/

/-- The running sums end with the sum of all weights, at the greatest outcome. -/
theorem getLast?_cumulative (r : Roll) :
    r.table.cumulative.getLast? = some (r.greatest, r.table.expectation fun _ => 1) := by
  rw [Table.cumulative, getLast?_runningSums, List.getLast?_eq_some_getLast r.occupied,
    Table.expectation_one, zero_add]
  rfl

/-- If the weights sum to one, every draw up to one is reached. -/
theorem exists_outcomeAt?_of_total (h : r.table.expectation (fun _ => 1) = 1) (hp : p ≤ 1) :
    ∃ v, r.outcomeAt? p = some v := by
  have hfound : (r.table.cumulative.find? fun e => p ≤ e.2).isSome := by
    refine List.find?_isSome.2 ⟨_, List.mem_of_getLast? r.getLast?_cumulative, ?_⟩
    rw [h]
    exact decide_eq_true hp
  obtain ⟨e, he⟩ := Option.isSome_iff_exists.1 hfound
  exact ⟨e.1, by rw [outcomeAt?, he, Option.map_some]⟩

theorem probLte_le_probLt (h : r.table.IsProbability) (hvw : v < w) : r.probLte v ≤ r.probLt w := by
  rw [probLte_eq_mass, probLt_eq_mass]
  exact h.mass_mono fun u hu => Int.lt_of_le_of_lt hu hvw

section

variable (h : r.table.IsDistribution)

include h

theorem exists_outcomeAt? (hp : p ≤ 1) : ∃ v, r.outcomeAt? p = some v :=
  exists_outcomeAt?_of_total h.total hp

/-- A draw of zero has the least outcome. -/
theorem outcomeAt?_zero : r.outcomeAt? 0 = some r.least := by
  obtain ⟨e, rest, hentries⟩ := List.exists_cons_of_ne_nil r.occupied
  have hleast : r.least = e.1 := by simp only [least, hentries, List.head_cons]
  have hweight : 0 < e.2 := h.positive e (hentries ▸ List.mem_cons_self)
  rw [outcomeAt?, Table.cumulative, hentries, runningSums, List.find?_cons_of_pos, Option.map_some,
    hleast]
  exact decide_eq_true (by rw [zero_add]; exact hweight.le)

/-- The draws above zero that come out at a number. -/
theorem outcomeAt?_eq_some_iff (hp : 0 < p) :
    r.outcomeAt? p = some v ↔ r.probLt v < p ∧ p ≤ r.probLte v := by
  constructor
  · exact fun hv => ⟨probLt_lt_of_outcomeAt? hp hv, le_probLte_of_outcomeAt? hv⟩
  · rintro ⟨hlt, hlte⟩
    have hone : r.probLte v ≤ 1 := (r.probLte_eq_mass v).trans_le (h.isProbability.mass_le_one _)
    obtain ⟨u, hu⟩ := exists_outcomeAt? h (hlte.trans hone)
    -- the draw has an outcome, and the interval of any other number lies apart
    rcases Int.lt_trichotomy u v with huv | rfl | huv
    · have := (le_probLte_of_outcomeAt? hu).trans (probLte_le_probLt h.isProbability huv)
      exact absurd hlt this.not_gt
    · exact hu
    · have := hlte.trans (probLte_le_probLt h.isProbability huv)
      exact absurd (probLt_lt_of_outcomeAt? hp hu) this.not_gt

/-- The draws above zero that come out at a number make up an interval. -/
theorem setOf_outcomeAt? (v : Int) :
    {p | 0 < p ∧ r.outcomeAt? p = some v} = Set.Ioc (r.probLt v) (r.probLte v) := by
  ext p
  constructor
  · rintro ⟨hp, hv⟩
    exact (outcomeAt?_eq_some_iff h hp).1 hv
  · intro hinside
    have hp : 0 < p :=
      ((h.isProbability.mass_nonneg (· < v)).trans_eq (r.probLt_eq_mass v).symm).trans_lt hinside.1
    exact ⟨hp, (outcomeAt?_eq_some_iff h hp).2 hinside⟩

/-- Draws up to one are taken one by one, and each of them has its outcome. -/
theorem exists_sampleMany (n : Nat) (draws : List Binary64) (hn : n ≤ draws.length)
    (hdraws : ∀ draw ∈ draws.take n, ∃ p, draw.toRat? = some p ∧ p ≤ 1) :
    ∃ vs, r.sampleMany n draws = (.ok vs, draws.drop n) ∧
      (draws.take n).map (fun draw => draw.toRat?.bind r.outcomeAt?) = vs.map some := by
  induction n generalizing draws with
  | zero => exact ⟨[], rfl, rfl⟩
  | succ n ih =>
    cases draws with
    | nil => exact absurd hn (Nat.not_succ_le_zero n)
    | cons draw rest =>
      obtain ⟨⟨p, hdraw, hp⟩, hrest⟩ := List.forall_mem_cons.1 hdraws
      obtain ⟨v, hv⟩ := exists_outcomeAt? h hp
      obtain ⟨vs, hvs, hmap⟩ := ih rest (Nat.le_of_succ_le_succ hn) hrest
      refine ⟨v :: vs, ?_, ?_⟩
      · rw [sampleMany, sampleNext, sample_of_toRat? r hdraw, hv]
        simp only [hvs, List.drop_succ_cons]
      · rw [List.take_succ_cons, List.map_cons, hdraw, Option.bind_some, hv, hmap, List.map_cons]

end

/-! ## The roll of a formula -/

/-- For the roll of a formula, every draw between zero and one has an outcome. The draw lies above
the probability of less than the outcome and reaches no further than that of at most the outcome;
zero has the least outcome. Greater draws have greater outcomes, and the draws above zero that come
out at a number make up an interval as long as the number is probable. A roll of many takes the
draws in order. -/
theorem sample_inverts_cumulative (f : Formula) (r : Roll) (h : ofFormula? f = .ok r) :
    (∀ (p : Rat) (draw : Binary64) (rest : List Binary64), draw.toRat? = some p → 0 ≤ p → p ≤ 1 →
      ∃ v, r.outcomeAt? p = some v ∧ r.sampleNext (draw :: rest) = (.ok v, rest)) ∧
    (∀ p : Rat, 0 ≤ p → p ≤ 1 → ∃ v, r.outcomeAt? p = some v ∧ 0 < r.prob v ∧
      (p = 0 → v = r.least) ∧ (0 < p → r.probLt v < p ∧ p ≤ r.probLte v)) ∧
    (∀ (p q : Rat) (v w : Int), p ≤ q → r.outcomeAt? p = some v → r.outcomeAt? q = some w →
      v ≤ w) ∧
    (∀ v : Int, {p | 0 < p ∧ r.outcomeAt? p = some v} = Set.Ioc (r.probLt v) (r.probLte v) ∧
      r.probLte v - r.probLt v = r.prob v) ∧
    ∀ (n : Nat) (draws : List Binary64), n ≤ draws.length →
      (∀ draw ∈ draws.take n, ∃ p, draw.toRat? = some p ∧ 0 ≤ p ∧ p ≤ 1) →
      ∃ vs, r.sampleMany n draws = (.ok vs, draws.drop n) ∧
        (draws.take n).map (fun draw => draw.toRat?.bind r.outcomeAt?) = vs.map some := by
  have hlaw : r.table.IsDistribution :=
    Formula.isDistribution_law f (ofFormula?_eq_ok_iff.1 h).1
  refine ⟨fun p draw rest hdraw _ hp => ?_, fun p hnonneg hp => ?_,
    fun p q v w => outcomeAt?_mono, fun v => ⟨setOf_outcomeAt? hlaw v, ?_⟩,
    fun n draws hn hdraws => exists_sampleMany hlaw n draws hn fun draw hdraw => ?_⟩
  · obtain ⟨v, hv⟩ := exists_outcomeAt? hlaw hp
    exact ⟨v, hv, by rw [sampleNext, sample_of_toRat? r hdraw, hv]⟩
  · obtain ⟨v, hv⟩ := exists_outcomeAt? hlaw hp
    refine ⟨v, hv, hlaw.weight_pos (mem_outcomes_of_outcomeAt? hv), ?_, fun hpos =>
      (outcomeAt?_eq_some_iff hlaw hpos).1 hv⟩
    rintro rfl
    exact Option.some.inj (hv.symm.trans (outcomeAt?_zero hlaw))
  · rw [probLte_eq_add, add_sub_cancel_left]
  · obtain ⟨p, hp, -, hone⟩ := hdraws draw hdraw
    exact ⟨p, hp, hone⟩

/-- A coin with the faces one and two, drawn at both ends and in the middle. -/
theorem sample_inverts_cumulative_of_coin :
    ∃ r, ofFormula? (.die ⟨1, 2, by decide⟩) = .ok r ∧
      (∃ v, r.outcomeAt? (1 / 2) = some v ∧ 0 < r.prob v ∧ 1 / 2 ≤ r.probLte v) ∧
      {p | 0 < p ∧ r.outcomeAt? p = some 2} = Set.Ioc (1 / 2) 1 ∧
      r.sampleMany 2 [.zero, .one, .notANumber] = (.ok [1, 2], [.notANumber]) := by
  refine ⟨_, rfl, ?_⟩
  obtain ⟨-, hdraw, -, hset, hmany⟩ := sample_inverts_cumulative (.die ⟨1, 2, by decide⟩) _ rfl
  refine ⟨?_, (hset 2).1.trans ?_, ?_⟩
  · obtain ⟨v, hv, hpos, -, hinside⟩ := hdraw (1 / 2) (by norm_num) (by norm_num)
    exact ⟨v, hv, hpos, (hinside (by norm_num)).2⟩
  · exact congrArg₂ Set.Ioc (by decide +kernel) (by decide +kernel)
  · have hzero : Binary64.zero.toRat? = some 0 := by decide +kernel
    have hone : Binary64.one.toRat? = some 1 := by decide +kernel
    obtain ⟨vs, hvs, hmap⟩ := hmany 2 [.zero, .one, .notANumber] (by decide) (by
      simp [hzero, hone])
    have hvalues : vs.map some = [1, 2].map some := hmap.symm.trans (by decide +kernel)
    obtain rfl := List.map_injective_iff.2 (Option.some_injective Int) hvalues
    exact hvs

end Roll

end DiceLaw
