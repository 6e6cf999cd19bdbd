import DiceLaw.Chart.Basic
import DiceLaw.Proofs.Number.Nearest
import DiceLaw.Proofs.Roll.Quantile

/-!
# The columns of a chart

The rolls of a chart are put side by side. They share one column of outcomes, which lists the
outcomes of all of them once and in ascending order, and each roll has a column of doubles beside
it. A roll has a field for every outcome of the chart, also for those that it lacks; without these
fields, what is left of both columns are the columns of its frame. So no field is lost, and none
stands beside an outcome that it does not belong to.

## Main definitions

* `Roll.Fits`: no probability is too large for a double
* `Trace.Shows`: bars show a roll over a column of outcomes

## Main results

* `unzip_filter_zip`: rows that are left out of two columns
* `Chart.mem_outcomes`, `Chart.filter_outcomes`: the outcomes of a chart, and those of one roll
* `Chart.shows_of_trace?`: the bars of a roll show it
* `Chart.ofRolls_columns`: the chart of labelled rolls
-/

namespace DiceLaw

/-! ## Columns of fields -/

section

variable {α β : Type} {f : α → Option β} {as : List α} {bs kept : List β}

/-- A column has the fields of its rows, one by one. -/
theorem mapM_eq_some_iff :
    as.mapM f = some bs ↔ List.Forall₂ (fun a b => f a = some b) as bs := by
  induction as generalizing bs with
  | nil => simp [eq_comm]
  | cons a rest ih =>
    rw [List.mapM_cons, List.forall₂_cons_left_iff]
    constructor
    · intro h
      obtain ⟨b, hb, h⟩ := Option.bind_eq_some_iff.1 h
      obtain ⟨others, hothers, h⟩ := Option.bind_eq_some_iff.1 h
      exact ⟨b, others, hb, ih.1 hothers, (Option.some.inj h).symm⟩
    · rintro ⟨b, others, hb, hothers, rfl⟩
      exact Option.bind_eq_some_iff.2 ⟨b, hb, Option.bind_eq_some_iff.2 ⟨others, ih.2 hothers, rfl⟩⟩

/-- There is no column if a field is missing. -/
theorem mapM_eq_none_iff : as.mapM f = none ↔ ∃ a ∈ as, f a = none := by
  induction as with
  | nil => simp
  | cons a rest ih =>
    rw [List.mapM_cons, List.exists_mem_cons_iff, ← ih]
    cases f a with
    | none => simp
    | some b => cases rest.mapM f <;> simp

theorem exists_mapM (h : ∀ a ∈ as, ∃ b, f a = some b) : ∃ bs, as.mapM f = some bs := by
  refine Option.ne_none_iff_exists'.1 fun hnone => ?_
  obtain ⟨a, ha, hmissing⟩ := mapM_eq_none_iff.1 hnone
  obtain ⟨b, hb⟩ := h a ha
  rw [hmissing] at hb
  cases hb

/-- If rows are left out of two columns, the second column keeps the fields of the first one. -/
theorem unzip_filter_zip {p : α → Bool} (h : List.Forall₂ (fun a b => f a = some b) as bs)
    (hkept : List.Forall₂ (fun a b => f a = some b) (as.filter p) kept) :
    ((as.zip bs).filter fun row => p row.1).unzip = (as.filter p, kept) := by
  induction h generalizing kept with
  | nil =>
    obtain rfl := List.forall₂_nil_left_iff.1 hkept
    rfl
  | @cons a b as bs hb _ ih =>
    have hrow : ((a :: as).zip (b :: bs)).filter (fun row => p row.1)
        = if p a then (a, b) :: (as.zip bs).filter fun row => p row.1
          else (as.zip bs).filter fun row => p row.1 := List.filter_cons
    rw [List.filter_cons] at hkept ⊢
    rw [hrow]
    cases hp : p a with
    | false =>
      rw [hp] at hkept
      exact ih hkept
    | true =>
      -- both second columns have the one field that belongs to this row
      rw [hp] at hkept
      obtain ⟨c, others, hc, hothers, rfl⟩ := List.forall₂_cons_left_iff.1 hkept
      obtain rfl := Option.some.inj (hb.symm.trans hc)
      rw [if_pos rfl, if_pos rfl, List.unzip_cons, ih hothers]

end

/-! ## The columns of a roll -/

theorem Table.entries_eq_map_weight (t : Table) :
    t.entries = t.outcomes.map fun v => (v, t.weight v) := by
  rw [outcomes, List.map_map]
  refine (List.map_id' _).symm.trans (List.map_congr_left fun e he => ?_)
  rw [Function.comp_apply, weight_of_mem he]

namespace Roll

variable {r : Roll} {frame : Frame}

/-- No probability of the roll is too large for a double. -/
def Fits (r : Roll) : Prop := ∀ v, |r.prob v| < Binary64.overflow

theorem Fits.exists_ofRat? (h : r.Fits) (v : Int) : ∃ y, Binary64.ofRat? (r.prob v) = some y :=
  Binary64.exists_ofRat?_iff.2 (h v)

/-- The columns of the outcomes and of their probabilities. -/
theorem columns_of_frame? (h : r.frame? = some frame) :
    frame.values = r.table.outcomes ∧
      List.Forall₂ (fun v y => Binary64.ofRat? (r.prob v) = some y) r.table.outcomes
        frame.probabilities := by
  obtain ⟨probabilities, hprobabilities, h⟩ := Option.bind_eq_some_iff.1 h
  obtain ⟨cumulative, -, h⟩ := Option.bind_eq_some_iff.1 h
  obtain rfl := Option.some.inj h
  rw [Table.entries_eq_map_weight, mapM_eq_some_iff, List.forall₂_map_left_iff] at hprobabilities
  exact ⟨rfl, hprobabilities⟩

theorem ofRat?_prob_of_lacks {v : Int} (h : v ∉ r.table.outcomes) :
    Binary64.ofRat? (r.prob v) = some Binary64.zero := by
  rw [prob, Table.weight_of_notMem h]
  decide +kernel

/-- If the roll does not fit, the probability of an outcome is too large. -/
theorem exists_tooLarge (h : ¬ r.Fits) :
    ∃ v ∈ r.table.outcomes, Binary64.ofRat? (r.prob v) = none := by
  obtain ⟨v, hv⟩ := not_forall.1 h
  rw [← Binary64.exists_ofRat?_iff] at hv
  refine ⟨v, ?_, Option.eq_none_iff_forall_ne_some.2 fun y hy => hv ⟨y, hy⟩⟩
  by_contra hlacks
  exact hv ⟨_, ofRat?_prob_of_lacks hlacks⟩

section

variable (h : r.table.IsProbability)

include h

/-- Probabilities are at most one, which is a double. -/
theorem fits_of_isProbability : r.Fits := by
  intro v
  obtain ⟨b, hb, -⟩ := Binary64.exists_ofRat?_of_toRat? one_toRat?
  have hle : r.prob v ≤ 1 := by
    have hsum := h.mass_le_one (· ≤ v)
    rw [Table.mass_le_eq] at hsum
    exact (le_add_of_nonneg_left (h.mass_nonneg _)).trans hsum
  refine Binary64.exists_ofRat?_iff.1 (Binary64.exists_ofRat?_of_abs_le ?_ hb)
  rwa [prob, abs_of_nonneg (h.weight_nonneg v), abs_one]

theorem exists_frame?_of_isProbability : ∃ frame, r.frame? = some frame := by
  have hfields : ∀ e ∈ r.table.entries, ∃ y, Binary64.ofRat? e.2 = some y := by
    rintro ⟨v, w⟩ he
    obtain ⟨y, hy⟩ := (fits_of_isProbability h).exists_ofRat? v
    rw [prob, Table.weight_of_mem he] at hy
    exact ⟨y, hy⟩
  obtain ⟨probabilities, hprobabilities⟩ := exists_mapM hfields
  obtain ⟨cumulative, hcumulative⟩ := exists_mapM (exists_ofRat?_of_mem_cumulative h)
  exact ⟨_, Option.bind_eq_some_iff.2 ⟨probabilities, hprobabilities,
    Option.bind_eq_some_iff.2 ⟨cumulative, hcumulative, rfl⟩⟩⟩

end

end Roll

/-! ## The bars of a roll -/

/-- Bars show a roll over a column of outcomes: they carry its label, the outcomes as decimals, and
for each of them the double nearest to its probability, which is zero for an outcome that the roll
lacks. Without these outcomes the two columns are those of the frame of the roll. -/
structure Trace.Shows (values : List Int) (label : String) (r : Roll) (t : Trace) : Prop where
  label : t.label = label
  x : t.x = values.map fun v => String.ofList (Number.signedNumeral v)
  y : List.Forall₂ (fun v y => y.IsNearest (r.prob v) ∧
    (v ∉ r.table.outcomes → y = Binary64.zero)) values t.y
  frame : ∀ frame, r.frame? = some frame →
    ((values.zip t.y).filter fun row => row.1 ∈ r.table.outcomes).unzip
      = (frame.values, frame.probabilities)

namespace Chart

section

variable {values : List Int} {label : String} {r : Roll} {t : Trace} {v : Int}

theorem trace?_eq_some : trace? values label r = some t ↔ ∃ y,
    List.Forall₂ (fun v y => Binary64.ofRat? (r.prob v) = some y) values y ∧
      t = ⟨label, values.map fun v => String.ofList (Number.signedNumeral v), y⟩ := by
  constructor
  · intro h
    obtain ⟨y, hy, h⟩ := Option.bind_eq_some_iff.1 h
    exact ⟨y, mapM_eq_some_iff.1 hy, (Option.some.inj h).symm⟩
  · rintro ⟨y, hy, rfl⟩
    exact Option.bind_eq_some_iff.2 ⟨y, mapM_eq_some_iff.2 hy, rfl⟩

/-- The bars of a roll show it over any column that has its outcomes in order. -/
theorem shows_of_trace? (hkept : values.filter (· ∈ r.table.outcomes) = r.table.outcomes)
    (h : trace? values label r = some t) : t.Shows values label r := by
  obtain ⟨y, hy, rfl⟩ := trace?_eq_some.1 h
  refine ⟨rfl, rfl, hy.imp fun v y hround => ?_, fun frame hframe => ?_⟩
  · refine ⟨Binary64.isNearest_of_ofRat? hround, fun hlacks => ?_⟩
    rw [Roll.ofRat?_prob_of_lacks hlacks] at hround
    exact (Option.some.inj hround).symm
  · -- the frame has the fields of the outcomes of the roll, and these are the rows that are kept
    obtain ⟨hvalues, hprobabilities⟩ := Roll.columns_of_frame? hframe
    rw [← hkept] at hprobabilities
    rw [unzip_filter_zip hy hprobabilities, hkept, hvalues]

/-- A roll that fits has bars over any column. -/
theorem exists_trace? (values : List Int) (label : String) (h : r.Fits) :
    ∃ t, trace? values label r = some t := by
  obtain ⟨y, hy⟩ := exists_mapM fun v (_ : v ∈ values) => h.exists_ofRat? v
  exact ⟨_, trace?_eq_some.2 ⟨y, mapM_eq_some_iff.1 hy, rfl⟩⟩

/-- A roll that does not fit has no bars over a column with its outcomes. -/
theorem trace?_eq_none (hvalues : ∀ v ∈ r.table.outcomes, v ∈ values) (h : ¬ r.Fits) :
    trace? values label r = none := by
  obtain ⟨v, hv, hnone⟩ := Roll.exists_tooLarge h
  have hmissing : (values.mapM fun v => Binary64.ofRat? (r.table.weight v)) = none :=
    mapM_eq_none_iff.2 ⟨v, hvalues v hv, hnone⟩
  rw [trace?, hmissing]
  rfl

end

/-! ## The outcomes of a chart -/

section

variable {rolls : List Roll} {r : Roll} {v : Int}

/-- Numbers in ascending order are known by which they are. -/
theorem eq_of_ascending {l l' : List Int} (hl : l.Pairwise (· < ·)) (hl' : l'.Pairwise (· < ·))
    (hmem : ∀ v, v ∈ l ↔ v ∈ l') : l = l' :=
  ((List.perm_ext_iff_of_nodup (hl.imp Int.ne_of_lt) (hl'.imp Int.ne_of_lt)).2 hmem).eq_of_pairwise
    (fun _ _ _ _ hlt hlt' => absurd hlt' (Int.lt_asymm hlt)) hl hl'

/-- The outcomes of a chart are those of all its rolls. -/
theorem mem_outcomes : v ∈ outcomes rolls ↔ ∃ r ∈ rolls, v ∈ r.table.outcomes := by
  rw [outcomes, List.foldr_map]
  exact Table.mem_outcomes_foldr_add

theorem ascending_outcomes (rolls : List Roll) : (outcomes rolls).Pairwise (· < ·) :=
  Table.ascending_outcomes _

/-- The outcomes of a chart that a roll has are the outcomes of this roll, in the same order. -/
theorem filter_outcomes (h : r ∈ rolls) :
    (outcomes rolls).filter (· ∈ r.table.outcomes) = r.table.outcomes := by
  -- both sides are in ascending order, so that it is enough to tell which numbers they have
  refine eq_of_ascending ((ascending_outcomes rolls).filter _) r.table.ascending_outcomes
    fun v => ?_
  rw [List.mem_filter, decide_eq_true_eq, mem_outcomes]
  exact ⟨And.right, fun hv => ⟨⟨r, h, hv⟩, hv⟩⟩

end

/-! ## The chart of labelled rolls -/

section

variable {rolls : List (String × Roll)} (hlabels : (Keyed.keys rolls).Nodup)
  (hcolumn : outcomeColumn ∉ Keyed.keys rolls)

include hlabels

/-- There is no chart if a roll does not fit. -/
theorem ofRolls_eq_tooLarge (h : ∃ e ∈ rolls, ¬ e.2.Fits) : ofRolls rolls = .error .tooLarge := by
  obtain ⟨e, he, hlarge⟩ := h
  have hvalues : ∀ v ∈ e.2.table.outcomes, v ∈ outcomes (rolls.map (·.2)) := fun v hv =>
    mem_outcomes.2 ⟨e.2, List.mem_map_of_mem he, hv⟩
  have hnone : (rolls.mapM fun e => trace? (outcomes (rolls.map (·.2))) e.1 e.2) = none :=
    mapM_eq_none_iff.2 ⟨e, he, trace?_eq_none hvalues hlarge⟩
  rw [ofRolls, Keyed.ofPairs_of_nodup hlabels]
  simp only [hnone]

include hcolumn

/-- Rolls that fit have a chart, with bars that show them over the outcomes of all of them. -/
theorem exists_ofRolls (h : ∀ e ∈ rolls, e.2.Fits) : ∃ chart, ofRolls rolls = .ok chart ∧
    List.Forall₂ (fun e t => Trace.Shows (outcomes (rolls.map (·.2))) e.1 e.2 t) rolls
      chart.traces := by
  obtain ⟨traces, htraces⟩ := exists_mapM fun e (he : e ∈ rolls) =>
    exists_trace? (outcomes (rolls.map (·.2))) e.1 (h e he)
  obtain ⟨hlength, hbars⟩ := List.forall₂_iff_zip.1 (mapM_eq_some_iff.1 htraces)
  have hfree : Keyed.get? outcomeColumn rolls = none := Keyed.get?_eq_none_iff.2 hcolumn
  refine ⟨ofTraces traces, ?_, List.forall₂_iff_zip.2 ⟨hlength, fun {e t} hrow => ?_⟩⟩
  · rw [ofRolls, Keyed.ofPairs_of_nodup hlabels]
    simp only [htraces, hfree]
    rfl
  · obtain ⟨he, -⟩ := List.of_mem_zip hrow
    exact shows_of_trace? (filter_outcomes (List.mem_map_of_mem he)) (hbars hrow)

end

/-- Rolls under labels that all differ, and of which none is the name of the column of outcomes,
have a chart if no probability is too large for a double. It has one column of outcomes, which are
those of all rolls, each once and in ascending order, and bars that show the rolls over this column,
in the order of the labels. If a probability is too large, there is no chart. It never is if the
weights are not negative and sum to one, and then the roll has a frame to compare the bars with. -/
theorem ofRolls_columns (rolls : List (String × Roll)) (hlabels : (Keyed.keys rolls).Nodup)
    (hcolumn : outcomeColumn ∉ Keyed.keys rolls) :
    ((∀ e ∈ rolls, e.2.Fits) → ∃ chart values, ofRolls rolls = .ok chart ∧
      values.Pairwise (· < ·) ∧ (∀ v : Int, v ∈ values ↔ ∃ e ∈ rolls, v ∈ e.2.table.outcomes) ∧
      List.Forall₂ (fun e t => Trace.Shows values e.1 e.2 t) rolls chart.traces) ∧
    ((∃ e ∈ rolls, ¬ e.2.Fits) → ofRolls rolls = .error .tooLarge) ∧
    ∀ e ∈ rolls, e.2.table.IsProbability → e.2.Fits ∧ ∃ frame, e.2.frame? = some frame := by
  refine ⟨fun hfits => ?_, ofRolls_eq_tooLarge hlabels, fun e _ h =>
    ⟨Roll.fits_of_isProbability h, Roll.exists_frame?_of_isProbability h⟩⟩
  obtain ⟨chart, hchart, hbars⟩ := exists_ofRolls hlabels hcolumn hfits
  refine ⟨chart, outcomes (rolls.map (·.2)), hchart, ascending_outcomes _, fun v => ?_, hbars⟩
  simp only [mem_outcomes, List.mem_map, exists_exists_and_eq_and]

/-- Two rolls without a common outcome. Their outcomes are in the order of numbers, which is not
that of their decimals. And a roll of a weight that is too large. -/
theorem ofRolls_columns_of_two_rolls :
    (∃ low high chart,
      Roll.ofTable? "loaded" (Table.ofAssignments [(2, 3 / 4), (-10, 1 / 4)]) = .ok low ∧
      Roll.ofTable? "10" (Table.sure 10) = .ok high ∧
      ofRolls [("low", low), ("high", high)] = .ok chart ∧
      List.Forall₂ (fun e t => Trace.Shows [-10, 2, 10] e.1 e.2 t)
        [("low", low), ("high", high)] chart.traces ∧
      ∃ frame, low.frame? = some frame) ∧
    ∃ huge, Roll.ofTable? "huge" (Table.ofAssignments [(0, (2 ^ 1024 : Nat))]) = .ok huge ∧
      ofRolls [("huge", huge)] = .error .tooLarge := by
  constructor
  · have hlow : (Table.ofAssignments [(2, 3 / 4), (-10, 1 / 4)]).IsProbability :=
      Table.isProbability_of_sum (by decide +kernel) (by decide +kernel)
    have hhigh : (Table.sure 10).IsProbability :=
      Table.isProbability_of_sum (by decide +kernel) (by decide +kernel)
    obtain ⟨low, hlowRoll⟩ : ∃ low, Roll.ofTable? "loaded"
        (Table.ofAssignments [(2, 3 / 4), (-10, 1 / 4)]) = .ok low :=
      ⟨_, Roll.ofTable?_of_ne_nil _ hlow.entries_ne_nil⟩
    obtain ⟨high, hhighRoll⟩ : ∃ high, Roll.ofTable? "10" (Table.sure 10) = .ok high :=
      ⟨_, Roll.ofTable?_of_ne_nil _ hhigh.entries_ne_nil⟩
    obtain ⟨-, hlowTable⟩ := Roll.ofTable?_eq_ok hlowRoll
    obtain ⟨-, hhighTable⟩ := Roll.ofTable?_eq_ok hhighRoll
    obtain ⟨hchart, -, hprobability⟩ := ofRolls_columns [("low", low), ("high", high)]
      (show ["low", "high"].Nodup by decide) (show outcomeColumn ∉ ["low", "high"] by decide)
    simp only [List.forall_mem_cons, hlowTable, hhighTable] at hprobability hchart
    obtain ⟨hfitsLow, hframe⟩ := hprobability.1 hlow
    obtain ⟨hfitsHigh, -⟩ := hprobability.2.1 hhigh
    obtain ⟨chart, values, hchart, hascending, hvalues, hbars⟩ :=
      hchart ⟨hfitsLow, hfitsHigh, List.forall_mem_nil _⟩
    have hlowOutcomes : low.table.outcomes = [-10, 2] := by
      rw [hlowTable]
      decide +kernel
    have hhighOutcomes : high.table.outcomes = [10] := by
      rw [hhighTable]
      decide +kernel
    have houtcomes : values = [-10, 2, 10] := eq_of_ascending hascending (by decide) fun v => by
      simp [hvalues, hlowOutcomes, hhighOutcomes, or_assoc]
    rw [houtcomes] at hbars
    exact ⟨low, high, chart, hlowRoll, hhighRoll, hchart, hbars, hframe⟩
  · obtain ⟨huge, hroll, hweight⟩ : ∃ huge : Roll,
        Roll.ofTable? "huge" (Table.ofAssignments [(0, (2 ^ 1024 : Nat))]) = .ok huge ∧
          Binary64.ofRat? (huge.prob 0) = none :=
      ⟨_, Roll.ofTable?_of_ne_nil _ (by decide +kernel), by decide +kernel⟩
    obtain ⟨-, htooLarge, -⟩ := ofRolls_columns [("huge", huge)]
      (show ["huge"].Nodup by decide) (show outcomeColumn ∉ ["huge"] by decide)
    refine ⟨huge, hroll, htooLarge ⟨_, List.mem_cons_self, fun hfits => ?_⟩⟩
    obtain ⟨y, hy⟩ := hfits.exists_ofRat? 0
    rw [hweight] at hy
    cases hy

end Chart

end DiceLaw
