import DiceLaw.Proofs.Roll.Draw
import Mathlib.Data.List.Induction

/-!
# One pass over the outcomes

Mean, total, median and modes can be found together in one pass over the outcomes in ascending
order. The first outcome at which the total reaches one half is kept as the median. An outcome with
more weight than all before it is the only mode so far, and one with as much weight is one mode
more. What the pass knows after some outcomes are the statistics of these outcomes alone, so that at
the end they are those of the roll.

## Main definitions

* `Scan`, `Scan.next`: what the pass knows, and one step of it
* `peakOf`: the greatest weight of some outcomes

## Main results

* `foldl_next`: what the pass knows after some outcomes
* `Roll.foldl_next_entries`: what it knows at the end
-/

namespace DiceLaw

/-- What a pass over the outcomes knows. -/
structure Scan where
  mean : Rat
  total : Rat
  median : Option Int
  modes : List Int
  peak : Rat

namespace Scan

/-- Before the first outcome. The greatest weight counts from minus one upwards. -/
def start : Scan := ⟨0, 0, none, [], -1⟩

/-- One outcome more. -/
def next (s : Scan) (e : Entry) : Scan where
  mean := s.mean + e.1 * e.2
  total := s.total + e.2
  median := if s.median.isNone ∧ 1 / 2 ≤ s.total + e.2 then some e.1 else s.median
  modes :=
    if s.peak < e.2 then [e.1]
    else if e.2 = s.peak then s.modes ++ [e.1]
    else s.modes
  peak := if s.peak < e.2 then e.2 else s.peak

end Scan

variable {seen entries : List Entry} {e : Entry}

/-! ## Statistics of some outcomes -/

/-- The greatest weight, which counts from minus one upwards. -/
def peakOf (entries : List Entry) : Rat :=
  entries.foldl (fun best e => if best < e.2 then e.2 else best) (-1)

theorem peakOf_snoc (seen : List Entry) (e : Entry) :
    peakOf (seen ++ [e]) = if peakOf seen < e.2 then e.2 else peakOf seen := by
  rw [peakOf, List.foldl_append]
  rfl

/-- No weight is greater than the greatest one. -/
theorem le_peakOf : ∀ e ∈ entries, e.2 ≤ peakOf entries := by
  induction entries using List.reverseRecOn with
  | nil => exact fun _ he => absurd he List.not_mem_nil
  | append_singleton seen last ih =>
    intro e he
    rw [peakOf_snoc]
    rcases List.mem_append.1 he with he | he
    · split
      · exact (ih e he).trans (le_of_lt ‹_›)
      · exact ih e he
    · rw [List.mem_singleton.1 he]
      split
      · exact le_rfl
      · exact not_lt.1 ‹_›

/-- The greatest weight is one of the weights, or none of them is above minus one. -/
theorem exists_eq_peakOf (entries : List Entry) :
    peakOf entries = -1 ∨ ∃ e ∈ entries, e.2 = peakOf entries := by
  induction entries using List.reverseRecOn with
  | nil => exact Or.inl rfl
  | append_singleton seen last ih =>
    rw [peakOf_snoc]
    split
    · exact Or.inr ⟨last, by simp, rfl⟩
    · exact ih.imp_right fun ⟨e, he, hpeak⟩ => ⟨e, List.mem_append_left _ he, hpeak⟩

/-- The outcomes of greatest weight. -/
def modesOf (entries : List Entry) : List Int :=
  (entries.filter fun e => e.2 = peakOf entries).map (·.1)

/-- An outcome of more weight than all before it displaces them, and one of as much weight joins
them. -/
theorem modesOf_snoc (seen : List Entry) (e : Entry) :
    modesOf (seen ++ [e]) =
      if peakOf seen < e.2 then [e.1]
      else if e.2 = peakOf seen then modesOf seen ++ [e.1]
      else modesOf seen := by
  rw [modesOf, peakOf_snoc, List.filter_append]
  split
  · rename_i hpeak
    have hnone : (seen.filter fun d => d.2 = e.2) = [] :=
      List.filter_eq_nil_iff.2 fun d hd => by
        simpa using ((le_peakOf d hd).trans_lt hpeak).ne
    simp [hnone]
  · split
    · simp [modesOf, *]
    · simp [modesOf, *]

theorem runningSums_snoc (start : Rat) (seen : List Entry) (e : Entry) :
    runningSums start (seen ++ [e])
      = runningSums start seen ++ [(e.1, start + (seen.map (·.2)).sum + e.2)] := by
  induction seen generalizing start with
  | nil => simp [runningSums]
  | cons head rest ih => simp [runningSums, ih, add_assoc]

/-- The first outcome at which half of all weight is reached. -/
def halfwayOf (entries : List Entry) : Option Int :=
  ((runningSums 0 entries).find? fun e => (1 : Rat) / 2 ≤ e.2).map (·.1)

/-- An outcome is the first one only if none before it is. -/
theorem halfwayOf_snoc (seen : List Entry) (e : Entry) :
    halfwayOf (seen ++ [e]) =
      if (halfwayOf seen).isNone ∧ 1 / 2 ≤ (seen.map (·.2)).sum + e.2 then some e.1
      else halfwayOf seen := by
  rw [halfwayOf, runningSums_snoc, List.find?_append, zero_add]
  cases hfirst : (runningSums 0 seen).find? fun e => (1 : Rat) / 2 ≤ e.2 with
  | none =>
    simp only [halfwayOf, hfirst, Option.none_or, Option.map_none, Option.isNone_none, true_and,
      List.find?_singleton]
    split <;> simp_all
  | some first =>
    simp only [halfwayOf, hfirst, Option.some_or, Option.map_some, Option.isNone_some,
      Bool.false_eq_true, false_and, if_false]

/-! ## The pass -/

/-- What the pass knows after some outcomes are the statistics of these outcomes. -/
theorem foldl_next (seen : List Entry) :
    seen.foldl Scan.next Scan.start =
      { mean := (seen.map fun e => (e.1 : Rat) * e.2).sum
        total := (seen.map (·.2)).sum
        median := halfwayOf seen
        modes := modesOf seen
        peak := peakOf seen } := by
  induction seen using List.reverseRecOn with
  | nil => rfl
  | append_singleton seen e ih =>
    rw [List.foldl_append, ih, modesOf_snoc, peakOf_snoc, halfwayOf_snoc]
    simp [Scan.next]

namespace Roll

variable {r : Roll}

/-- The median is the outcome for a draw of one half. -/
theorem outcomeAt?_half (h : r.table.expectation (fun _ => 1) = 1) :
    r.outcomeAt? (1 / 2) = some r.median := by
  obtain ⟨v, hv⟩ := exists_outcomeAt?_of_total h (p := 1 / 2) (by norm_num)
  obtain ⟨e, hfind, rfl⟩ := Option.map_eq_some_iff.1 hv
  rw [hv, median, hfind]

/-- At the end of the pass it knows the statistics of the roll. -/
theorem foldl_next_entries (h : r.table.expectation (fun _ => 1) = 1) :
    r.table.entries.foldl Scan.next Scan.start = ⟨r.mean, 1, some r.median, r.modes, r.peak⟩ := by
  have hmean : (r.table.entries.map fun e => (e.1 : Rat) * e.2).sum = r.mean :=
    (Table.expectationOver_eq_sum_map _ _).symm
  rw [foldl_next, hmean, ← Table.expectation_one, h, ← outcomeAt?_half h]
  rfl

end Roll

end DiceLaw
