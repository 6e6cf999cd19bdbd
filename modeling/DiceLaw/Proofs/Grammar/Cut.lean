import DiceLaw.Proofs.Grammar.Unmatched

/-!
# Cutting on the outer level

Searching for a separator and cutting at it are two passes over the symbols, each of which counts
the open brackets by itself. Both see the same: symbols that do not overclose come apart in exactly
one way, at the separators that stand outside all brackets, and a search finds one of them exactly
if there is more than one segment.

## Main definitions

* `Level.separators`: the markers that sequences are cut at
* `Level.Balanced`, `Level.StandsOutside`: brackets that answer each other, and a marker outside
  brackets, by counting
* `Level.IsCut`: how symbols come apart
* `Level.Cut`: the same along paths

## Main results

* `Level.segmentsFrom_eq_ok_iff`, `Level.Cut.containsFrom_eq`: cutting and searching follow a cut
* `Level.isCut_iff`, `Level.existsUnique_isCut`: symbols that do not overclose come apart in one way
* `Level.split_at_separator`: what cutting returns, and when it fails
-/

namespace DiceLaw

namespace Level

variable {m : Marker} {depth next last : Nat} {s : Symbol} {rest symbols : List Symbol}
  {segments : List (List Symbol)}

/-! ## Counting brackets -/

/-- The markers that sequences are cut at. -/
def separators : List Marker := [.add, .mul, .div, .sampleSum, .comma]

theorem separators_neutral : ∀ m ∈ separators, m.opens = false ∧ m ≠ .closing := by
  decide

theorem after_separator (hm : m.opens = false ∧ m ≠ .closing) (depth : Nat) :
    after depth (.marker m) = .ok depth :=
  after_of_neutral (by simp [Symbol.opens, hm.1]) (by simp [hm.2]) depth

/-- As many brackets are closed as opened, and no front closes more of them. -/
def Balanced (symbols : List Symbol) : Prop :=
  ¬ Overcloses 0 symbols ∧ openings symbols = closings symbols

/-- The marker occurs where all brackets are closed again, with the depth that the symbols start
at. -/
def StandsOutside (m : Marker) (depth : Nat) (symbols : List Symbol) : Prop :=
  ∃ front back, symbols = front ++ .marker m :: back ∧ depth + openings front = closings front

theorem Path.count {barred : List Marker} (h : Path barred depth symbols last) :
    depth + openings symbols = last + closings symbols := by
  induction h with
  | nil => rfl
  | cons _ step _ ih =>
    have hcount := count_of_after step
    rw [openings_cons, closings_cons]
    omega

theorem not_standsOutside_nil : ¬ StandsOutside m depth [] := by
  rintro ⟨front, back, h, -⟩
  cases front <;> cases h

theorem standsOutside_cons_of_ok (h : after depth s = .ok next) :
    StandsOutside m depth (s :: rest) ↔ depth = 0 ∧ s = .marker m ∨ StandsOutside m next rest := by
  have hcount := count_of_after h
  constructor
  · rintro ⟨front, back, hsymbols, hout⟩
    cases front with
    | nil =>
      obtain ⟨rfl, -⟩ := List.cons.inj hsymbols
      exact .inl ⟨by simpa [openings, closings] using hout, rfl⟩
    | cons k front =>
      obtain ⟨rfl, hrest⟩ := List.cons.inj hsymbols
      rw [openings_cons, closings_cons] at hout
      exact .inr ⟨front, back, hrest, by omega⟩
  · rintro (⟨rfl, rfl⟩ | ⟨front, back, rfl, hout⟩)
    · exact ⟨[], rest, rfl, rfl⟩
    · refine ⟨s :: front, back, rfl, ?_⟩
      rw [openings_cons, closings_cons]
      omega

/-- A path that bars a marker leads through symbols exactly if they do not overclose and the marker
does not occur outside brackets. -/
theorem exists_path_barred_iff :
    (∃ last, Path [m] depth symbols last) ↔
      ¬ Overcloses depth symbols ∧ ¬ StandsOutside m depth symbols := by
  induction symbols generalizing depth with
  | nil =>
    exact ⟨fun _ => ⟨not_overcloses_nil, not_standsOutside_nil⟩, fun _ => ⟨depth, .nil depth⟩⟩
  | cons s rest ih =>
    cases hstep : after depth s with
    | error e =>
      -- a bracket that closes nothing ends every path, and overcloses
      obtain ⟨-, rfl, rfl⟩ := after_eq_error hstep
      refine iff_of_false ?_ fun h => h.1 overcloses_cons_closing
      rintro ⟨last, hpath⟩
      exact hpath.not_overcloses overcloses_cons_closing
    | ok next =>
      rw [overcloses_cons_of_ok hstep, standsOutside_cons_of_ok hstep, not_or, and_left_comm, ← ih]
      constructor
      · rintro ⟨last, hpath⟩
        cases hpath with
        | cons free step tail =>
          obtain rfl := Except.ok.inj (hstep.symm.trans step)
          exact ⟨fun h => free h.1 m List.mem_cons_self h.2, last, tail⟩
      · rintro ⟨hfree, last, tail⟩
        refine ⟨last, .cons (fun h0 k hk => ?_) hstep tail⟩
        obtain rfl := List.mem_singleton.1 hk
        exact fun hs => hfree ⟨h0, hs⟩

theorem Path.balanced (h : Path [m] 0 symbols 0) : Balanced symbols :=
  ⟨h.not_overcloses, by simpa using h.count⟩

/-! ## How symbols come apart -/

/-- The segments make up the symbols, with the marker between them. All but the last are balanced,
and in none does the marker occur outside brackets. -/
structure IsCut (m : Marker) (symbols : List Symbol) (segments : List (List Symbol)) : Prop where
  ne_nil : segments ≠ []
  joined : [.marker m].intercalate segments = symbols
  balanced : ∀ segment ∈ segments.dropLast, Balanced segment
  outside : ∀ segment ∈ segments, ¬ StandsOutside m 0 segment

/-- Symbols that start at a depth come apart at the markers that paths come to on the outer
level. -/
inductive Cut (m : Marker) : Nat → List Symbol → List (List Symbol) → Prop
  | whole {depth last : Nat} {symbols : List Symbol} (h : Path [m] depth symbols last) :
      Cut m depth symbols [symbols]
  | front {depth : Nat} {front back : List Symbol} {segments : List (List Symbol)}
      (hfront : Path [m] depth front 0) (hback : Cut m 0 back segments) :
      Cut m depth (front ++ .marker m :: back) (front :: segments)

namespace Cut

theorem ne_nil (h : Cut m depth symbols segments) : segments ≠ [] := by
  cases h <;> exact List.cons_ne_nil _ _

/-- A symbol that is no cut belongs to the first segment. -/
theorem more {first : List Symbol} {others : List (List Symbol)}
    (free : ¬ (depth = 0 ∧ s = .marker m)) (step : after depth s = .ok next)
    (h : Cut m next rest (first :: others)) : Cut m depth (s :: rest) ((s :: first) :: others) := by
  have hfree : depth = 0 → ∀ k ∈ [m], s ≠ .marker k := by
    intro h0 k hk
    obtain rfl := List.mem_singleton.1 hk
    exact fun hs => free ⟨h0, hs⟩
  cases h with
  | whole h => exact .whole (.cons hfree step h)
  | front hfront hback => exact .front (.cons hfree step hfront) hback

/-- Symbols that come apart do not overclose. -/
theorem not_overcloses (hm : m.opens = false ∧ m ≠ .closing) (h : Cut m depth symbols segments) :
    ¬ Overcloses depth symbols := by
  refine exists_path_iff.1 ?_
  induction h with
  | whole h => exact ⟨_, h.mono nofun⟩
  | front hfront _ ih =>
    obtain ⟨last, hback⟩ := ih
    have hclear : Path [] _ _ 0 := hfront.mono nofun
    have hmarker : Path [] 0 (.marker m :: _) last :=
      .cons (fun _ _ hk => absurd hk List.not_mem_nil) (after_separator hm 0) hback
    exact ⟨last, hclear.append hmarker⟩

theorem isCut (h : Cut m 0 symbols segments) : IsCut m symbols segments := by
  generalize hdepth : 0 = depth at h
  induction h with
  | whole h =>
    subst hdepth
    exact ⟨List.cons_ne_nil _ _, List.intercalate_singleton, by simp,
      by simpa using (exists_path_barred_iff.1 ⟨_, h⟩).2⟩
  | @front depth front back segments hfront hback ih =>
    subst hdepth
    obtain ⟨hne, hjoined, hbalanced, houtside⟩ := ih rfl
    refine ⟨List.cons_ne_nil _ _, ?_, ?_, ?_⟩
    · rw [List.intercalate_cons_of_ne_nil hne, hjoined]
      simp
    · rw [List.dropLast_cons_of_ne_nil hne]
      exact List.forall_mem_cons.2 ⟨hfront.balanced, hbalanced⟩
    · exact List.forall_mem_cons.2 ⟨(exists_path_barred_iff.1 ⟨_, hfront⟩).2, houtside⟩

/-! ## Searching and cutting -/

/-- A search finds the marker exactly if there is more than one segment. -/
theorem containsFrom_eq (h : Cut m depth symbols segments) :
    containsFrom m depth symbols = .ok (decide (2 ≤ segments.length)) := by
  cases h with
  | whole h =>
    have hsearch := containsFrom_append h List.mem_cons_self []
    rw [List.append_nil] at hsearch
    exact hsearch
  | @front depth front back segments hfront hback =>
    have hlen := List.length_pos_iff.2 hback.ne_nil
    rw [containsFrom_append hfront List.mem_cons_self, containsFrom, if_pos ⟨rfl, rfl⟩,
      List.length_cons, decide_eq_true (by omega)]

theorem exists_segmentsFrom (h : Cut m depth symbols segments) :
    ∃ first others, segments = first :: others ∧
      segmentsFrom m depth symbols = .ok (first, others) := by
  induction h with
  | @whole depth last symbols h =>
    have hcut := segmentsFrom_append h List.mem_cons_self []
    rw [List.append_nil] at hcut
    exact ⟨symbols, [], rfl, by rw [hcut, segmentsFrom]; simp [Except.map]⟩
  | @front depth front back segments hfront _ ih =>
    obtain ⟨first, others, rfl, hback⟩ := ih
    refine ⟨front, first :: others, rfl, ?_⟩
    rw [segmentsFrom_append hfront List.mem_cons_self, segmentsFrom, if_pos ⟨rfl, rfl⟩, hback]
    simp [bind, Except.bind, pure, Except.pure, Except.map]

end Cut

/-- Cutting finds how symbols come apart. -/
theorem segmentsFrom_eq_ok_iff {first : List Symbol} {others : List (List Symbol)} :
    segmentsFrom m depth symbols = .ok (first, others) ↔ Cut m depth symbols (first :: others) := by
  constructor
  · intro h
    induction symbols generalizing depth first others with
    | nil =>
      obtain ⟨rfl, rfl⟩ : [] = first ∧ [] = others := by simpa [segmentsFrom] using h
      exact .whole (.nil depth)
    | cons s rest ih =>
      rw [segmentsFrom] at h
      split at h
      · -- a separator on the outer level stands in front of a new segment
        rename_i hs
        obtain ⟨rfl, rfl⟩ := hs
        obtain ⟨p, hrest, h⟩ := Except.bind_eq_ok.1 h
        obtain ⟨rfl, rfl⟩ := Prod.mk.inj (Except.ok.inj h)
        exact .front (.nil 0) (ih hrest)
      · rename_i hs
        obtain ⟨next, hstep, h⟩ := Except.bind_eq_ok.1 h
        obtain ⟨p, hrest, h⟩ := Except.bind_eq_ok.1 h
        obtain ⟨rfl, rfl⟩ := Prod.mk.inj (Except.ok.inj h)
        exact (ih hrest).more hs hstep
  · intro h
    obtain ⟨first', others', hsegments, hcut⟩ := h.exists_segmentsFrom
    obtain ⟨rfl, rfl⟩ := List.cons.inj hsegments
    exact hcut

theorem Cut.unique {segments' : List (List Symbol)} (h : Cut m depth symbols segments)
    (h' : Cut m depth symbols segments') : segments = segments' := by
  obtain ⟨first, others, rfl, hcut⟩ := h.exists_segmentsFrom
  obtain ⟨first', others', rfl, hcut'⟩ := h'.exists_segmentsFrom
  obtain ⟨rfl, rfl⟩ := Prod.mk.inj (Except.ok.inj (hcut.symm.trans hcut'))
  rfl

/-- In symbols that do not overclose, a cut by counting is one along paths. -/
theorem IsCut.cut (hm : m.opens = false ∧ m ≠ .closing) (h : IsCut m symbols segments)
    (hover : ¬ Overcloses 0 symbols) : Cut m 0 symbols segments := by
  induction segments generalizing symbols with
  | nil => exact absurd rfl h.ne_nil
  | cons front segments ih =>
    obtain ⟨-, rfl, hbalanced, houtside⟩ := h
    obtain ⟨hfront, houtside⟩ := List.forall_mem_cons.1 houtside
    by_cases hne : segments = []
    · subst hne
      rw [List.intercalate_singleton] at hover ⊢
      obtain ⟨last, hpath⟩ := exists_path_barred_iff.2 ⟨hover, hfront⟩
      exact .whole hpath
    · rw [List.dropLast_cons_of_ne_nil hne] at hbalanced
      obtain ⟨⟨hclosed, hcount⟩, hbalanced⟩ := List.forall_mem_cons.1 hbalanced
      obtain ⟨last, hpath⟩ := exists_path_barred_iff.2 ⟨hclosed, hfront⟩
      obtain rfl : last = 0 := by
        have := hpath.count
        omega
      rw [List.intercalate_cons_of_ne_nil hne, List.append_assoc] at hover ⊢
      refine .front hpath (ih ⟨hne, rfl, hbalanced, houtside⟩ fun hback => ?_)
      -- the front comes back to the outer level, and the separator behind it stays there
      obtain ⟨final, hwhole⟩ := exists_path_iff.2 hover
      obtain ⟨middle, hleft, hright⟩ := hwhole.of_append
      obtain rfl := hleft.end_unique hpath
      exact hright.not_overcloses ((overcloses_cons_of_ok (after_separator hm 0)).2 hback)

theorem isCut_iff (hm : m.opens = false ∧ m ≠ .closing) :
    ¬ Overcloses 0 symbols ∧ IsCut m symbols segments ↔ Cut m 0 symbols segments :=
  ⟨fun h => h.2.cut hm h.1, fun h => ⟨h.not_overcloses hm, h.isCut⟩⟩

/-- Symbols that do not overclose come apart in one way. -/
theorem existsUnique_isCut (hm : m.opens = false ∧ m ≠ .closing) (h : ¬ Overcloses 0 symbols) :
    ∃! segments, IsCut m symbols segments := by
  cases hcut : segmentsFrom m 0 symbols with
  | error e => exact absurd ((segmentsFrom_eq_error_iff hm).1 hcut).2 h
  | ok p =>
    have hp : Cut m 0 symbols (p.1 :: p.2) := segmentsFrom_eq_ok_iff.1 hcut
    exact ⟨_, hp.isCut, fun segments hsegments => (hsegments.cut hm h).unique hp⟩

/-! ## What cutting returns -/

theorem split_of_cut (h : Cut m 0 symbols segments) :
    split m symbols = if [] ∈ segments then .error .operandMissing else .ok segments := by
  obtain ⟨first, others, rfl, hcut⟩ := h.exists_segmentsFrom
  have hany : (first :: others).any List.isEmpty = true ↔ [] ∈ first :: others := by
    simp only [List.any_eq_true, List.isEmpty_iff, exists_eq_right]
  simp only [split, hcut, bind, Except.bind, hany]
  rfl

section

variable (hm : m.opens = false ∧ m ≠ .closing)

include hm

theorem split_eq_ok_iff : split m symbols = .ok segments ↔
    ¬ Overcloses 0 symbols ∧ IsCut m symbols segments ∧ [] ∉ segments := by
  rw [← and_assoc, isCut_iff hm]
  constructor
  · intro h
    obtain ⟨first, others, hcut, rfl⟩ := split_eq_ok h
    have hcut := segmentsFrom_eq_ok_iff.1 hcut
    rw [split_of_cut hcut] at h
    split at h
    · cases h
    · exact ⟨hcut, ‹_›⟩
  · rintro ⟨hcut, hfull⟩
    rw [split_of_cut hcut, if_neg hfull]

theorem split_eq_error_iff {e : ReadError} : split m symbols = .error e ↔
    e = .unmatchedClosing ∧ Overcloses 0 symbols ∨
      e = .operandMissing ∧ ¬ Overcloses 0 symbols ∧
        ∃ segments, IsCut m symbols segments ∧ [] ∈ segments := by
  by_cases hover : Overcloses 0 symbols
  · have hfails := (split_eq_unmatchedClosing_iff hm).2 hover
    simp only [hfails, hover, not_true_eq_false, false_and, and_false, or_false, and_true,
      Except.error.injEq]
    exact eq_comm
  · obtain ⟨segments, hcut, hunique⟩ := existsUnique_isCut hm hover
    have hempty : (∃ segments, IsCut m symbols segments ∧ [] ∈ segments) ↔ [] ∈ segments :=
      ⟨fun ⟨_, h, hmem⟩ => hunique _ h ▸ hmem, fun hmem => ⟨_, hcut, hmem⟩⟩
    simp only [split_of_cut (hcut.cut hm hover), hempty, hover, not_false_eq_true, true_and,
      and_false, false_or]
    split
    · rename_i hmem
      rw [Except.error.injEq, and_iff_left hmem, eq_comm]
    · rename_i hmem
      exact iff_of_false nofun fun h => hmem h.2

end

/-- Cutting at a separator returns segments exactly if no front of the symbols closes more brackets
than it opens and the symbols come apart into segments that are not empty: joined with the separator
they give back the symbols, all but the last are balanced, and none has the separator outside
brackets. There is more than one of them exactly if a search for the separator finds it. What is
overclosed is refused for that; of the rest, which comes apart in one way, what has an empty segment
is refused for it. And each part that grouping goes on with is shorter than the whole. -/
theorem split_at_separator (hm : m ∈ separators) (symbols : List Symbol) :
    (∀ segments, split m symbols = .ok segments ↔
      ¬ Overcloses 0 symbols ∧ IsCut m symbols segments ∧ [] ∉ segments) ∧
    (∀ segments, split m symbols = .ok segments →
      contains m symbols = .ok (decide (2 ≤ segments.length))) ∧
    (¬ Overcloses 0 symbols → ∃! segments, IsCut m symbols segments) ∧
    (∀ e, split m symbols = .error e ↔
      e = .unmatchedClosing ∧ Overcloses 0 symbols ∨
        e = .operandMissing ∧ ¬ Overcloses 0 symbols ∧
          ∃ segments, IsCut m symbols segments ∧ [] ∈ segments) ∧
    ∀ next, Grouping.GoesOnWith symbols next → next.length < symbols.length := by
  have hneutral := separators_neutral m hm
  refine ⟨fun segments => split_eq_ok_iff hneutral, fun segments h => ?_,
    existsUnique_isCut hneutral, fun e => split_eq_error_iff hneutral,
    fun next => Grouping.GoesOnWith.length_lt⟩
  obtain ⟨hover, hcut, -⟩ := (split_eq_ok_iff hneutral).1 h
  exact (hcut.cut hneutral hover).containsFrom_eq

/-- A sum in brackets with a die added to it, then with nothing behind another plus sign, and then
with a bracket that closes nothing. -/
theorem split_at_separator_of_two_sums :
    ∃ inner : List Symbol,
      inner = [.marker .opening, .constant 1, .marker .add, .constant 2, .marker .closing] ∧
      IsCut .add (inner ++ [.marker .add, .die 1 6]) [inner, [.die 1 6]] ∧
      contains .add (inner ++ [.marker .add, .die 1 6]) = .ok true ∧
      (∃ segments, IsCut .add (inner ++ [.marker .add]) segments ∧ [] ∈ segments) ∧
      Overcloses 0 (inner ++ [.marker .closing]) := by
  refine ⟨_, rfl, ?_⟩
  obtain ⟨hok, hcontains, -⟩ := split_at_separator (m := .add) (by decide) ([.marker .opening,
    .constant 1, .marker .add, .constant 2, .marker .closing] ++ [.marker .add, .die 1 6])
  obtain ⟨-, -, -, hmissing, -⟩ := split_at_separator (m := .add) (by decide) ([.marker .opening,
    .constant 1, .marker .add, .constant 2, .marker .closing] ++ [.marker .add])
  obtain ⟨-, -, -, hunmatched, -⟩ := split_at_separator (m := .add) (by decide) ([.marker .opening,
    .constant 1, .marker .add, .constant 2, .marker .closing] ++ [.marker .closing])
  refine ⟨((hok _).1 rfl).2.1, hcontains _ rfl, ?_, ?_⟩
  · exact (((hmissing .operandMissing).1 rfl).resolve_left fun h => nomatch h.1).2.2
  · exact (((hunmatched .unmatchedClosing).1 rfl).resolve_right fun h => nomatch h.1).2

end Level

end DiceLaw
