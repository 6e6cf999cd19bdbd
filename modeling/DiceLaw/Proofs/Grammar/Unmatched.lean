import DiceLaw.Proofs.Grammar.Outline
import Mathlib.Data.List.Infix
import Mathlib.Logic.Relation

/-!
# Closing brackets that answer no opening one

A sequence whose brackets close more than is open is refused at once. A sequence that does not may
still come to the same end further in: the brackets at its two ends are taken off without a look
whether they answer each other, and what is between them may close more than it opens.

## Main definitions

* `Level.openings`, `Level.closings`: how many brackets open and close
* `Level.Overcloses`: a front of the symbols closes more than is open
* `Mismatched`: the brackets at the two ends answer other brackets
* `Grouping.ComesTo`: the parts that grouping comes to

## Main results

* `Level.exists_path_iff`: a path leads through symbols that do not overclose
* `Level.segmentsFrom_eq_error_iff`, `Level.split_eq_unmatchedClosing_iff`: cutting fails where they
  do
* `Grouping.ofSymbols_eq_unmatchedClosing_iff`: when grouping fails for an unmatched bracket
-/

namespace DiceLaw

namespace Level

/-! ## Depth as a count -/

/-- How many brackets are opened. -/
def openings (symbols : List Symbol) : Nat := symbols.countP Symbol.opens

/-- How many brackets are closed. -/
def closings (symbols : List Symbol) : Nat := symbols.count (.marker .closing)

/-- Some front of the symbols closes more than it opens, with the depth they start at. -/
def Overcloses (depth : Nat) (symbols : List Symbol) : Prop :=
  ∃ front, front <+: symbols ∧ depth + openings front < closings front

variable {m : Marker} {depth next last : Nat} {s : Symbol} {rest symbols : List Symbol}

instance (depth : Nat) (symbols : List Symbol) : Decidable (Overcloses depth symbols) :=
  decidable_of_iff (∃ front ∈ symbols.inits, depth + openings front < closings front) (by
    simp [Overcloses])

theorem openings_cons (s : Symbol) (rest : List Symbol) :
    openings (s :: rest) = openings rest + openings [s] := by
  rw [openings, List.countP_cons]
  simp [openings, List.countP_cons]

theorem closings_cons (s : Symbol) (rest : List Symbol) :
    closings (s :: rest) = closings rest + closings [s] := by
  rw [closings, List.count_cons]
  simp [closings, List.count_cons]

/-- A symbol takes the depth up by one if it opens, and down by one if it closes. -/
theorem count_of_after (h : after depth s = .ok next) :
    next + closings [s] = depth + openings [s] := by
  unfold after at h
  split at h
  · rename_i ho
    obtain rfl := Except.ok.inj h
    have hc : s ≠ .marker .closing := by
      rintro rfl
      cases ho
    simp [openings, closings, ho, hc]
  · rename_i ho
    split at h
    · rename_i hc
      subst hc
      cases depth with
      | zero => cases h
      | succ depth =>
        obtain rfl := Except.ok.inj h
        rfl
    · rename_i hc
      obtain rfl := Except.ok.inj h
      simp [openings, closings, ho, hc]

/-- The one symbol that cannot be passed is a closing bracket on the outer level. -/
theorem after_eq_error {e : ReadError} (h : after depth s = .error e) :
    e = .unmatchedClosing ∧ depth = 0 ∧ s = .marker .closing := by
  unfold after at h
  split at h
  · cases h
  · split at h
    · rename_i hc
      cases depth with
      | zero => exact ⟨(Except.error.inj h).symm, rfl, hc⟩
      | succ depth => cases h
    · cases h

theorem not_overcloses_nil : ¬ Overcloses depth [] := by
  rintro ⟨front, hfront, h⟩
  rw [List.prefix_nil.1 hfront] at h
  simp [closings] at h

theorem overcloses_cons_of_ok (h : after depth s = .ok next) :
    Overcloses depth (s :: rest) ↔ Overcloses next rest := by
  have hcount := count_of_after h
  constructor
  · rintro ⟨front, hfront, hlt⟩
    cases front with
    | nil => simp [closings] at hlt
    | cons k front =>
      obtain ⟨rfl, hprefix⟩ := List.cons_prefix_cons.1 hfront
      rw [openings_cons, closings_cons] at hlt
      exact ⟨front, hprefix, by omega⟩
  · rintro ⟨front, hfront, hlt⟩
    refine ⟨s :: front, List.cons_prefix_cons.2 ⟨rfl, hfront⟩, ?_⟩
    rw [openings_cons, closings_cons]
    omega

theorem overcloses_cons_closing : Overcloses 0 (.marker .closing :: rest) :=
  ⟨[.marker .closing], List.cons_prefix_cons.2 ⟨rfl, List.nil_prefix⟩, by decide⟩

theorem eq_closing_of_overcloses (h : Overcloses 0 [s]) : s = .marker .closing := by
  cases hstep : after 0 s with
  | error e => exact (after_eq_error hstep).2.2
  | ok next => exact absurd ((overcloses_cons_of_ok hstep).1 h) not_overcloses_nil

/-- A path leads through symbols exactly if they do not overclose. -/
theorem exists_path_iff : (∃ last, Path [] depth symbols last) ↔ ¬ Overcloses depth symbols := by
  induction symbols generalizing depth with
  | nil => exact ⟨fun _ => not_overcloses_nil, fun _ => ⟨depth, .nil depth⟩⟩
  | cons s rest ih =>
    cases hstep : after depth s with
    | error e =>
      obtain ⟨-, rfl, rfl⟩ := after_eq_error hstep
      refine iff_of_false ?_ (not_not_intro overcloses_cons_closing)
      rintro ⟨last, hpath⟩
      cases hpath with
      | cons _ step _ => cases hstep.symm.trans step
    | ok next =>
      rw [overcloses_cons_of_ok hstep, ← ih]
      constructor
      · rintro ⟨last, hpath⟩
        cases hpath with
        | cons _ step tail =>
          obtain rfl := Except.ok.inj (hstep.symm.trans step)
          exact ⟨last, tail⟩
      · rintro ⟨last, htail⟩
        exact ⟨last, .cons (fun _ => nofun) hstep htail⟩

theorem Path.not_overcloses {barred : List Marker} (h : Path barred depth symbols last) :
    ¬ Overcloses depth symbols :=
  exists_path_iff.1 ⟨last, h.mono nofun⟩

/-! ## Searching and cutting -/

/-- A search that fails has met a bracket that closes more than is open. -/
theorem overcloses_of_containsFrom {e : ReadError} (h : containsFrom m depth symbols = .error e) :
    e = .unmatchedClosing ∧ Overcloses depth symbols := by
  induction symbols generalizing depth with
  | nil => cases h
  | cons s rest ih =>
    rw [containsFrom] at h
    split at h
    · cases h
    · rcases Except.bind_eq_error.1 h with h | ⟨next, hstep, h⟩
      · obtain ⟨he, rfl, rfl⟩ := after_eq_error h
        exact ⟨he, overcloses_cons_closing⟩
      · rw [overcloses_cons_of_ok hstep]
        exact ih h

/-- Cutting goes through all symbols, and fails exactly if they overclose. -/
theorem segmentsFrom_eq_error_iff (hm : m.opens = false ∧ m ≠ .closing) {e : ReadError} :
    segmentsFrom m depth symbols = .error e ↔ e = .unmatchedClosing ∧ Overcloses depth symbols := by
  induction symbols generalizing depth with
  | nil => simp [segmentsFrom, not_overcloses_nil]
  | cons s rest ih =>
    rw [segmentsFrom]
    split
    · rename_i hs
      obtain ⟨rfl, rfl⟩ := hs
      have hstep : after 0 (.marker m) = .ok 0 :=
        after_of_neutral (by simp [Symbol.opens, hm.1]) (by simp [hm.2]) 0
      rw [overcloses_cons_of_ok hstep, ← ih, Except.bind_eq_error]
      simp [pure, Except.pure]
    · rw [Except.bind_eq_error]
      cases hstep : after depth s with
      | error k =>
        obtain ⟨rfl, rfl, rfl⟩ := after_eq_error hstep
        simp [overcloses_cons_closing, eq_comm]
      | ok next =>
        rw [overcloses_cons_of_ok hstep, ← ih]
        simp [Except.bind_eq_error, pure, Except.pure]

theorem split_eq_unmatchedClosing_iff (hm : m.opens = false ∧ m ≠ .closing) :
    split m symbols = .error .unmatchedClosing ↔ Overcloses 0 symbols := by
  have hsegments : segmentsFrom m 0 symbols = .error .unmatchedClosing ↔ Overcloses 0 symbols :=
    (segmentsFrom_eq_error_iff hm).trans (and_iff_right rfl)
  rw [← hsegments, split, Except.bind_eq_error, or_iff_left]
  rintro ⟨segments, -, h⟩
  dsimp only at h
  split at h <;> cases h

/-- No segment of a cut overcloses. -/
theorem not_overcloses_of_mem_split {segment : List Symbol} {segments : List (List Symbol)}
    (h : split m symbols = .ok segments) (hmem : segment ∈ segments) : ¬ Overcloses 0 segment := by
  obtain ⟨first, others, hs, rfl⟩ := split_eq_ok h
  obtain ⟨-, ⟨last, hfirst⟩, hothers⟩ := exists_path_of_segmentsFrom hs
  rcases List.mem_cons.1 hmem with rfl | hmem
  · exact hfirst.not_overcloses
  · obtain ⟨last, hpath⟩ := hothers segment hmem
    exact hpath.not_overcloses

end Level

open Level

/-! ## The outer level -/

theorem precedence_neutral : ∀ operator ∈ precedence,
    operator.1.opens = false ∧ operator.1 ≠ .closing := by
  decide

theorem firstOccurring_eq_none_iff {symbols : List Symbol} {operators : List (Marker × Joint)} :
    firstOccurring symbols operators = .ok none ↔
      ∀ operator ∈ operators, Level.contains operator.1 symbols = .ok false := by
  induction operators with
  | nil => simp [firstOccurring]
  | cons operator tighter ih =>
    rw [firstOccurring, List.forall_mem_cons, ← ih, Except.bind_eq_ok]
    constructor
    · rintro ⟨found, hfound, h⟩
      cases found with
      | true => cases h
      | false => exact ⟨hfound, h⟩
    · rintro ⟨hfound, h⟩
      exact ⟨false, hfound, h⟩

theorem overcloses_of_firstOccurring {symbols : List Symbol} {operators : List (Marker × Joint)}
    {e : ReadError} (h : firstOccurring symbols operators = .error e) :
    e = .unmatchedClosing ∧ Overcloses 0 symbols := by
  induction operators with
  | nil => cases h
  | cons operator tighter ih =>
    rw [firstOccurring] at h
    rcases Except.bind_eq_error.1 h with h | ⟨found, -, h⟩
    · exact overcloses_of_containsFrom h
    · cases found with
      | true => cases h
      | false => exact ih h

/-- The first and the last symbol are brackets, no operator stands outside brackets, and what the
two enclose closes more than it opens: they answer other brackets, not one another. -/
def Mismatched (symbols : List Symbol) : Prop :=
  (∀ operator ∈ precedence, Level.contains operator.1 symbols = .ok false) ∧
    ∃ m inner, m.opens = true ∧ symbols = .marker m :: inner ++ [.marker .closing] ∧
      Overcloses 0 inner

section Outline

variable {symbols inner : List Symbol} {m : Marker}

/-- What is not overclosed is cut at an operator, or has none outside brackets; then it is enclosed
in brackets or cannot be read. -/
theorem outline_cases (h : 2 ≤ symbols.length) (hover : ¬ Overcloses 0 symbols) :
    (∃ operator ∈ precedence,
      outline symbols = (Level.split operator.1 symbols).map (.parts operator.2)) ∨
    (∀ operator ∈ precedence, Level.contains operator.1 symbols = .ok false) ∧
      ((∃ m inner, m.opens = true ∧ symbols = .marker m :: inner ++ [.marker .closing] ∧
        outline symbols = outlineInside m inner) ∨
      outline symbols = .error (.unreadable symbols)) := by
  rw [outline_of_two_le h]
  cases hfirst : firstOccurring symbols precedence with
  | error e => exact absurd (overcloses_of_firstOccurring hfirst).2 hover
  | ok found =>
    cases found with
    | some operator =>
      obtain ⟨looser, tighter, hprecedence, -⟩ := exists_looser_of_firstOccurring hfirst
      exact .inl ⟨operator, by simp [hprecedence], rfl⟩
    | none =>
      refine .inr ⟨firstOccurring_eq_none_iff.1 hfirst, ?_⟩
      cases hbracketed : bracketed? symbols with
      | none => exact .inr rfl
      | some p =>
        obtain ⟨hm, hsymbols⟩ := eq_of_bracketed hbracketed
        exact .inl ⟨p.1, p.2, hm, hsymbols, rfl⟩

/-- What overcloses is refused at once. -/
theorem outline_of_overcloses (h : 2 ≤ symbols.length) (hover : Overcloses 0 symbols) :
    outline symbols = .error .unmatchedClosing := by
  rw [outline_of_two_le h]
  cases hfirst : firstOccurring symbols precedence with
  | error e =>
    obtain ⟨rfl, -⟩ := overcloses_of_firstOccurring hfirst
    rfl
  | ok found =>
    cases found with
    | some operator =>
      -- an operator was found in front of the bracket, but the cut goes on to the end
      obtain ⟨looser, tighter, hprecedence, -⟩ := exists_looser_of_firstOccurring hfirst
      have hneutral := precedence_neutral operator (by simp [hprecedence])
      exact congrArg (Except.map _) ((split_eq_unmatchedClosing_iff hneutral).2 hover)
    | none =>
      have habsent := firstOccurring_eq_none_iff.1 hfirst (.add, .sum) (by decide)
      obtain ⟨last, hpath⟩ := exists_path_of_containsFrom habsent
      exact absurd hover hpath.not_overcloses

/-- What ends with an unmatched bracket has two symbols or more. -/
theorem two_le_of_unmatchedClosing (h : Grouping.ofSymbols symbols = .error .unmatchedClosing) :
    2 ≤ symbols.length := by
  rw [Grouping.ofSymbols_eq_bind] at h
  match symbols with
  | [] => cases h
  | [s] =>
    rw [outline] at h
    split at h <;> cases h
  | _ :: _ :: _ => simp

end Outline

namespace Grouping

variable {symbols next part : List Symbol}

/-! ## Round by round -/

/-- Grouping goes on with a sequence after a round: with what the brackets enclose, or with a
segment if all segments in front of it have been grouped. -/
inductive GoesOnWith (symbols next : List Symbol) : Prop
  | inside (h : outline symbols = .ok (.inside next))
  | segment {joint : Joint} {before after : List (List Symbol)}
      (h : outline symbols = .ok (.parts joint (before ++ next :: after)))
      (hbefore : ∀ other ∈ before, ∃ g, ofSymbols other = .ok g)

/-- Grouping comes to a part after some rounds, or it is the whole. -/
def ComesTo : List Symbol → List Symbol → Prop := Relation.ReflTransGen GoesOnWith

theorem GoesOnWith.length_lt (h : GoesOnWith symbols next) : next.length < symbols.length := by
  cases h with
  | inside h => exact Outline.shorter_of_outline h
  | @segment joint before after h hbefore =>
    have hshorter : (Outline.parts joint (before ++ next :: after)).Shorter symbols.length :=
      Outline.shorter_of_outline h
    exact hshorter next (by simp)

/-- The whole fails as the sequence that grouping goes on with. -/
theorem GoesOnWith.ofSymbols_eq_error (h : GoesOnWith symbols next) {e : ReadError}
    (hnext : ofSymbols next = .error e) : ofSymbols symbols = .error e := by
  cases h with
  | inside h => exact (ofSymbols_of_outline h).trans hnext
  | @segment joint before after h hbefore =>
    rw [ofSymbols_of_outline h, ofOutline, Except.map_eq_error]
    exact Except.mapM_eq_error.2 ⟨before, next, after, rfl, hbefore, hnext⟩

/-- Where a sequence is cut, it overcloses or grouping goes on with a segment that does not. -/
theorem overcloses_or_goesOn_of_cut {m : Marker} {joint : Joint} {cut : List Symbol}
    (hm : m.opens = false ∧ m ≠ .closing)
    (hcut : outline symbols = (Level.split m cut).map (.parts joint))
    (h : ofSymbols symbols = .error .unmatchedClosing) :
    Overcloses 0 cut ∨ ∃ next, GoesOnWith symbols next ∧ ¬ Overcloses 0 next ∧
      ofSymbols next = .error .unmatchedClosing := by
  cases hsplit : Level.split m cut with
  | error e =>
    rw [ofSymbols_eq_bind, hcut, hsplit] at h
    obtain rfl := Except.error.inj h
    exact .inl ((split_eq_unmatchedClosing_iff hm).1 hsplit)
  | ok segments =>
    have houtline : outline symbols = .ok (.parts joint segments) := by rw [hcut, hsplit]; rfl
    rw [ofSymbols_of_outline houtline, ofOutline, Except.map_eq_error] at h
    obtain ⟨before, next, after, rfl, hbefore, hnext⟩ := Except.mapM_eq_error.1 h
    have hnot : ¬ Overcloses 0 next := not_overcloses_of_mem_split hsplit (by simp)
    exact .inr ⟨next, .segment houtline hbefore, hnot, hnext⟩

/-- A round in which nothing overcloses meets ends that do not answer each other, or goes on with a
sequence that does not overclose either. -/
theorem mismatched_or_goesOn (h : ofSymbols symbols = .error .unmatchedClosing)
    (hover : ¬ Overcloses 0 symbols) :
    Mismatched symbols ∨ ∃ next, GoesOnWith symbols next ∧ ¬ Overcloses 0 next ∧
      ofSymbols next = .error .unmatchedClosing := by
  rcases outline_cases (two_le_of_unmatchedClosing h) hover with ⟨operator, hoperator, hcut⟩ |
    ⟨habsent, ⟨m, inner, hm, hsymbols, hinside⟩ | hunreadable⟩
  · exact .inr ((overcloses_or_goesOn_of_cut (precedence_neutral _ hoperator) hcut h).resolve_left
      hover)
  · have hends (hinner : Overcloses 0 inner) : Mismatched symbols :=
      ⟨habsent, m, inner, hm, hsymbols, hinner⟩
    have hcomma : Marker.comma.opens = false ∧ Marker.comma ≠ .closing := by decide
    cases m with
    | maxOpening => exact (overcloses_or_goesOn_of_cut hcomma hinside h).imp_left hends
    | minOpening => exact (overcloses_or_goesOn_of_cut hcomma hinside h).imp_left hends
    | opening =>
      have hnext : ofSymbols inner = .error .unmatchedClosing :=
        (ofSymbols_of_outline hinside).symm.trans h
      by_cases hinner : Overcloses 0 inner
      · exact .inl (hends hinner)
      · exact .inr ⟨inner, .inside hinside, hinner, hnext⟩
    | _ => cases hm
  · rw [ofSymbols_eq_bind, hunreadable] at h
    cases h

/-- Grouping that fails for an unmatched bracket, where nothing overcloses, has come to ends that do
not answer each other. -/
theorem exists_mismatched (h : ofSymbols symbols = .error .unmatchedClosing)
    (hover : ¬ Overcloses 0 symbols) : ∃ part, ComesTo symbols part ∧ Mismatched part := by
  -- each round goes on with a shorter sequence
  induction hn : symbols.length using Nat.strongRecOn generalizing symbols with
  | ind n ih =>
    rcases mismatched_or_goesOn h hover with hends | ⟨next, hgoes, hnext, hfails⟩
    · exact ⟨symbols, .refl, hends⟩
    · obtain ⟨part, hpart, hends⟩ := ih next.length (hn ▸ hgoes.length_lt) hfails hnext rfl
      exact ⟨part, .head hgoes hpart, hends⟩

theorem ComesTo.ofSymbols_eq_error (h : ComesTo symbols part) {e : ReadError}
    (hpart : ofSymbols part = .error e) : ofSymbols symbols = .error e := by
  induction h using Relation.ReflTransGen.head_induction_on with
  | refl => exact hpart
  | head hgoes _ ih => exact hgoes.ofSymbols_eq_error ih

theorem ofSymbols_of_overcloses (h : 2 ≤ symbols.length) (hover : Overcloses 0 symbols) :
    ofSymbols symbols = .error .unmatchedClosing := by
  rw [ofSymbols_eq_bind, outline_of_overcloses h hover]
  rfl

/-- The brackets at the ends are taken off, and what they enclose is refused. -/
theorem ofSymbols_of_mismatched (h : Mismatched symbols) :
    ofSymbols symbols = .error .unmatchedClosing := by
  obtain ⟨habsent, m, inner, hm, rfl, hinner⟩ := h
  have hlen : 2 ≤ (Symbol.marker m :: inner ++ [Symbol.marker .closing]).length := by simp
  obtain ⟨last, hpath⟩ := exists_path_of_containsFrom (habsent (.add, .sum) (by decide))
  have houtline : outline (.marker m :: inner ++ [.marker .closing]) = outlineInside m inner := by
    rw [outline_of_two_le hlen, firstOccurring_eq_none_iff.2 habsent, bracketed_enclosed hm]
    rfl
  have hcomma : Marker.comma.opens = false ∧ Marker.comma ≠ .closing := by decide
  rw [ofSymbols_eq_bind, houtline]
  cases m with
  | maxOpening => rw [outlineInside, (split_eq_unmatchedClosing_iff hcomma).2 hinner]; rfl
  | minOpening => rw [outlineInside, (split_eq_unmatchedClosing_iff hcomma).2 hinner]; rfl
  | opening =>
    refine ofSymbols_of_overcloses ?_ hinner
    match inner, hinner with
    | [], hinner => exact absurd hinner not_overcloses_nil
    | [s], hinner =>
      -- a closing bracket alone would also close too much with the brackets around it
      obtain rfl := eq_closing_of_overcloses hinner
      exact absurd ⟨_, List.prefix_rfl, by decide⟩ hpath.not_overcloses
    | _ :: _ :: _, _ => simp
  | _ => cases hm

/-- Grouping two symbols or more fails for an unmatched bracket exactly if some front of them closes
more brackets than it opens, or if it comes to a part with brackets at its two ends that do not
answer each other: the part as a whole does not overclose, but what the two enclose does. -/
theorem ofSymbols_eq_unmatchedClosing_iff (h : 2 ≤ symbols.length) :
    ofSymbols symbols = .error .unmatchedClosing ↔
      Overcloses 0 symbols ∨ ∃ part, ComesTo symbols part ∧ Mismatched part := by
  constructor
  · intro hfails
    by_cases h : Overcloses 0 symbols
    · exact .inl h
    · exact .inr (exists_mismatched hfails h)
  · rintro (hover | ⟨part, hpart, hends⟩)
    · exact ofSymbols_of_overcloses h hover
    · exact hpart.ofSymbols_eq_error (ofSymbols_of_mismatched hends)

/-- Two pairs of brackets with a comma between them: every bracket is matched, and grouping fails
for an unmatched one. -/
theorem ofSymbols_eq_unmatchedClosing_of_two_pairs :
    ∃ symbols : List Symbol, symbols = [.marker .opening, .constant 1, .marker .closing,
        .marker .comma, .marker .opening, .constant 2, .marker .closing] ∧
      2 ≤ symbols.length ∧ ¬ Overcloses 0 symbols ∧
      ofSymbols symbols = .error .unmatchedClosing := by
  refine ⟨_, rfl, by decide, by decide,
    (ofSymbols_eq_unmatchedClosing_iff (by decide)).2 (.inr ⟨_, .refl, ?_⟩)⟩
  exact ⟨firstOccurring_eq_none_iff.1 rfl, .opening, [.constant 1, .marker .closing, .marker .comma,
    .marker .opening, .constant 2], rfl, rfl, by decide⟩

end Grouping

end DiceLaw
