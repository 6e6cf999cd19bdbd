import DiceLaw.Proofs.Grammar.Outline

/-!
# What the grammar derives is grouped

Grouping does not follow the rules of the grammar: it looks for the loosest operator outside
brackets, cuts there, and otherwise takes off the first and the last symbol. On what a derivation
spells, each round undoes the last rule of the derivation that makes a node or brackets.

## Main results

* `Derivation.firstOccurring_more`, `Derivation.split_eq_members`: a series is cut at its own
  operator, into its members
* `Grouping.ofSymbols_members`: what a derivation spells is grouped as the derivation is
-/

namespace DiceLaw

open Level

/-! ## The outer level of symbols in brackets -/

theorem Level.Path.contains_eq_false {barred : List Marker} {symbols : List Symbol} {last : Nat}
    {m : Marker} (h : Path barred 0 symbols last) (hm : m ∈ barred) :
    Level.contains m symbols = .ok false := by
  have hsearch := containsFrom_append h hm []
  rwa [List.append_nil] at hsearch

/-- Behind a path that comes back to the outer level, a marker is found. -/
theorem Level.Path.contains_eq_true {symbols : List Symbol} {m : Marker}
    (h : Path [m] 0 symbols 0) (rest : List Symbol) :
    Level.contains m (symbols ++ .marker m :: rest) = .ok true := by
  rw [Level.contains, containsFrom_append h List.mem_cons_self]
  simp [containsFrom]

/-- Around symbols that come back to their depth, brackets are all that the outer level shows. -/
theorem outline_enclosed {m : Marker} (hm : m.opens = true) {inner : List Symbol}
    (h : Path [] 0 inner 0) :
    outline (.marker m :: inner ++ [.marker .closing]) = outlineInside m inner := by
  have hpath := h.enclosed hm fun _ => Category.ne_bracket_of_mem_barred (c := .unit)
  have hbarred : ∀ operator ∈ precedence, operator.1 ∈ Category.unit.barred := by decide
  -- all operators are passed over
  have hnone : firstOccurring (.marker m :: inner ++ [.marker .closing]) precedence = .ok none := by
    rw [← List.append_nil precedence, firstOccurring_append fun operator hop =>
      hpath.contains_eq_false (hbarred operator hop)]
    rfl
  rw [outline_of_two_le (by simp), hnone]
  simp only [Except.bind, bracketed_enclosed hm]

/-! ## The outer level of a derivation -/

namespace Derivation

variable {c : Category} {joint : Joint}

/-- What a derivation spells comes back to its depth. -/
theorem path_back (d : Derivation c) : Path [] 0 d.symbols 0 :=
  d.path_symbols.mono (by simp)

theorem contains_eq_false (d : Derivation c) {m : Marker} (hm : m ∈ c.barred) :
    Level.contains m d.symbols = .ok false :=
  d.path_symbols.contains_eq_false hm

theorem contains_eq_true (first : Derivation joint.member) (rest : Derivation (.series joint)) :
    Level.contains joint.marker (more first rest).symbols = .ok true :=
  first.path_member.contains_eq_true rest.symbols

/-- The operators in front of that of a series are barred from it. -/
theorem exists_precedence (hj : joint.isSelection = false) :
    ∃ looser tighter, precedence = looser ++ (joint.marker, joint) :: tighter ∧
      ∀ operator ∈ looser, operator.1 ∈ (Category.series joint).barred := by
  cases joint with
  | sum => exact ⟨[], precedence.drop 1, rfl, by decide⟩
  | quotient => exact ⟨precedence.take 1, precedence.drop 2, rfl, by decide⟩
  | product => exact ⟨precedence.take 2, precedence.drop 3, rfl, by decide⟩
  | sampleSum => exact ⟨precedence.take 3, [], rfl, by decide⟩
  | max | min => cases hj

/-- The operator that joins a series is the loosest one outside its brackets. -/
theorem firstOccurring_more (hj : joint.isSelection = false) (first : Derivation joint.member)
    (rest : Derivation (.series joint)) :
    firstOccurring (more first rest).symbols precedence = .ok (some (joint.marker, joint)) := by
  obtain ⟨looser, tighter, hprecedence, hlooser⟩ := exists_precedence hj
  -- the looser operators are passed over, and that of the series occurs
  rw [hprecedence, firstOccurring_append fun k hk => contains_eq_false _ (hlooser k hk),
    firstOccurring, contains_eq_true]
  rfl

/-- A series is cut into its members. -/
theorem split_symbols : ∀ {joint : Joint} (d : Derivation (.series joint)),
    ∃ first others, segmentsFrom joint.marker 0 d.symbols = .ok (first, others) ∧
      d.members = first :: others
  | joint, .lone only => by
    have h := segmentsFrom_append only.path_member List.mem_cons_self []
    rw [List.append_nil] at h
    refine ⟨only.symbols, [], ?_, rfl⟩
    rw [symbols, h]
    simp [segmentsFrom, Except.map]
  | joint, .more first rest => by
    obtain ⟨next, others, hrest, hmembers⟩ := split_symbols rest
    refine ⟨first.symbols, next :: others, ?_, by rw [members, hmembers]⟩
    -- the first member is left in one segment, and its marker starts the next one
    rw [symbols, segmentsFrom_append first.path_member List.mem_cons_self]
    simp [segmentsFrom, hrest, bind, Except.bind, pure, Except.pure, Except.map]

theorem split_eq_members (d : Derivation (.series joint)) :
    Level.split joint.marker d.symbols = .ok d.members := by
  obtain ⟨first, others, hsegments, hmembers⟩ := split_symbols d
  have hfull : (first :: others).any List.isEmpty = false := by
    rw [← hmembers, List.any_eq_false]
    simpa using d.members_ne_nil
  rw [Level.split, hsegments, hmembers]
  simp only [bind, Except.bind, hfull]
  rfl

/-! ### Outlines of derivations -/

theorem outline_more (hj : joint.isSelection = false) (first : Derivation joint.member)
    (rest : Derivation (.series joint)) :
    outline (more first rest).symbols = .ok (.parts joint (more first rest).members) := by
  have hlen : 2 ≤ (more first rest).symbols.length := by
    have := List.length_pos_iff.2 first.symbols_ne_nil
    simp only [symbols, List.length_append, List.length_cons]
    omega
  rw [outline_of_two_le hlen, firstOccurring_more hj]
  simp only [Except.bind, split_eq_members]
  rfl

end Derivation

/-- Arguments in the brackets of a selection make a node of it, if each of them is grouped. -/
theorem Grouping.ofSymbols_selection {joint : Joint} {m : Marker} (hopens : m.opens = true)
    (hselection : joint.isSelection = true)
    (hinside : ∀ symbols : List Symbol,
      outlineInside m symbols = (Level.split joint.marker symbols).map (.parts joint))
    {arguments : Derivation (.series joint)}
    (h : arguments.members.mapM ofSymbols = .ok arguments.groupings) :
    ofSymbols (.marker m :: arguments.symbols ++ [.marker .closing]) = .ok arguments.grouping := by
  have houtline := outline_enclosed hopens arguments.path_back
  rw [hinside, arguments.split_eq_members] at houtline
  rw [ofSymbols_of_outline houtline, ofOutline, h, arguments.grouping_of_isSelection hselection]
  rfl

/-- What a derivation spells is grouped as the derivation is; of a series, each member is. -/
theorem Grouping.ofSymbols_members {c : Category} (d : Derivation c) :
    d.members.mapM ofSymbols = .ok d.groupings ∧
      (c.isArguments = false → ofSymbols d.symbols = .ok d.grouping) := by
  -- the members are grouped by the induction hypotheses, the whole by one round more
  induction d with
  | constant value => exact ⟨rfl, fun _ => ofSymbols_of_outline (outline_operand rfl)⟩
  | die lo hi => exact ⟨rfl, fun _ => ofSymbols_of_outline (outline_operand rfl)⟩
  | brackets inside ih =>
    refine ⟨rfl, fun _ => ?_⟩
    rw [Derivation.symbols, ofSymbols_of_outline (outline_enclosed rfl inside.path_back)]
    exact ih.2 rfl
  | maximum arguments ih => exact ⟨rfl, fun _ => ofSymbols_selection rfl rfl (fun _ => rfl) ih.1⟩
  | minimum arguments ih => exact ⟨rfl, fun _ => ofSymbols_selection rfl rfl (fun _ => rfl) ih.1⟩
  | @lone joint only ih =>
    have honly := ih.2 joint.isArguments_member
    refine ⟨by simp [Derivation.members, Derivation.groupings, honly, bind, Except.bind, pure,
      Except.pure], fun hj => ?_⟩
    have hj : joint.isSelection = false := hj
    simp [Derivation.symbols, Derivation.grouping, honly, hj]
  | @more joint first rest ihFirst ihRest =>
    have hmembers : (Derivation.more first rest).members.mapM ofSymbols
        = .ok (Derivation.more first rest).groupings := by
      simp [Derivation.members, Derivation.groupings, ihFirst.2 joint.isArguments_member, ihRest.1,
        bind, Except.bind, pure, Except.pure]
    refine ⟨hmembers, fun hj => ?_⟩
    rw [ofSymbols_of_outline (Derivation.outline_more hj first rest), ofOutline, hmembers]
    rfl

end DiceLaw
