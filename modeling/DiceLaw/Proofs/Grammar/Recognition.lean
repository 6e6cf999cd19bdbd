import DiceLaw.Proofs.Grammar.Completeness

/-!
# Grouping recognizes the grammar

What has a grouping is spelled by a derivation. The brackets that grouping takes off need not answer
each other when it takes them off; they do when what stands between has a grouping, since all that a
derivation spells comes back to its depth.

## Main definitions

* `Derives`: a category derives a sequence with a grouping

## Main results

* `Derives.narrow`: a series without its marker outside brackets is its only member
* `Grouping.derives_of_ofSymbols`: what has a grouping is derived with it
* `Grouping.ofSymbols_recognizes`: grouping and the grammar agree, and derivations are unique
-/

namespace DiceLaw

open Level

/-- The category derives the symbols, and the derivation has the grouping. -/
def Derives (c : Category) (symbols : List Symbol) (g : Grouping) : Prop :=
  ∃ d : Derivation c, d.symbols = symbols ∧ d.grouping = g

namespace Derives

variable {c : Category} {joint : Joint} {symbols : List Symbol} {g : Grouping}

theorem path (h : Derives c symbols g) : Path c.barred 0 symbols 0 := by
  obtain ⟨d, rfl, -⟩ := h
  exact d.path_symbols

/-! ## From a category to another -/

/-- A member alone is a series. -/
theorem widen (joint : Joint) (hj : joint.isSelection = false)
    (h : Derives joint.member symbols g) :
    Derives (.series joint) symbols g := by
  obtain ⟨d, rfl, rfl⟩ := h
  exact ⟨.lone d, rfl, by simp [Derivation.grouping, hj]⟩

/-- A further member in front of a series. -/
theorem more {first : List Symbol} (h : Derives joint.member first g)
    (d : Derivation (.series joint)) :
    Derives (.series joint) (first ++ .marker joint.marker :: d.symbols)
      (.node joint (g :: d.groupings)) := by
  obtain ⟨e, rfl, rfl⟩ := h
  exact ⟨.more e d, rfl, by rw [Derivation.grouping]⟩

/-- What a category derives, every category that binds less tight derives too. -/
theorem widen_to {c' : Category} (hc' : c'.isArguments = false) (hc : c.isArguments = false)
    (hle : c'.rank ≤ c.rank) (h : Derives c symbols g) : Derives c' symbols g := by
  have step : ∀ joint : Joint, joint.isSelection = false →
      (joint.member.rank ≤ c.rank → Derives joint.member symbols g) →
      (Category.series joint).rank ≤ c.rank → Derives (.series joint) symbols g := by
    intro joint hj hmember hle
    by_cases heq : c = .series joint
    · exact heq ▸ h
    · exact (hmember (joint.rank_member_le hj hc heq hle)).widen joint hj
  -- from the unit, which nothing else is as tight as, up to the formula
  have hunit : Category.unit.rank ≤ c.rank → Derives .unit symbols g := by
    intro hle
    rcases c with _ | joint
    · exact h
    · cases joint <;> exact absurd hle (by decide)
  have hatom := step .sampleSum rfl hunit
  have hfactor := step .product rfl hatom
  have hterm := step .quotient rfl hfactor
  have hformula := step .sum rfl hterm
  match c', hc', hle with
  | .unit, _, hle => exact hunit hle
  | .atom, _, hle => exact hatom hle
  | .factor, _, hle => exact hfactor hle
  | .term, _, hle => exact hterm hle
  | .formula, _, hle => exact hformula hle

/-- Whatever stands for itself is a formula. -/
theorem to_formula (hc : c.isArguments = false) (h : Derives c symbols g) :
    Derives .formula symbols g :=
  h.widen_to rfl hc (Nat.zero_le _)

/-- A series without its marker outside brackets is its only member. -/
theorem narrow {last : Nat} (hj : joint.isSelection = false)
    (h : Derives (.series joint) symbols g) (hpath : Path [joint.marker] 0 symbols last) :
    Derives joint.member symbols g := by
  obtain ⟨d, rfl, rfl⟩ := h
  cases d with
  | lone only => exact ⟨only, rfl, by simp [Derivation.grouping, hj]⟩
  | more first rest => exact absurd hpath first.path_member.not_append_marker

/-- A formula is a member of a series if no looser operator stands outside its brackets. -/
theorem member_of_formula (hj : joint.isSelection = false) (h : Derives .formula symbols g)
    (hpath : ∀ m ∈ joint.member.barred, m ≠ .comma → ∃ last, Path [m] 0 symbols last) :
    Derives joint.member symbols g := by
  have step : ∀ {k : Joint}, k.isSelection = false → k.marker ∈ joint.member.barred →
      Derives (.series k) symbols g → Derives k.member symbols g := by
    intro k hk hbarred h
    have hcomma : k.marker ≠ .comma := by
      rintro he
      cases k <;> cases he <;> cases hk
    obtain ⟨last, hlast⟩ := hpath k.marker hbarred hcomma
    exact h.narrow hk hlast
  -- the series from the formula down to this one are left in turn
  cases joint with
  | sum => exact step rfl (by decide) h
  | quotient => exact step rfl (by decide) (step rfl (by decide) h)
  | product => exact step rfl (by decide) (step rfl (by decide) (step rfl (by decide) h))
  | sampleSum =>
    exact step rfl (by decide)
      (step rfl (by decide) (step rfl (by decide) (step rfl (by decide) h)))
  | max | min => cases hj

/-! ## From the segments of a cut to a series -/

/-- Members that are derived with their groupings make a series. -/
theorem exists_series {first : List Symbol} {others : List (List Symbol)} {gs : List Grouping}
    (hgs : (first :: others).mapM Grouping.ofSymbols = .ok gs)
    (hmem : ∀ segment ∈ first :: others, ∀ g, Grouping.ofSymbols segment = .ok g →
      Derives joint.member segment g) :
    ∃ d : Derivation (.series joint), d.members = first :: others ∧ d.groupings = gs := by
  induction others generalizing first gs with
  | nil =>
    obtain ⟨g, rest, hg, hrest, rfl⟩ := Except.mapM_cons_eq_ok.1 hgs
    obtain rfl := Except.ok.inj hrest
    obtain ⟨d, rfl, rfl⟩ := hmem first List.mem_cons_self g hg
    exact ⟨.lone d, rfl, rfl⟩
  | cons next others ih =>
    obtain ⟨g, rest, hg, hrest, rfl⟩ := Except.mapM_cons_eq_ok.1 hgs
    obtain ⟨d, rfl, rfl⟩ := hmem first List.mem_cons_self g hg
    obtain ⟨e, he, rfl⟩ := ih hrest fun segment hs => hmem segment (List.mem_cons_of_mem _ hs)
    exact ⟨.more d e, by rw [Derivation.members, he], rfl⟩

end Derives

namespace Derivation

theorem groupings_length {joint : Joint} (d : Derivation (.series joint)) :
    d.groupings.length = d.members.length := by
  match d with
  | .lone only => rfl
  | .more first rest => simp [groupings, members, rest.groupings_length]

theorem groupings_ne_nil {joint : Joint} (d : Derivation (.series joint)) : d.groupings ≠ [] := by
  cases d with
  | lone only => exact List.cons_ne_nil _ _
  | more first rest => exact List.cons_ne_nil _ _

end Derivation

/-- A path through segments that come back to their depth goes through each of them. -/
theorem Level.Path.of_segments {barred : List Marker} {joint : Joint} {last : Nat}
    {first : List Symbol} {others : List (List Symbol)}
    (h : Path barred 0 (first ++ others.flatMap (.marker joint.marker :: ·)) last)
    (hback : ∀ segment ∈ first :: others, Path [] 0 segment 0) :
    ∀ segment ∈ first :: others, Path barred 0 segment 0 := by
  -- each segment starts at depth zero: the one before it comes back, and its marker is no bracket
  induction others generalizing first with
  | nil =>
    obtain ⟨middle, hfirst, -⟩ := h.of_append
    obtain rfl := hfirst.end_unique (hback first List.mem_cons_self)
    simpa using hfirst
  | cons next others ih =>
    obtain ⟨middle, hfirst, hrest⟩ := h.of_append
    obtain rfl := hfirst.end_unique (hback first List.mem_cons_self)
    have hnext : Path barred 0 (next ++ others.flatMap (.marker joint.marker :: ·)) last := by
      rw [List.flatMap_cons, List.cons_append] at hrest
      cases hrest with
      | cons free step tail =>
        obtain rfl := Except.ok.inj (step.symm.trans (joint.after_marker 0))
        exact tail
    intro segment hs
    rcases List.mem_cons.1 hs with rfl | hs
    · exact hfirst
    · exact ih hnext (fun s h => hback s (List.mem_cons_of_mem _ h)) segment hs

/-! ## What is grouped is derived -/

namespace Grouping

theorem exists_of_mapM {segments : List (List Symbol)} {gs : List Grouping}
    (h : segments.mapM ofSymbols = .ok gs) :
    ∀ segment ∈ segments, ∃ g, ofSymbols segment = .ok g := by
  induction segments generalizing gs with
  | nil => simp
  | cons segment rest ih =>
    obtain ⟨g, others, hg, hrest, -⟩ := Except.mapM_cons_eq_ok.1 h
    intro s hs
    rcases List.mem_cons.1 hs with rfl | hs
    · exact ⟨g, hg⟩
    · exact ih hrest s hs

/-- Segments of a cut that are derived from formulas make a series of the cut's operator. -/
theorem derives_of_operator {joint : Joint} {symbols : List Symbol} {segments : List (List Symbol)}
    {gs : List Grouping} (hj : joint.isSelection = false)
    (absent : ∀ m ∈ (Category.series joint).barred, m ≠ .comma →
      Level.contains m symbols = .ok false)
    (occurs : Level.contains joint.marker symbols = .ok true)
    (hs : Level.split joint.marker symbols = .ok segments) (hgs : segments.mapM ofSymbols = .ok gs)
    (ih : ∀ segment ∈ segments, ∀ g, ofSymbols segment = .ok g → Derives .formula segment g) :
    Derives (.series joint) symbols (.node joint gs) := by
  obtain ⟨first, others, hcut, rfl⟩ := split_eq_ok hs
  obtain ⟨hsymbols, hfirst, hothers⟩ := exists_path_of_segmentsFrom hcut
  -- a segment that is grouped is derived, and so comes back to its depth
  have hback : ∀ segment ∈ first :: others, Path [] 0 segment 0 := by
    intro segment hmem
    obtain ⟨g, hg⟩ := exists_of_mapM hgs segment hmem
    exact (ih segment hmem g hg).path.mono (by simp)
  have hpath : ∀ segment ∈ first :: others, ∀ m ∈ joint.member.barred, m ≠ .comma →
      ∃ last, Path [m] 0 segment last := by
    intro segment hmem m hm hcomma
    rw [joint.barred_member] at hm
    rcases List.mem_cons.1 hm with rfl | hm
    · -- the marker of the cut is in no segment
      rcases List.mem_cons.1 hmem with rfl | hmem
      · exact hfirst
      · exact hothers segment hmem
    · -- a looser marker is nowhere, and since the segments come back, in none of them
      obtain ⟨last, hlast⟩ := exists_path_of_containsFrom (absent m hm hcomma)
      rw [hsymbols] at hlast
      exact ⟨0, hlast.of_segments hback segment hmem⟩
  obtain ⟨d, hmembers, rfl⟩ := Derives.exists_series hgs fun segment hmem g hg =>
    (ih segment hmem g hg).member_of_formula hj (hpath segment hmem)
  refine ⟨d, by rw [d.symbols_of_members hmembers, hsymbols], d.grouping_of_two_le ?_⟩
  have hne := others_ne_nil_of_contains occurs hcut
  rw [hmembers, List.length_cons]
  have := List.length_pos_iff.2 hne
  omega

/-- Segments of a cut at commas that are derived from formulas make arguments. -/
theorem derives_of_selection (joint : Joint) {symbols : List Symbol}
    {segments : List (List Symbol)} {gs : List Grouping} (hj : joint.isSelection = true)
    (hs : Level.split joint.marker symbols = .ok segments) (hgs : segments.mapM ofSymbols = .ok gs)
    (ih : ∀ segment ∈ segments, ∀ g, ofSymbols segment = .ok g → Derives .formula segment g) :
    Derives (.series joint) symbols (.node joint gs) := by
  obtain ⟨first, others, hcut, rfl⟩ := split_eq_ok hs
  obtain ⟨hsymbols, -, -⟩ := exists_path_of_segmentsFrom hcut
  have hmember : joint.member = .formula := by
    cases joint with
    | max | min => rfl
    | _ => cases hj
  obtain ⟨d, hmembers, rfl⟩ := Derives.exists_series hgs fun segment hmem g hg => by
    rw [hmember]
    exact ih segment hmem g hg
  exact ⟨d, by rw [d.symbols_of_members hmembers, hsymbols], d.grouping_of_isSelection hj⟩

theorem exists_of_ofOutline {joint : Joint} {segments : List (List Symbol)} {g : Grouping}
    (h : ofOutline (.parts joint segments) = .ok g) :
    ∃ gs, segments.mapM ofSymbols = .ok gs ∧ g = .node joint gs := by
  rw [ofOutline] at h
  obtain ⟨gs, hgs, rfl⟩ := Except.map_eq_ok.1 h
  exact ⟨gs, hgs, rfl⟩

/-- A round of grouping keeps to the grammar if the rounds after it do. -/
theorem derives_of_outline {symbols : List Symbol} {o : Outline} {g : Grouping}
    (ho : outline symbols = .ok o) (hgo : ofOutline o = .ok g)
    (ih : ∀ rest : List Symbol, rest.length < symbols.length →
      ∀ g, ofSymbols rest = .ok g → Derives .formula rest g) :
    Derives .formula symbols g := by
  have hshorter := Outline.shorter_of_outline ho
  -- one rule of the grammar for each outline
  cases Outline.shows_of_outline ho with
  | @operand s hs =>
    obtain rfl := Except.ok.inj hgo
    cases s with
    | constant value => exact Derives.to_formula rfl ⟨.constant value, rfl, rfl⟩
    | die lo hi => exact Derives.to_formula rfl ⟨.die lo hi, rfl, rfl⟩
    | _ => cases hs
  | inside rest =>
    obtain ⟨d, rfl, rfl⟩ := ih rest hshorter g hgo
    exact Derives.to_formula rfl ⟨.brackets d, rfl, rfl⟩
  | maximum hs =>
    obtain ⟨gs, hgs, rfl⟩ := exists_of_ofOutline hgo
    obtain ⟨d, rfl, hd⟩ := derives_of_selection .max rfl hs hgs
      fun segment hmem => ih segment (hshorter segment hmem)
    exact Derives.to_formula rfl ⟨.maximum d, rfl, hd⟩
  | minimum hs =>
    obtain ⟨gs, hgs, rfl⟩ := exists_of_ofOutline hgo
    obtain ⟨d, rfl, hd⟩ := derives_of_selection .min rfl hs hgs
      fun segment hmem => ih segment (hshorter segment hmem)
    exact Derives.to_formula rfl ⟨.minimum d, rfl, hd⟩
  | @operator joint _ _ hj absent occurs hs =>
    obtain ⟨gs, hgs, rfl⟩ := exists_of_ofOutline hgo
    have hseries := derives_of_operator hj absent occurs hs hgs
      fun segment hmem => ih segment (hshorter segment hmem)
    exact hseries.to_formula (show (Category.series joint).isArguments = false from hj)

/-- What has a grouping is derived with it. -/
theorem derives_of_ofSymbols {symbols : List Symbol} {g : Grouping}
    (h : ofSymbols symbols = .ok g) : Derives .formula symbols g := by
  -- grouping goes on with shorter sequences
  induction hn : symbols.length using Nat.strongRecOn generalizing symbols g with
  | ind n ih =>
    rw [ofSymbols_eq_bind] at h
    obtain ⟨o, ho, h⟩ := Except.bind_eq_ok.1 h
    exact derives_of_outline ho h fun rest hlt g hg => ih rest.length (hn ▸ hlt) hg rfl

/-- Grouping recognizes the grammar: what a sequence is grouped to is the grouping of a derivation
of it as a formula, and no sequence has two derivations. -/
theorem ofSymbols_recognizes (symbols : List Symbol) :
    (∀ g, ofSymbols symbols = .ok g ↔
        ∃ d : Derivation .formula, d.symbols = symbols ∧ d.grouping = g) ∧
      ∀ d e : Derivation .formula, d.symbols = symbols → e.symbols = symbols → d = e := by
  refine ⟨fun g => ⟨derives_of_ofSymbols, ?_⟩, ?_⟩
  · rintro ⟨d, rfl, rfl⟩
    exact (ofSymbols_members d).2 rfl
  · intro d e hd he
    exact d.symbols_injective e (hd.trans he.symm)

end Grouping

end DiceLaw
