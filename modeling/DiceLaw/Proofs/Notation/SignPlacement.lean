import DiceLaw.Proofs.Notation.RoundTrip

/-!
# Where signs stand

A text may put a minus sign behind a multiplication, a sampling, or another sign. Minus one is then
a part that the notation has no sign for: it is written in brackets, and these are read as a product
of their own. In every other place a sign is the first part of a product, which is written as a sign
again. The formula of a text is therefore read back as it was exactly if no sign stands behind a
multiplication or a sampling.

## Main definitions

* `Derivation.Placed`: a derivation is a sign alone, or canonical exactly if signs lead

## Main results

* `Derivation.placed`: every derivation of symbols that were read is of this kind
* `Formula.ofText_text_eq_iff_signsLead`: which texts come back as the same formula
-/

namespace DiceLaw

open DiceLaw.Symbol (SignedBefore SignsLead)

namespace Derivation

variable {c : Category} {joint : Joint} {m : Marker}

/-! ## A sign at the start -/

/-- A unit that starts with a sign is a sign. -/
theorem eq_sign_of_unit (d : Derivation .unit) (h : d.symbols.head? = some (.constant (-1))) :
    d.symbols = [.constant (-1)] := by
  cases d with
  | constant value => simpa [symbols] using h
  | _ => simp [symbols] at h

/-- An atom that starts with a sign is a sign, since a sign is not sampled from. -/
theorem eq_sign_of_atom (d : Derivation .atom) (hsigned : SignedBefore m d.symbols)
    (h : d.symbols.head? = some (.constant (-1))) : d.symbols = [.constant (-1)] := by
  cases d with
  | lone only => exact eq_sign_of_unit only h
  | more first rest =>
    -- the first unit would be a sign, in front of the marker of a sampling
    have hfirst : first.symbols.head? = some (.constant (-1)) := by
      obtain ⟨s, tail, hs⟩ := List.exists_cons_of_ne_nil first.symbols_ne_nil
      simpa [symbols, hs] using h
    have hbefore : SignedBefore .sampleSum first.symbols := hsigned.of_append_marker.1
    have hsign : first.symbols = [.constant (-1)] := eq_sign_of_unit first hfirst
    rw [hsign] at hbefore
    cases hbefore.eq_mul

/-! ## Canonical parts -/

/-- The symbols are a sign alone, which is no canonical formula, or they are those of a canonical
formula exactly if signs lead. -/
def Placed (symbols : List Symbol) (f : Formula) : Prop :=
  (symbols = [.constant (-1)] ∧ f = .constant (-1)) ∨
    (symbols ≠ [.constant (-1)] ∧ f ≠ .constant (-1) ∧ (f.Canonical ↔ SignsLead symbols))

/-- Behind the marker of its series, a member is canonical exactly if signs lead. -/
theorem signsLead_member (d : Derivation joint.member) (hsigned : SignedBefore m d.symbols)
    (hm : m = .mul → 2 ≤ (Category.series joint).rank) {f : Formula} (h : Placed d.symbols f) :
    SignsLead (.marker joint.marker :: d.symbols) ↔ f.Canonical := by
  rcases h with ⟨hsign, rfl⟩ | ⟨hne, -, hcanonical⟩
  · -- a sign alone ends the series only in front of a multiplication, so that this is a product or
    -- a sampling
    rw [hsign] at hsigned ⊢
    have hrank := hm hsigned.eq_mul
    have hlead : ¬ SignsLead [.marker joint.marker, .constant (-1)] := by
      revert hrank
      cases joint <;> decide
    exact iff_of_false hlead Formula.not_canonical_minus_one
  · -- behind the markers that matter, a member that starts with a sign would be a sign alone
    rw [hcanonical, SignsLead, List.isChain_cons]
    refine and_iff_right fun b hb hsign => ?_
    subst hsign
    cases joint with
    | product => exact absurd (eq_sign_of_atom d hsigned hb) hne
    | sampleSum => exact absurd (eq_sign_of_unit d hb) hne
    | _ => exact ⟨by decide, by decide⟩

/-- Brackets hold no sign alone, so that what they hold is canonical exactly if signs lead. -/
theorem placed_enclosed {symbols : List Symbol} {f : Formula} (hmul : m ≠ .mul)
    (hsample : m ≠ .sampleSum) (hne : f ≠ .constant (-1))
    (h : f.Canonical ↔ SignsLead symbols) :
    Placed (.marker m :: symbols ++ [.marker .closing]) f := by
  refine .inr ⟨by simp, hne, ?_⟩
  rw [Symbol.signsLead_enclosed hmul hsample, h]

/-- A selection is canonical exactly if signs lead in its arguments. -/
theorem placed_selection {symbols : List Symbol} {gs : List Grouping} {f : Formula}
    (hj : joint.isSelection = true) (hmul : m ≠ .mul) (hsample : m ≠ .sampleSum)
    (hf : Formula.ofGrouping (.node joint gs) = .ok f)
    (h : ∀ fs, Formula.ofGroupings gs = .ok fs →
      (SignsLead (.marker joint.marker :: symbols) ↔ ∀ part ∈ fs, part.Canonical)) :
    Placed (.marker m :: symbols ++ [.marker .closing]) f := by
  obtain ⟨first, rest, hfs, rfl⟩ := Formula.ofGrouping_node_eq_ok hf
  refine placed_enclosed hmul hsample (by simp) ?_
  -- behind a comma or an opening a sign may stand, so that both are passed over
  have hcomma : joint.marker = .comma := by
    cases joint with
    | max | min => rfl
    | _ => cases hj
  have hproduct : joint ≠ .product := by
    rintro rfl
    cases hj
  rw [Formula.canonical_join_iff (by simp [hj]) fun h => hproduct h.1, ← h _ hfs, hcomma,
    Symbol.signsLead_cons_marker (by decide) (by decide)]

/-- A series of two members or more is canonical exactly if signs lead, since a sign in front of
another marker than a multiplication does not occur. -/
theorem placed_series {first rest : List Symbol} {f : Formula} {gs : List Grouping}
    {g : Grouping} (hj : joint.isSelection = false) (hgs : gs ≠ [])
    (hf : Formula.ofGrouping (.node joint (g :: gs)) = .ok f)
    (hsigned : SignedBefore joint.marker first)
    (hfirst : ∀ part, Formula.ofGrouping g = .ok part → Placed first part)
    (hrest : ∀ fs, Formula.ofGroupings gs = .ok fs →
      (SignsLead (.marker joint.marker :: rest) ↔ ∀ part ∈ fs, part.Canonical)) :
    Placed (first ++ .marker joint.marker :: rest) f := by
  obtain ⟨head, others, hparts, rfl⟩ := Formula.ofGrouping_node_eq_ok hf
  obtain ⟨_, _, hhead, hothers, heq⟩ := Formula.ofGroupings_cons_eq_ok hparts
  obtain ⟨rfl, rfl⟩ := List.cons.inj heq
  have hne : others ≠ [] := by
    rw [← List.length_pos_iff, Formula.ofGroupings_length hothers, List.length_pos_iff]
    exact hgs
  refine .inr ⟨?_, by simp, ?_⟩
  · cases first <;> simp
  rw [Symbol.signsLead_append_marker, hrest _ hothers]
  rcases hfirst head hhead with ⟨rfl, rfl⟩ | ⟨-, hminus, hcanonical⟩
  · -- the sign is followed by a multiplication, and leads a product
    have hmul := hsigned.eq_mul
    obtain rfl : joint = .product := by
      revert hmul
      cases joint <;> simp [Joint.marker]
    rw [Formula.canonical_negated_iff hne]
    simp [SignsLead]
  · rw [Formula.canonical_join_iff (fun _ => hne) fun h => hminus h.2, List.forall_mem_cons,
      hcanonical]

/-- What a derivation of symbols that were read is lowered to is canonical exactly if signs lead.
A sign alone may stand at the end of an atom or a factor only. -/
theorem placed (d : Derivation c) (hread : ∀ s ∈ d.symbols, s.IsRead) {m : Marker}
    (hm : m = .mul → 2 ≤ c.rank) (hsigned : SignedBefore m d.symbols) :
    (c.isArguments = false → ∀ f, Formula.ofGrouping d.grouping = .ok f → Placed d.symbols f) ∧
      ∀ joint, c = .series joint → ∀ fs, Formula.ofGroupings d.groupings = .ok fs →
        (SignsLead (.marker joint.marker :: d.symbols) ↔ ∀ part ∈ fs, part.Canonical) := by
  -- a unit is no series
  have hunit : ∀ {P : Joint → Prop} (joint : Joint), Category.unit = .series joint → P joint := by
    intro P joint h
    cases h
  induction d generalizing m with
  | constant value =>
    refine ⟨fun _ f h => ?_, hunit⟩
    obtain rfl : Formula.constant value = f := Except.ok.inj h
    rcases hread _ List.mem_cons_self with hvalue | rfl
    · -- a natural number is canonical, and no sign
      refine .inr ⟨?_, ?_, iff_of_true (.constant hvalue) (.singleton _)⟩
      · simp [symbols]; omega
      · simp; omega
    · exact .inl ⟨rfl, rfl⟩
  | die lo hi =>
    refine ⟨fun _ f h => ?_, hunit⟩
    obtain ⟨hle, rfl⟩ := Formula.die?_eq_ok h
    exact .inr ⟨by simp [symbols], by simp, iff_of_true (.die _) (.singleton _)⟩
  | brackets inside ih =>
    refine ⟨fun _ f h => ?_, hunit⟩
    have hinside := hsigned.of_enclosed
    have hplaced := (ih (fun s h => hread s (by simp [symbols, h])) (by simp) hinside).1 rfl f h
    rcases hplaced with ⟨hsign, -⟩ | ⟨-, hne, hcanonical⟩
    · -- no sign stands in front of a closing bracket
      rw [hsign] at hinside
      cases hinside.eq_mul
    · exact placed_enclosed (by decide) (by decide) hne hcanonical
  | maximum arguments ih =>
    refine ⟨fun _ f h => ?_, hunit⟩
    have harguments := ih (fun s h => hread s (by simp [symbols, h])) (by simp) hsigned.of_enclosed
    rw [grouping, arguments.grouping_of_isSelection rfl] at h
    exact placed_selection rfl (by decide) (by decide) h (harguments.2 .max rfl)
  | minimum arguments ih =>
    refine ⟨fun _ f h => ?_, hunit⟩
    have harguments := ih (fun s h => hread s (by simp [symbols, h])) (by simp) hsigned.of_enclosed
    rw [grouping, arguments.grouping_of_isSelection rfl] at h
    exact placed_selection rfl (by decide) (by decide) h (harguments.2 .min rfl)
  | @lone joint only ih =>
    have honly := (ih hread (fun h => (hm h).trans joint.rank_le_member) hsigned).1
      joint.isArguments_member
    constructor
    · -- one member leaves no node
      intro hj f h
      rw [grouping, if_neg (by simpa [Category.isArguments] using hj)] at h
      exact honly f h
    · rintro _ ⟨⟩ fs h
      obtain ⟨f, rest, hf, hrest, rfl⟩ := Formula.ofGroupings_cons_eq_ok h
      obtain rfl := Except.ok.inj hrest
      rw [List.forall_mem_singleton]
      exact signsLead_member only hsigned hm (honly f hf)
  | @more joint first rest ihFirst ihRest =>
    -- the first member stands in front of the marker of the series, and the rest behind it
    obtain ⟨hsignedFirst, hsignedRest⟩ := hsigned.of_append_marker
    have hfirst := (ihFirst (fun s h => hread s (by simp [symbols, h])) (by cases joint <;> decide)
      hsignedFirst).1 joint.isArguments_member
    have hrest := (ihRest (fun s h => hread s (by simp [symbols, h])) hm hsignedRest).2 joint rfl
    constructor
    · intro hj f h
      rw [grouping] at h
      exact placed_series hj rest.groupings_ne_nil h hsignedFirst hfirst hrest
    · rintro _ ⟨⟩ fs h
      obtain ⟨f, others, hf, hothers, rfl⟩ := Formula.ofGroupings_cons_eq_ok h
      have hmember := signsLead_member first hsignedFirst (by cases joint <;> decide) (hfirst f hf)
      -- behind the marker of the series, the symbols are split at the next such marker
      rw [List.forall_mem_cons, ← hmember, ← hrest _ hothers]
      show SignsLead
        ((.marker joint.marker :: first.symbols) ++ .marker joint.marker :: rest.symbols) ↔ _
      exact Symbol.signsLead_append_marker

end Derivation

namespace Formula

/-- A formula that was read from a text is written as a text that is read again, as the normal form
of the formula. It is read back as it was exactly if no sign of the text stands behind a
multiplication or a sampling. -/
theorem ofText_text_eq_iff_signsLead {text : String} {f : Formula} (h : ofText text = .ok f) :
    ∃ symbols, Symbol.ofText text = .ok symbols ∧ ofText f.text = .ok (normal f) ∧
      (ofText f.text = .ok f ↔ SignsLead symbols) := by
  have hnotated := notated_of_ofText h
  obtain ⟨d, hsymbols, hf⟩ := exists_derivation_of_ofText h
  have hread := Symbol.read_of_ofText hsymbols
  have hsigned := hread.signed
  refine ⟨d.symbols, hsymbols, hnotated.ofText_text, ?_⟩
  rw [hnotated.ofText_text_eq_iff]
  rcases (d.placed hread.isRead (by simp) hsigned).1 rfl f hf with ⟨hsign, -⟩ | ⟨-, -, hcanonical⟩
  · -- a text does not end with a sign
    rw [hsign] at hsigned
    cases hsigned.eq_mul
  · exact hcanonical

/-- In `2*-3` a sign stands behind a multiplication: what the formula is written as, `2*(-1)*3`, is
read as another formula. -/
theorem ofText_text_ne_of_sign_behind_multiplication :
    ofText "2*-3" = .ok (.join .product (.constant 2) [.constant (-1), .constant 3]) ∧
      ofText (text (.join .product (.constant 2) [.constant (-1), .constant 3]))
        ≠ .ok (.join .product (.constant 2) [.constant (-1), .constant 3]) := by
  let d : Derivation .formula := .lone (.lone
    (.more (.lone (.constant 2)) (.more (.lone (.constant (-1))) (.lone (.lone (.constant 3))))))
  have hsymbols : Symbol.ofText "2*-3" = .ok d.symbols := rfl
  have hgrouped : Grouping.ofSymbols d.symbols = .ok d.grouping :=
    (Grouping.ofSymbols_members d).2 rfl
  have hread : ofText "2*-3"
      = .ok (.join .product (.constant 2) [.constant (-1), .constant 3]) := by
    rw [ofText, hsymbols]
    show ofSymbols d.symbols = _
    rw [ofSymbols, hgrouped]
    rfl
  refine ⟨hread, fun hback => ?_⟩
  obtain ⟨symbols, hsame, -, hiff⟩ := ofText_text_eq_iff_signsLead hread
  obtain rfl := Except.ok.inj (hsymbols.symm.trans hsame)
  exact absurd (hiff.1 hback) (by decide)

end Formula

end DiceLaw
