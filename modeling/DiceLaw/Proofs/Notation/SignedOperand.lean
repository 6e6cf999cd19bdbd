import DiceLaw.Proofs.Law.Signs
import DiceLaw.Proofs.Notation.Context

/-!
# A minus sign in front of an operand

A minus sign behind an operator is read as minus one and a multiplication, without brackets. Behind
an addition, a subtraction, a multiplication or a division the operand is negated all the same.
Behind a sampling it is not: minus one is what is sampled, and the operand is a factor of the
product.

## Main definitions

* `Formula.UnitText`: a text that is an operand by itself

## Main results

* `Formula.ofText_signed_operand`: a minus sign behind each operator
-/

namespace DiceLaw

namespace Formula

/-! ## Letters -/

section Letters

variable {letters letters' : List Char} {A U : Formula}

/-- An operand behind a minus sign, as the factors of a product. -/
theorem Reads.signedFactors (h : Reads .unit letters U) :
    ReadsSeries .product ('-' :: letters) [.constant (-1), U] := by
  have hpart : Reads Joint.product.member letters U := h.widen_to rfl rfl (by decide)
  exact (ReadsSeries.lone hpart).signed

/-- An operand behind a minus sign, in brackets. -/
theorem Reads.bracketedNegative (h : Reads .unit letters U) :
    Reads .unit ('(' :: '-' :: letters ++ [')']) (.join .product (.constant (-1)) [U]) :=
  h.signedFactors.reads.brackets rfl

/-- Behind an operator, the brackets hold what is negated. -/
theorem Reads.operator_bracketed (joint : Joint) (hA : Reads .unit letters A)
    (hU : Reads .unit letters' U) :
    Reads (.series joint) (letters ++ (joint.separator ++ ('(' :: '-' :: letters' ++ [')'])))
      (.join joint A [.join .product (.constant (-1)) [U]]) :=
  (hA.widen_member joint).joined joint (hU.bracketedNegative.widen_member joint)

/-- Behind an operator that binds no tighter than a multiplication, a minus sign needs no
brackets. -/
theorem Reads.operator_signed {joint : Joint} (hjoint : joint.member.rank ≤ Category.factor.rank)
    (hA : Reads .unit letters A) (hU : Reads .unit letters' U) :
    Reads (.series joint) (letters ++ (joint.separator ++ ('-' :: letters')))
      (.join joint A [.join .product (.constant (-1)) [U]]) :=
  (hA.widen_member joint).joined joint
    (hU.signedFactors.reads.widen_to joint.isArguments_member rfl hjoint)

/-- Behind a multiplication, minus one is one factor more. -/
theorem Reads.product_signed (hA : Reads .unit letters A) (hU : Reads .unit letters' U) :
    Reads .factor (letters ++ (Joint.product.separator ++ ('-' :: letters')))
      (.join .product A [.constant (-1), U]) :=
  (ReadsSeries.separated (hA.widen_member .product) hU.signedFactors).reads

/-- Behind a minus sign, a second one is minus one as one factor more. -/
theorem Reads.subtracted_signed (hA : Reads .unit letters A) (hU : Reads .unit letters' U) :
    Reads .formula (letters ++ ('-' :: '-' :: letters'))
      (.join .sum A [.join .product (.constant (-1)) [.constant (-1), U]]) := by
  have hterm : Reads Joint.sum.member ('-' :: '-' :: letters')
      (.join .product (.constant (-1)) [.constant (-1), U]) :=
    hU.signedFactors.signed.reads.widen_to rfl rfl (by decide)
  exact (ReadsSeries.more (hA.widen_member .sum) (.lone hterm)).reads

theorem Reads.subtracted_bracketed (hA : Reads .unit letters A) (hU : Reads .unit letters' U) :
    Reads .formula (letters ++ ('-' :: ('(' :: '-' :: letters' ++ [')'])))
      (.join .sum A [.join .product (.constant (-1)) [.join .product (.constant (-1)) [U]]]) := by
  have hterm : Reads Joint.sum.member ('-' :: ('(' :: '-' :: letters' ++ [')']))
      (.join .product (.constant (-1)) [.join .product (.constant (-1)) [U]]) :=
    hU.bracketedNegative.signedFactors.reads.widen_to rfl rfl (by decide)
  exact (ReadsSeries.more (hA.widen_member .sum) (.lone hterm)).reads

/-- Behind a sampling, minus one is sampled, and the operand is a factor. -/
theorem Reads.sampled_signed (hA : Reads .unit letters A) (hU : Reads .unit letters' U) :
    Reads .factor (letters ++ (Joint.sampleSum.separator ++ ('-' :: letters')))
      (.join .product (.join .sampleSum A [.constant (-1)]) [U]) := by
  have hmarks : Token.Marks 'x' .sampleSum := by decide
  obtain ⟨hne, symbols, g, hwrites, hderives, hf⟩ := hA
  obtain ⟨-, d, hwrites', hfs⟩ := ReadsSeries.lone (hU.widen_member .product)
  let sign : Derivation (.series .sampleSum) := .lone (.constant (-1))
  have hunit : Derives Joint.sampleSum.member symbols g := hderives
  have hatom : Derives Joint.product.member (symbols ++ [.marker .sampleSum, .constant (-1)])
      (.node .sampleSum [g, .leaf (.constant (-1))]) :=
    hunit.more sign
  refine ⟨by simp [hne], _, _, ?_, hatom.more d, ?_⟩
  · intro rest hrest
    have hcount := hwrites ('x' :: '-' :: (letters' ++ rest)) (Follows.cons (by decide) _)
    rw [Symbol.scan_marker hmarks, Symbol.scan_minus, hwrites' rest hrest, Except.map_comp,
      Except.map_comp, Except.map_comp] at hcount
    simpa [Joint.separator, Joint.marker] using hcount
  · simp [ofGrouping, ofGroupings, hf, hfs, join?, bind, Except.bind, pure, Except.pure]

end Letters

/-! ## Texts -/

/-- A text that is an operand by itself: a number, a die, or something in brackets, with no plus
sign behind it. -/
structure UnitText (text : String) (f : Formula) : Prop where
  read : ∃ d : Derivation .unit, Symbol.ofText text = .ok d.symbols ∧ ofGrouping d.grouping = .ok f
  ending : Text.lastMark? text ≠ some '+'

theorem UnitText.exists_reads {text : String} {f : Formula} (h : UnitText text f) :
    ∃ letters, SiftsTo text.toList letters ∧ Reads .unit letters f := by
  obtain ⟨d, hsymbols, hf⟩ := h.read
  obtain ⟨letters, hletters, hne, hwrites⟩ := Symbol.exists_writes_of_ofText d hsymbols h.ending
  exact ⟨letters, hletters, hne, _, _, hwrites, ⟨d, rfl, rfl⟩, hf⟩

section Texts

variable {a u o : String} {letters letters' : List Char} {c : Category} {f A U : Formula}

/-- A minus sign behind an operator. -/
theorem Reads.ofText_signed (hc : c.isArguments = false) (ho : SiftsTo o.toList o.toList)
    (ha : SiftsTo a.toList letters) (hu : SiftsTo u.toList letters')
    (h : Reads c (letters ++ (o.toList ++ '-' :: letters')) f) :
    ofText (a ++ o ++ "-" ++ u) = .ok f := by
  refine h.ofText_eq hc ?_
  have htext : (a ++ o ++ "-" ++ u).toList = a.toList ++ (o.toList ++ '-' :: u.toList) := by
    simp
  rw [htext]
  exact ha.append (ho.append hu.signed)

/-- A minus sign in brackets behind an operator. -/
theorem Reads.ofText_bracketed (hc : c.isArguments = false) (ho : SiftsTo o.toList o.toList)
    (ha : SiftsTo a.toList letters) (hu : SiftsTo u.toList letters')
    (h : Reads c (letters ++ (o.toList ++ ('(' :: '-' :: letters' ++ [')']))) f) :
    ofText (a ++ o ++ "(-" ++ u ++ ")") = .ok f := by
  refine h.ofText_eq hc ?_
  have htext : (a ++ o ++ "(-" ++ u ++ ")").toList
      = a.toList ++ (o.toList ++ ('(' :: '-' :: u.toList ++ [')'])) := by
    simp
  rw [htext]
  exact ha.append (ho.append hu.signed.brackets)

/-- Behind an addition, a subtraction, a multiplication or a division, a minus sign negates the
operand that it stands in front of: the law is that of the negated operand in brackets, or fails as
that does. Behind a sampling, the sign is sampled and the operand is a factor; the law is another
one exactly where two samples or more of something uncertain may be asked for, and the failure is
another one exactly where a count is below zero and the operand fails for some other cause. -/
theorem ofText_signed_operand (ha : UnitText a A) (hu : UnitText u U) :
    (∀ o ∈ ["+", "-", "*", "/"], ∃ f g, ofText (a ++ o ++ "-" ++ u) = .ok f ∧
      ofText (a ++ o ++ "(-" ++ u ++ ")") = .ok g ∧ f.law = g.law) ∧
    ∃ f g, ofText (a ++ "x" ++ "-" ++ u) = .ok f ∧ ofText (a ++ "x" ++ "(-" ++ u ++ ")") = .ok g ∧
      f = .join .product (.join .sampleSum A [.constant (-1)]) [U] ∧
      g = .join .sampleSum A [.join .product (.constant (-1)) [U]] ∧
      (f.law ≠ g.law ↔ ∃ s, A.law = .ok s ∧
        (((∀ n ∈ s.outcomes, 0 ≤ n) ∧ (∃ n ∈ s.outcomes, 2 ≤ n) ∧
            ∃ t, U.law = .ok t ∧ ∃ k ∈ t.outcomes, ∃ l ∈ t.outcomes, k ≠ l) ∨
          ∃ m ∈ s.outcomes, m < 0 ∧ (∀ n ∈ s.outcomes, m ≤ n) ∧
            ∃ e, U.law = .error e ∧ e ≠ .negativeCount m)) := by
  obtain ⟨letters, hletters, hA⟩ := ha.exists_reads
  obtain ⟨letters', hletters', hU⟩ := hu.exists_reads
  have hall : ∀ o ∈ ["+", "-", "*", "/", "x"], SiftsTo o.toList o.toList := by
    simp only [List.forall_mem_cons]
    exact ⟨.separator .sum, .signed rfl, .separator .product, .separator .quotient,
      .separator .sampleSum, nofun⟩
  constructor
  · intro o ho
    have hletter := hall o (List.mem_append_left ["x"] ho)
    have hsum : Joint.sum.member.rank ≤ Category.factor.rank := by decide
    have hquotient : Joint.quotient.member.rank ≤ Category.factor.rank := by decide
    let negative : Formula := .join .product (.constant (-1)) [U]
    simp only [List.mem_cons, List.not_mem_nil, or_false] at ho
    rcases ho with rfl | rfl | rfl | rfl
    · refine ⟨.join .sum A [negative], .join .sum A [negative], ?_, ?_, rfl⟩
      · exact (hA.operator_signed hsum hU).ofText_signed rfl hletter hletters hletters'
      · exact (hA.operator_bracketed .sum hU).ofText_bracketed rfl hletter hletters hletters'
    · refine ⟨_, _, ?_, ?_, law_join_congr .sum (law_minus_regroup (.constant (-1)) U) A⟩
      · exact (hA.subtracted_signed hU).ofText_signed rfl hletter hletters hletters'
      · exact (hA.subtracted_bracketed hU).ofText_bracketed rfl hletter hletters hletters'
    · refine ⟨_, _, ?_, ?_, law_minus_regroup A U⟩
      · exact (hA.product_signed hU).ofText_signed rfl hletter hletters hletters'
      · exact (hA.operator_bracketed .product hU).ofText_bracketed rfl hletter hletters hletters'
    · refine ⟨.join .quotient A [negative], .join .quotient A [negative], ?_, ?_, rfl⟩
      · exact (hA.operator_signed hquotient hU).ofText_signed rfl hletter hletters hletters'
      · exact (hA.operator_bracketed .quotient hU).ofText_bracketed rfl hletter hletters hletters'
  · have hletter := hall "x" (by simp)
    refine ⟨_, _, ?_, ?_, rfl, rfl, law_sampled_minus_ne_iff A U⟩
    · exact (hA.sampled_signed hU).ofText_signed rfl hletter hletters hletters'
    · exact (hA.operator_bracketed .sampleSum hU).ofText_bracketed rfl hletter hletters hletters'

/-- In `2x-d6` one die is doubled, and in `2x(-d6)` two dice are rolled. -/
theorem ofText_signed_operand_of_two_dice :
    UnitText "2" (.constant 2) ∧ UnitText "d6" (.die ⟨1, 6, by decide⟩) ∧
      ∃ f g, ofText "2x-d6" = .ok f ∧ ofText "2x(-d6)" = .ok g ∧ f.law ≠ g.law := by
  have htwo : UnitText "2" (.constant 2) := ⟨⟨.constant 2, rfl, rfl⟩, by decide⟩
  have hdie : UnitText "d6" (.die ⟨1, 6, by decide⟩) := ⟨⟨.die 1 6, rfl, rfl⟩, by decide⟩
  obtain ⟨-, f, g, hf, hg, -, -, hiff⟩ := ofText_signed_operand htwo hdie
  refine ⟨htwo, hdie, f, g, hf, hg, hiff.2 ⟨.sure 2, rfl, .inl ⟨by decide, ⟨2, by decide⟩, ?_⟩⟩⟩
  exact ⟨Die.law ⟨1, 6, by decide⟩, rfl, 1, by decide, 6, by decide, by decide⟩

end Texts

end Formula

end DiceLaw
