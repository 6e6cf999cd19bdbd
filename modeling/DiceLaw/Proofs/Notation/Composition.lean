import DiceLaw.Proofs.Notation.Context

/-!
# Putting texts together

Texts that are read as formulas can be put together, each in brackets of its own: with an operator
between them, side by side, behind a minus sign, or as the arguments of a selection. The result is
read as the formulas put together. Blanks, capitals, signs and selections inside the texts make no
difference; only a plus sign at the end of a text does, since alone it is dropped.

## Main definitions

* `Formula.Phrase`: a text that is read as a formula and does not end with a plus sign

## Main results

* `Formula.ofText_operator`, `Formula.ofText_juxtaposed`, `Formula.ofText_negated`,
  `Formula.ofText_selection`: each way of putting texts together
* `Formula.ofText_compositional`: all of them
-/

namespace DiceLaw

/-- A closing bracket in front of an opening one is followed by the marker of a sampling. -/
theorem Symbol.scan_closing_opening {afterOperand : Bool} (letters : List Char) :
    scan afterOperand (')' :: '(' :: letters)
      = (scan false ('(' :: letters)).map
          ([.marker .closing, .marker .sampleSum] ++ ·) := by
  have htokens : Token.ofLetters ('(' :: letters) = .marker .opening :: Token.ofLetters letters :=
    Token.ofLetters_letter (by decide) (by decide) letters
  rw [scan, Token.ofLetters_letter (by decide) (by decide), scan, scanTokens, scanTokens, htokens]
  show (ofTokens (Token.explicit (.marker .closing :: .marker .opening :: _))).map _ = _
  rw [Token.explicit_cons_cons, if_pos (by rfl), ofTokens, ofTokens, Except.map_comp,
    Except.map_comp, Except.map_comp]
  rfl

/-- Letters in brackets, side by side with others, are scanned with the marker of a sampling in
between. -/
theorem Symbol.Writes.juxtaposed {letters letters' : List Char} {symbols symbols' : List Symbol}
    (h : Writes letters symbols) (h' : Writes letters' symbols') :
    Writes (('(' :: letters ++ [')']) ++ ('(' :: letters' ++ [')']))
      ((.marker .opening :: symbols ++ [.marker .closing]) ++
        .marker .sampleSum :: (.marker .opening :: symbols' ++ [.marker .closing])) := by
  have hmarks : Token.Marks '(' .opening := by decide
  intro rest hrest
  have hsecond := h'.brackets rest hrest
  -- the first brackets end in front of the second ones, which are scanned as always
  have hfirst : scan false ('(' :: (letters ++ ')' :: ('(' :: letters' ++ [')'] ++ rest)))
      = (scan false ('(' :: letters' ++ [')'] ++ rest)).map
          ((.marker .opening :: symbols ++ [.marker .closing, .marker .sampleSum]) ++ ·) := by
    rw [scan_marker hmarks, h _ (Follows.cons (by decide) _), List.cons_append, List.cons_append,
      scan_closing_opening, Except.map_comp, Except.map_comp]
    simp
  rw [hsecond, Except.map_comp] at hfirst
  simpa using hfirst

namespace Formula

/-! ## Ways of putting letters together -/

section Letters

variable {c c' : Category} {letters letters' : List Char} {f f' : Formula}

/-- Two formulas in brackets with the operator of a joint between them. -/
theorem Reads.operator (joint : Joint) (hc : c.isArguments = false)
    (hc' : c'.isArguments = false) (h : Reads c letters f) (h' : Reads c' letters' f') :
    Reads (.series joint)
      (('(' :: letters ++ [')']) ++ joint.separator ++ ('(' :: letters' ++ [')']))
      (.join joint f [f']) := by
  have hfirst : Reads joint.member ('(' :: letters ++ [')']) f :=
    (h.brackets hc).widen_member joint
  have hsecond : Reads joint.member ('(' :: letters' ++ [')']) f' :=
    (h'.brackets hc').widen_member joint
  rw [List.append_assoc]
  exact hfirst.joined joint hsecond

/-- Two formulas in brackets side by side. -/
theorem Reads.juxtaposed (hc : c.isArguments = false) (hc' : c'.isArguments = false)
    (h : Reads c letters f) (h' : Reads c' letters' f') :
    Reads .atom (('(' :: letters ++ [')']) ++ ('(' :: letters' ++ [')']))
      (.join .sampleSum f [f']) := by
  obtain ⟨-, symbols, g, hwrites, hderives, hf⟩ := h
  obtain ⟨-, symbols', g', hwrites', hderives', hf'⟩ := h'
  obtain ⟨d, rfl, rfl⟩ := hderives.to_formula hc
  obtain ⟨d', rfl, rfl⟩ := hderives'.to_formula hc'
  have hseries : ReadsSeries .sampleSum (('(' :: letters ++ [')']) ++ ('(' :: letters' ++ [')']))
      [f, f'] := by
    refine ⟨by simp, .more (.brackets d) (.lone (.brackets d')), hwrites.juxtaposed hwrites', ?_⟩
    simp [Derivation.groupings, Derivation.grouping, ofGroupings, hf, hf', bind, Except.bind, pure,
      Except.pure]
  exact hseries.reads

/-- A formula in brackets behind a minus sign. -/
theorem Reads.signed (hc : c.isArguments = false) (h : Reads c letters f) :
    Reads .factor ('-' :: ('(' :: letters ++ [')'])) (.join .product (.constant (-1)) [f]) := by
  have hpart : Reads Joint.product.member ('(' :: letters ++ [')']) f :=
    (h.brackets hc).widen_to rfl rfl (by decide)
  exact (ReadsSeries.lone hpart).negated

end Letters

/-! ## Ways of putting texts together -/

/-- A text that may be put into others: it is read as the formula, and its last character that is
not blank is no plus sign. -/
structure Phrase (text : String) (f : Formula) : Prop where
  read : ofText text = .ok f
  ending : Text.lastMark? text ≠ some '+'

section Texts

variable {a b text : String} {A B : Formula} {rest : List (String × Formula)}

theorem Phrase.exists_reads (h : Phrase a A) :
    ∃ letters, SiftsTo a.toList letters ∧ Reads .formula letters A :=
  exists_reads_of_ofText h.read h.ending

theorem ofText_operator (joint : Joint) (hj : joint.isSelection = false) (ha : Phrase a A)
    (hb : Phrase b B) (htext : text.toList
      = ('(' :: a.toList ++ [')']) ++ joint.separator ++ ('(' :: b.toList ++ [')'])) :
    ofText text = .ok (.join joint A [B]) := by
  obtain ⟨letters, hletters, hA⟩ := ha.exists_reads
  obtain ⟨letters', hletters', hB⟩ := hb.exists_reads
  have hseries : (Category.series joint).isArguments = false := hj
  refine (hA.operator joint rfl rfl hB).ofText_eq hseries ?_
  rw [htext]
  exact (hletters.brackets.append (.separator joint)).append hletters'.brackets

theorem ofText_subtracted (ha : Phrase a A) (hb : Phrase b B) (htext : text.toList
      = ('(' :: a.toList ++ [')']) ++ '-' :: ('(' :: b.toList ++ [')'])) :
    ofText text = .ok (.join .sum A [.join .product (.constant (-1)) [B]]) := by
  obtain ⟨letters, hletters, hA⟩ := ha.exists_reads
  obtain ⟨letters', hletters', hB⟩ := hb.exists_reads
  have hfirst : Reads Joint.sum.member ('(' :: letters ++ [')']) A :=
    (hA.brackets rfl).widen_to rfl rfl (by decide)
  have hsecond : Reads Joint.sum.member ('-' :: ('(' :: letters' ++ [')']))
      (.join .product (.constant (-1)) [B]) :=
    (hB.signed rfl).widen_to rfl rfl (by decide)
  -- the minus sign takes the place of the operator
  refine (ReadsSeries.more hfirst (.lone hsecond)).reads.ofText_eq rfl ?_
  rw [htext]
  exact hletters.brackets.append hletters'.brackets.signed

theorem ofText_juxtaposed (ha : Phrase a A) (hb : Phrase b B) (htext : text.toList
      = ('(' :: a.toList ++ [')']) ++ ('(' :: b.toList ++ [')'])) :
    ofText text = .ok (.join .sampleSum A [B]) := by
  obtain ⟨letters, hletters, hA⟩ := ha.exists_reads
  obtain ⟨letters', hletters', hB⟩ := hb.exists_reads
  refine (hA.juxtaposed rfl rfl hB).ofText_eq rfl ?_
  rw [htext]
  exact hletters.brackets.append hletters'.brackets

theorem ofText_negated (ha : Phrase a A) (htext : text.toList = '-' :: ('(' :: a.toList ++ [')'])) :
    ofText text = .ok (.join .product (.constant (-1)) [A]) := by
  obtain ⟨letters, hletters, hA⟩ := ha.exists_reads
  refine (hA.signed rfl).ofText_eq rfl ?_
  rw [htext]
  exact hletters.brackets.signed

/-- Texts with separators between them are read as arguments. -/
theorem Phrase.exists_readsSeries {joint : Joint} (hj : joint.isSelection = true)
    (ha : Phrase a A) (hrest : ∀ part ∈ rest, Phrase part.1 part.2) :
    ∃ letters, SiftsTo
        (joint.separator.intercalate (a.toList :: rest.map fun part => part.1.toList)) letters ∧
      ReadsSeries joint letters (A :: rest.map Prod.snd) := by
  have hmember : joint.member = .formula := by
    cases joint <;> first | rfl | cases hj
  induction rest generalizing a A with
  | nil =>
    obtain ⟨letters, hletters, hA⟩ := ha.exists_reads
    rw [← hmember] at hA
    exact ⟨letters, by simpa using hletters, .lone hA⟩
  | cons part rest ih =>
    obtain ⟨letters, hletters, hA⟩ := ha.exists_reads
    rw [← hmember] at hA
    obtain ⟨tail, htail, hothers⟩ := ih (hrest part List.mem_cons_self) fun p hp =>
      hrest p (List.mem_cons_of_mem _ hp)
    refine ⟨letters ++ (joint.separator ++ tail), ?_, .separated hA hothers⟩
    rw [List.map_cons, List.intercalate_cons_cons, List.append_assoc]
    exact hletters.append ((SiftsTo.separator joint).append htail)

/-- Texts with commas between them, in the brackets of a selection. -/
theorem ofText_selection {joint : Joint} (hj : joint.isSelection = true) {opening : List Char}
    {m : Marker}
    (hopening : ∀ cs, Symbol.scan false (opening ++ cs)
      = (Symbol.scan false cs).map (.marker m :: ·))
    (hletters : ∀ c ∈ opening, c ∈ formulaLetters)
    (hunit : ∀ d : Derivation (.series joint),
      Derives .unit (.marker m :: d.symbols ++ [.marker .closing]) d.grouping)
    (ha : Phrase a A) (hrest : ∀ part ∈ rest, Phrase part.1 part.2)
    (htext : text.toList = opening ++
      joint.separator.intercalate (a.toList :: rest.map fun part => part.1.toList) ++ [')']) :
    ofText text = .ok (.join joint A (rest.map Prod.snd)) := by
  obtain ⟨letters, hsifts, hseries⟩ := ha.exists_readsSeries hj hrest
  refine (hseries.selection hj hopening hunit).ofText_eq rfl ?_
  rw [htext]
  exact ((SiftsTo.of_letters hletters).append hsifts).closed

/-- Texts are put together as formulas are: whatever the texts look like, nothing inside of them
meets what is outside. -/
theorem ofText_compositional (ha : Phrase a A) (hb : Phrase b B)
    (hrest : ∀ part ∈ rest, Phrase part.1 part.2) :
    ofText ("(" ++ a ++ ")+(" ++ b ++ ")") = .ok (.join .sum A [B]) ∧
    ofText ("(" ++ a ++ ")-(" ++ b ++ ")")
      = .ok (.join .sum A [.join .product (.constant (-1)) [B]]) ∧
    ofText ("(" ++ a ++ ")*(" ++ b ++ ")") = .ok (.join .product A [B]) ∧
    ofText ("(" ++ a ++ ")/(" ++ b ++ ")") = .ok (.join .quotient A [B]) ∧
    ofText ("(" ++ a ++ ")x(" ++ b ++ ")") = .ok (.join .sampleSum A [B]) ∧
    ofText ("(" ++ a ++ ")(" ++ b ++ ")") = .ok (.join .sampleSum A [B]) ∧
    ofText ("-(" ++ a ++ ")") = .ok (.join .product (.constant (-1)) [A]) ∧
    ofText ("max(" ++ ",".intercalate (a :: rest.map Prod.fst) ++ ")")
      = .ok (.join .max A (rest.map Prod.snd)) ∧
    ofText ("min(" ++ ",".intercalate (a :: rest.map Prod.fst) ++ ")")
      = .ok (.join .min A (rest.map Prod.snd)) := by
  refine ⟨?_, ?_, ?_, ?_, ?_, ?_, ?_, ?_, ?_⟩
  · exact ofText_operator .sum rfl ha hb (by simp [Joint.separator])
  · exact ofText_subtracted ha hb (by simp)
  · exact ofText_operator .product rfl ha hb (by simp [Joint.separator])
  · exact ofText_operator .quotient rfl ha hb (by simp [Joint.separator])
  · exact ofText_operator .sampleSum rfl ha hb (by simp [Joint.separator])
  · exact ofText_juxtaposed ha hb (by simp)
  · exact ofText_negated ha (by simp)
  · exact ofText_selection rfl (fun _ => Symbol.scan_maxOpening)
      (mem_formulaLetters_of_all rfl) (fun d => ⟨.maximum d, rfl, rfl⟩) ha hrest
      (by simp [Joint.separator, Function.comp_def])
  · exact ofText_selection rfl (fun _ => Symbol.scan_minOpening)
      (mem_formulaLetters_of_all rfl) (fun d => ⟨.minimum d, rfl, rfl⟩) ha hrest
      (by simp [Joint.separator, Function.comp_def])

/-- A die between blanks and a number may be put together. -/
theorem ofText_compositional_of_blanks :
    Phrase " D6 " (.die ⟨1, 6, by decide⟩) ∧ Phrase "2" (.constant 2) ∧
      ofText ("(" ++ " D6 " ++ ")-(" ++ "2" ++ ")")
        = .ok (.join .sum (.die ⟨1, 6, by decide⟩)
            [.join .product (.constant (-1)) [.constant 2]]) ∧
      ofText ("max(" ++ ",".intercalate [" D6 ", "2"] ++ ")")
        = .ok (.join .max (.die ⟨1, 6, by decide⟩) [.constant 2]) := by
  have hdie : Phrase " D6 " (.die ⟨1, 6, by decide⟩) :=
    ⟨ofText_of_derivation rfl (Derivation.die 1 6) rfl, by decide⟩
  have htwo : Phrase "2" (.constant 2) :=
    ⟨ofText_of_derivation rfl (Derivation.constant 2) rfl, by decide⟩
  have hrest : ∀ part ∈ [("2", Formula.constant 2)], Phrase part.1 part.2 := by
    simpa using htwo
  obtain ⟨-, hminus, -, -, -, -, -, hmax, -⟩ := ofText_compositional hdie htwo hrest
  exact ⟨hdie, htwo, hminus, hmax⟩

end Texts

end Formula

end DiceLaw
