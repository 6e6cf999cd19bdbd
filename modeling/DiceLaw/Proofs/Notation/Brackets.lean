import DiceLaw.Proofs.Notation.Context

/-!
# Brackets around a text

A text in brackets is read as it is without them, with one exception. A plus sign with no operand
in front of it is dropped wherever it stands; one with no operand behind it is dropped only at the
very end. Brackets put something behind the end of a text: there a plus sign stays, and an operand
is missing behind it.

## Main results

* `Symbol.scan_plus_closing`: a plus sign in front of a closing bracket stays
* `Derivation.ofSymbols_brackets_add`: a formula and an addition in brackets have no grouping
* `Formula.ofText_brackets`: when brackets change nothing, and what they change
-/

namespace DiceLaw

open Level

/-! ## A plus sign at the end -/

namespace Token

/-- A plus sign is a token of its own, whatever letters are in front of it. -/
theorem ofLetters_append_plus (letters rest : List Char) :
    ofLetters (letters ++ '+' :: rest) = ofLetters letters ++ ofLetters ('+' :: rest) := by
  have hwords : ∀ pair ∈ wordPairs, pair.2 ≠ '+' := by decide
  refine ofLetters_append_of_apart (fun k _ l hl hpair => ?_) fun digits => ?_
  · exact hwords _ hpair (Option.some.inj hl).symm
  · rw [ofLetters_letter (by decide) (by decide)]
    simp [ofLetter]

end Token

namespace Symbol

/-- In front of a marker, tokens are read as they are alone. -/
theorem ofTokens_append_marker (tokens : List Token) (m : Marker) (us : List Token) :
    ofTokens (tokens ++ .marker m :: us)
      = ofTokens tokens >>= fun front => (ofTokens us).map (front ++ .marker m :: ·) := by
  induction tokens using ofTokens.induct with
  | case1 =>
    rw [List.nil_append, ofTokens_marker]
    rfl
  | case2 digits rest hsize =>
    rw [List.cons_append, List.cons_append, ofTokens, ofTokens, if_pos hsize, if_pos hsize]
    rfl
  | case3 digits rest hsize ih =>
    rw [List.cons_append, List.cons_append, ofTokens, ofTokens, if_neg hsize, if_neg hsize, ih]
    cases ofTokens rest <;> cases ofTokens us <;> rfl
  | case4 rest hrest =>
    rw [List.cons_append, ofTokens, ofTokens]
    · rfl
    · exact hrest
    · -- a marker is no count of sides either
      intro digits tail htail
      cases rest with
      | nil => cases htail
      | cons t rest =>
        obtain ⟨rfl, -⟩ := List.cons.inj htail
        exact hrest digits rest rfl
  | case5 digits rest ih =>
    rw [List.cons_append, ofTokens, ofTokens, ih]
    cases ofTokens rest <;> cases ofTokens us <;> rfl
  | case6 rest ih =>
    rw [List.cons_append, ofTokens, ofTokens, ih]
    cases ofTokens rest <;> cases ofTokens us <;> rfl
  | case7 k rest ih =>
    rw [List.cons_append, ofTokens_marker, ofTokens_marker, ih]
    cases ofTokens rest <;> cases ofTokens us <;> rfl
  | case8 letter rest => rfl

/-- Behind what is scanned as symbols of which the last one ends an operand, a plus sign is dropped
at the end, and stays in front of a closing bracket. -/
theorem scan_plus_closing {letters : List Char} {symbols : List Symbol}
    (h : scan false (letters ++ ['+']) = .ok symbols)
    (hends : ∃ s ∈ symbols.getLast?, s.endsOperand = true) :
    scan false (letters ++ ['+', ')']) = .ok (symbols ++ [.marker .add, .marker .closing]) := by
  have hplus : Token.ofLetters ['+'] = [.marker .add] := rfl
  have hclosing : Token.ofLetters ['+', ')'] = [.marker .add, .marker .closing] := rfl
  have hfollows : ∀ us, ∀ u ∈ (Token.marker .add :: us).head?, u.follows = true := by
    rintro us _ ⟨⟩
    rfl
  rw [scan, scanTokens, Token.ofLetters_append_plus, hplus, Token.explicit_append (hfollows _),
    Token.explicit_singleton, ofTokens_append_marker] at h
  obtain ⟨raw, hraw, hdrop⟩ := Except.map_eq_ok.1 h
  obtain ⟨front, hfront, hraw⟩ := Except.bind_eq_ok.1 hraw
  obtain ⟨back, hback, rfl⟩ := Except.map_eq_ok.1 hraw
  obtain rfl := Except.ok.inj hback
  obtain ⟨kept, ends, hkept, -, hlast⟩ := exists_kept front false
  -- alone the addition is dropped, so that the symbols are those kept in front of it
  obtain rfl : kept = symbols := by
    rw [← hdrop, hkept _ (List.cons_ne_nil _ _)]
    simp [dropEmptyAddsAfter]
  obtain ⟨s, hs, hsends⟩ := hends
  obtain rfl : ends = true := hlast s hs hsends
  -- in front of the bracket it stands between an operand and something else
  rw [scan, scanTokens, Token.ofLetters_append_plus, hclosing, Token.explicit_append (hfollows _)]
  show (ofTokens (_ ++ .marker .add :: [.marker .closing])).map _ = _
  rw [ofTokens_append_marker, hfront]
  show Except.ok (dropEmptyAddsAfter false (front ++ [.marker .add, .marker .closing])) = _
  rw [hkept _ (List.cons_ne_nil _ _)]
  rfl

end Symbol

/-- A text that ends with a plus sign has letters that do. -/
theorem SiftsTo.exists_of_lastMark? {text : String} {letters : List Char}
    (h : SiftsTo text.toList letters) (hplus : Text.lastMark? text = some '+') :
    ∃ front, letters = front ++ ['+'] := by
  obtain ⟨marks, hmarks⟩ := List.getLast?_eq_some_iff.1 hplus
  have hlower : Text.lowerChar '+' = ['+'] := (isKept_of_mem_formulaLetters '+' (by decide)).2
  refine ⟨marks.flatMap Text.lowerChar, ?_⟩
  rw [h.eq_marks, hmarks, List.flatMap_append, List.flatMap_singleton, hlower]

/-! ## Grouping -/

namespace Derivation

/-- A marker behind a series is followed by an empty segment. -/
theorem segmentsFrom_append_marker : ∀ {joint : Joint} (d : Derivation (.series joint)),
    ∃ first others, segmentsFrom joint.marker 0 (d.symbols ++ [.marker joint.marker])
      = .ok (first, others ++ [[]])
  | joint, .lone only => by
    refine ⟨only.symbols, [], ?_⟩
    rw [symbols, segmentsFrom_append only.path_member List.mem_cons_self]
    simp [segmentsFrom, bind, Except.bind, pure, Except.pure, Except.map]
  | joint, .more first rest => by
    obtain ⟨next, others, hrest⟩ := segmentsFrom_append_marker rest
    refine ⟨first.symbols, next :: others, ?_⟩
    rw [symbols, List.append_assoc, segmentsFrom_append first.path_member List.mem_cons_self]
    simp [segmentsFrom, hrest, bind, Except.bind, pure, Except.pure, Except.map]

/-- So no cut is made there. -/
theorem split_append_marker {joint : Joint} (d : Derivation (.series joint)) :
    Level.split joint.marker (d.symbols ++ [.marker joint.marker]) = .error .operandMissing := by
  obtain ⟨first, others, hsegments⟩ := d.segmentsFrom_append_marker
  rw [Level.split, hsegments]
  simp [bind, Except.bind]

theorem contains_append_marker {joint : Joint} (d : Derivation (.series joint)) :
    Level.contains joint.marker (d.symbols ++ [.marker joint.marker]) = .ok true := by
  cases d with
  | lone only => exact only.path_member.contains_eq_true []
  | more first rest =>
    rw [symbols, List.append_assoc]
    exact first.path_member.contains_eq_true _

/-- An operand is missing behind the last addition. -/
theorem ofSymbols_append_add (d : Derivation .formula) :
    Grouping.ofSymbols (d.symbols ++ [.marker .add]) = .error .operandMissing := by
  have hlen : 2 ≤ (d.symbols ++ [Symbol.marker .add]).length := by
    have := List.length_pos_iff.2 d.symbols_ne_nil
    rw [List.length_append, List.length_singleton]
    omega
  have hoccurs : Level.contains .add (d.symbols ++ [.marker .add]) = .ok true :=
    d.contains_append_marker
  have hsplit : Level.split .add (d.symbols ++ [.marker .add]) = .error .operandMissing :=
    d.split_append_marker
  -- nothing is looser than an addition
  have hfirst : firstOccurring (d.symbols ++ [.marker .add]) precedence
      = .ok (some (.add, .sum)) := by
    rw [precedence, firstOccurring, hoccurs]
    rfl
  rw [Grouping.ofSymbols_eq_bind, outline_of_two_le hlen, hfirst]
  simp only [Except.bind, hsplit]
  rfl

/-- So it is in brackets. -/
theorem ofSymbols_brackets_add (d : Derivation .formula) :
    Grouping.ofSymbols (.marker .opening :: (d.symbols ++ [.marker .add]) ++ [.marker .closing])
      = .error .operandMissing := by
  have hadd : Path [] 0 [.marker Joint.sum.marker] 0 := Joint.path_marker (by simp)
  have hpath : Path [] 0 (d.symbols ++ [.marker .add]) 0 := d.path_back.append hadd
  rw [Grouping.ofSymbols_of_outline (outline_enclosed rfl hpath)]
  exact d.ofSymbols_append_add

end Derivation

namespace Formula

/-- Brackets around a text that does not end with a plus sign change nothing. -/
theorem ofText_brackets_of_ne_plus {text : String} {f : Formula} (h : ofText text = .ok f)
    (hplus : Text.lastMark? text ≠ some '+') : ofText ("(" ++ text ++ ")") = .ok f := by
  obtain ⟨letters, hletters, hreads⟩ := exists_reads_of_ofText h hplus
  have hsifted : SiftsTo ("(" ++ text ++ ")").toList ('(' :: letters ++ [')']) := by
    simpa using hletters.brackets
  exact (hreads.brackets rfl).ofText_eq rfl hsifted

/-- In brackets around a text that ends with a plus sign, an operand is missing behind it. -/
theorem ofText_brackets_of_plus {text : String} {f : Formula} (h : ofText text = .ok f)
    (hplus : Text.lastMark? text = some '+') :
    ofText ("(" ++ text ++ ")") = .error (.reading .operandMissing) := by
  obtain ⟨d, hsymbols, -⟩ := exists_derivation_of_ofText h
  obtain ⟨letters, hletters, hscan⟩ := Symbol.exists_siftsTo_of_ofText hsymbols
  obtain ⟨front, rfl⟩ := hletters.exists_of_lastMark? hplus
  -- the symbols of the text, the plus sign, and brackets around them
  have hbrackets : Symbol.ofText ("(" ++ text ++ ")")
      = .ok (.marker .opening :: (d.symbols ++ [.marker .add]) ++ [.marker .closing]) := by
    have hmarks : Token.Marks '(' .opening := by decide
    have hsifted : SiftsTo ("(" ++ text ++ ")").toList ('(' :: (front ++ ['+']) ++ [')']) := by
      simpa using hletters.brackets
    rw [Symbol.ofText_of_sifted hsifted, List.cons_append, List.append_assoc,
      Symbol.scan_marker hmarks]
    show Except.map _ (Symbol.scan false (front ++ ['+', ')'])) = _
    rw [Symbol.scan_plus_closing hscan d.exists_last]
    simp [Except.map]
  rw [ofText, hbrackets]
  show ofSymbols _ = _
  rw [ofSymbols, d.ofSymbols_brackets_add]

/-- Brackets around a text change nothing, unless the last character that is not blank is a plus
sign: this is dropped without the brackets, and lacks an operand within them. -/
theorem ofText_brackets {text : String} {f : Formula} (h : ofText text = .ok f) :
    (Text.lastMark? text ≠ some '+' → ofText ("(" ++ text ++ ")") = .ok f) ∧
      (Text.lastMark? text = some '+' →
        ofText ("(" ++ text ++ ")") = .error (.reading .operandMissing)) :=
  ⟨ofText_brackets_of_ne_plus h, ofText_brackets_of_plus h⟩

/-- A plus sign in front of a number makes no difference in brackets, one behind it does. -/
theorem ofText_brackets_of_three :
    ofText "+3" = .ok (.constant 3) ∧ ofText "3+" = .ok (.constant 3) ∧
      ofText ("(" ++ "+3" ++ ")") = .ok (.constant 3) ∧
      ofText ("(" ++ "3+" ++ ")") = .error (.reading .operandMissing) := by
  have hfront : ofText "+3" = .ok (.constant 3) :=
    ofText_of_derivation rfl (Derivation.constant 3) rfl
  have hback : ofText "3+" = .ok (.constant 3) :=
    ofText_of_derivation rfl (Derivation.constant 3) rfl
  exact ⟨hfront, hback, (ofText_brackets hfront).1 (by decide), (ofText_brackets hback).2 rfl⟩

end Formula

end DiceLaw
