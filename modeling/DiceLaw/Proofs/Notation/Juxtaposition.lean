import DiceLaw.Proofs.Notation.Context

/-!
# Where an operator may be left out

A sample-sum is written with an `x`, or with nothing: a number in front of a die or of brackets, and
brackets in front of others. At such a place a text is read in the same way with the `x` and
without it, whatever stands around the place, and also if it is refused. The letters on its two
sides make up no word and no numeral together, with or without an `x` between them, so that their
tokens meet; there the operator is put in, and it is put in once.

## Main definitions

* `OperatorLeftOut`: letters have such a place in between

## Main results

* `Token.explicit_of_juxtaposed`: the operator between tokens may be left out
* `Symbol.ofText_operator_left_out`: so it may between texts
-/

namespace DiceLaw

/-- A number in front of a die or a bracket, or a closing bracket in front of an opening one: the
first letters end so, and the second ones start so. -/
def OperatorLeftOut (front back : List Char) : Prop :=
  (∃ c ∈ front.getLast?, c.isDigit = true) ∧ (∃ c ∈ back.head?, c ∈ ['d', 'w', '(']) ∨
    front.getLast? = some ')' ∧ ∃ opening ∈ ["(", "max(", "min("], opening.toList <+: back

/-! ## Tokens -/

namespace Token

/-- What is put in behind a token depends only on the token that is next. -/
theorem explicit_cons_congr {t : Token} {ts us : List Token} (hhead : ts.head? = us.head?)
    (h : explicit ts = explicit us) : explicit (t :: ts) = explicit (t :: us) := by
  cases ts with
  | nil =>
    cases us with
    | nil => rfl
    | cons u us => cases hhead
  | cons next ts =>
    cases us with
    | nil => cases hhead
    | cons u us =>
      obtain rfl : next = u := Option.some.inj hhead
      rw [explicit_cons_cons, explicit_cons_cons, h]

/-- An operator that is left out is put in, and one that is there is kept. -/
theorem explicit_of_juxtaposed {ts us : List Token} {t u : Token} (ht : ts.getLast? = some t)
    (hu : us.head? = some u) (hj : juxtaposed t u = true) :
    explicit (ts ++ us) = explicit (ts ++ .marker .sampleSum :: us) := by
  obtain ⟨front, rfl⟩ := List.getLast?_eq_some_iff.1 ht
  obtain ⟨rest, rfl⟩ := List.head?_eq_some_iff.1 hu
  have hnext : juxtaposed t (.marker .sampleSum) = false := juxtaposed_of_follows rfl
  have hoperator : juxtaposed (.marker .sampleSum) u = false := juxtaposed_marker (by decide) u
  clear ht hu
  induction front with
  | nil =>
    show explicit (t :: u :: rest) = explicit (t :: .marker .sampleSum :: u :: rest)
    rw [explicit_cons_cons, if_pos hj, explicit_cons_cons, if_neg (by simp [hnext]),
      explicit_cons_cons, if_neg (by simp [hoperator])]
  | cons a front ih =>
    have hhead : (front ++ [t] ++ u :: rest).head?
        = (front ++ [t] ++ .marker .sampleSum :: u :: rest).head? := by
      cases front <;> rfl
    exact explicit_cons_congr hhead ih

end Token

namespace OperatorLeftOut

variable {front back : List Char}

/-- The first letters end with a letter of formulas, where no word goes on. -/
theorem exists_last (h : OperatorLeftOut front back) :
    ∃ c, front.getLast? = some c ∧ c ∈ formulaLetters ∧ ∀ k, (c, k) ∉ Token.wordPairs := by
  have hdigits : ∀ d, Number.digitChar d ∈ formulaLetters ∧
      ∀ pair ∈ Token.wordPairs, pair.1 ≠ Number.digitChar d := by decide
  have hclosing : ')' ∈ formulaLetters ∧ ∀ pair ∈ Token.wordPairs, pair.1 ≠ ')' := by decide
  rcases h with ⟨⟨c, hc, hdigit⟩, -⟩ | ⟨hc, -⟩
  · obtain ⟨d, hd⟩ := Number.isDigit_iff.1 hdigit
    obtain rfl := Number.digit?_eq_some hd
    exact ⟨_, hc, (hdigits d).1, fun k hpair => (hdigits d).2 _ hpair rfl⟩
  · exact ⟨_, hc, hclosing.1, fun k hpair => hclosing.2 _ hpair rfl⟩

/-- The second letters start with a letter of formulas. -/
theorem exists_head (h : OperatorLeftOut front back) :
    ∃ c, back.head? = some c ∧ c ∈ formulaLetters := by
  rcases h with ⟨-, c, hc, hstart⟩ | ⟨-, opening, hopening, rest, rfl⟩
  · have hletters : ∀ c ∈ ['d', 'w', '('], c ∈ formulaLetters := mem_formulaLetters_of_all rfl
    exact ⟨c, hc, hletters c hstart⟩
  · simp only [List.mem_cons, List.not_mem_nil, or_false] at hopening
    obtain rfl | rfl | rfl := hopening
    · exact ⟨'(', rfl, by decide⟩
    · exact ⟨'m', rfl, by decide⟩
    · exact ⟨'m', rfl, by decide⟩

/-- The tokens at such a place leave out an operator. -/
theorem exists_juxtaposed (h : OperatorLeftOut front back) :
    ∃ t u, (Token.ofLetters front).getLast? = some t ∧ (Token.ofLetters back).head? = some u ∧
      Token.juxtaposed t u = true := by
  rcases h with ⟨⟨c, hc, hdigit⟩, k, hk, hstart⟩ | ⟨hc, opening, hopening, rest, rfl⟩
  · obtain ⟨t, ht, hends⟩ := Token.exists_last_token hc
    obtain ⟨digits, rfl⟩ := hends.eq_numeral hdigit
    obtain ⟨rest, rfl⟩ := List.head?_eq_some_iff.1 hk
    simp only [List.mem_cons, List.not_mem_nil, or_false] at hstart
    obtain rfl | rfl | rfl := hstart
    · exact ⟨_, .die, ht, rfl, rfl⟩
    · exact ⟨_, .die, ht, rfl, rfl⟩
    · exact ⟨_, .marker .opening, ht, rfl, rfl⟩
  · obtain ⟨t, ht, hends⟩ := Token.exists_last_token hc
    obtain rfl := hends.eq_closing
    simp only [List.mem_cons, List.not_mem_nil, or_false] at hopening
    obtain rfl | rfl | rfl := hopening
    · exact ⟨_, .marker .opening, ht, rfl, rfl⟩
    · exact ⟨_, .marker .maxOpening, ht, rfl, rfl⟩
    · exact ⟨_, .marker .minOpening, ht, rfl, rfl⟩

/-- The letters make up the same tokens with an `x` between them, once operators are put in. -/
theorem explicit_ofLetters (h : OperatorLeftOut front back) :
    Token.explicit (Token.ofLetters (front ++ back))
      = Token.explicit (Token.ofLetters (front ++ 'x' :: back)) := by
  obtain ⟨c, hc, -, hword⟩ := h.exists_last
  obtain ⟨t, u, ht, hu, hj⟩ := h.exists_juxtaposed
  have hpairs : ∀ {rest : List Char}, ∀ k ∈ front.getLast?, ∀ l ∈ rest.head?,
      (k, l) ∉ Token.wordPairs := by
    intro rest k hk l _
    obtain rfl : k = c := Option.some.inj (hk.symm.trans hc)
    exact hword l
  have hnumeral : ∀ digits, (Token.ofLetters back).head? ≠ some (.numeral digits) := by
    intro digits hhead
    -- no operator is left out in front of a number
    obtain rfl : u = .numeral digits := Option.some.inj (hu.symm.trans hhead)
    cases t with
    | marker m => cases m <;> cases hj
    | _ => cases hj
  have hx : Token.ofLetters ('x' :: back) = .marker .sampleSum :: Token.ofLetters back :=
    Token.ofLetters_letter (by decide) (by decide) back
  rw [Token.ofLetters_append_of_apart hpairs hnumeral,
    Token.ofLetters_append_of_apart hpairs (by rw [hx]; simp), hx,
    Token.explicit_of_juxtaposed ht hu hj]

end OperatorLeftOut

/-! ## Texts -/

/-- Lower case goes through texts one by one where an operator is left out between them, and the
same holds for an `x` in between. -/
theorem Text.lowercase_of_operatorLeftOut {u v : List Char}
    (h : OperatorLeftOut (marks (lowercase u)) (marks (lowercase v))) :
    lowercase (u ++ v) = lowercase u ++ lowercase v ∧
      lowercase (u ++ 'x' :: v) = lowercase u ++ 'x' :: lowercase v := by
  obtain ⟨c, hc, hletter, -⟩ := h.exists_last
  obtain ⟨k, hk, hletter'⟩ := h.exists_head
  have hlast := isBorder_of_getLast?_marks hletter hc
  have hhead := isBorder_of_head?_marks hletter' hk
  have hx : IsBorder 'x' := by decide +kernel
  have hsingle : lowercase ('x' :: v) = 'x' :: lowercase v := by
    rw [← List.singleton_append, lowercase_append (by simpa using hx) hhead]
    rfl
  refine ⟨lowercase_append hlast hhead, ?_⟩
  rw [lowercase_append hlast (by simpa using hx), hsingle]

/-- Where the operator of a sample-sum is left out between two texts, they are read as they are with
the operator in between, or refused for the same reason. -/
theorem Symbol.ofText_operator_left_out {u v : String}
    (h : OperatorLeftOut (Text.written u) (Text.written v)) :
    ofText (u ++ v) = ofText (u ++ "x" ++ v) := by
  obtain ⟨hside, hoperator⟩ := Text.lowercase_of_operatorLeftOut h
  have hx : (u ++ "x" ++ v).toList = u.toList ++ 'x' :: v.toList := by simp
  have htokens : Token.ofText (u ++ v) = Token.ofText (u ++ "x" ++ v) := by
    rw [Token.ofText, Token.ofText, String.toList_append, hx, hside, hoperator, sifted_append,
      sifted_append, sifted, if_pos (by decide)]
    cases hfront : sifted (Text.lowercase u.toList) with
    | error e => rfl
    | ok front =>
      cases hback : sifted (Text.lowercase v.toList) with
      | error e => rfl
      | ok back =>
        rw [Text.written, Text.written, ← eq_marks_of_sifted hfront,
          ← eq_marks_of_sifted hback] at h
        exact congrArg Except.ok h.explicit_ofLetters
  rw [ofText, ofText, htokens]

/-- A number in front of a die, with blanks around the place and a capital. -/
theorem Symbol.ofText_operator_left_out_of_blanks :
    OperatorLeftOut (Text.written "2 ") (Text.written " D6") ∧
      ofText ("2 " ++ "x" ++ " D6") = .ok [.constant 2, .marker .sampleSum, .die 1 6] ∧
      ofText ("2 " ++ " D6") = .ok [.constant 2, .marker .sampleSum, .die 1 6] := by
  have hplace : OperatorLeftOut (Text.written "2 ") (Text.written " D6") :=
    .inl ⟨⟨'2', by decide, rfl⟩, 'd', by decide, by decide⟩
  have hoperator : ofText ("2 " ++ "x" ++ " D6")
      = .ok [.constant 2, .marker .sampleSum, .die 1 6] := rfl
  exact ⟨hplace, hoperator, (Symbol.ofText_operator_left_out hplace).trans hoperator⟩

end DiceLaw
