import DiceLaw.Proofs.Notation.Additions
import Mathlib.Data.List.Chain

/-!
# The text of symbols

Symbols are written one after the other and read again. What is read are the same symbols, unless
two of them run together: a number or a die goes on with the digits behind it, an operator is put in
where it is left out, and an addition with nothing to add is dropped. Blanks and capitals in the
text change nothing, and neither does the other letter of dice.

## Main definitions

* `Symbol.IsLegible`: the symbols that can be read from a text
* `Symbol.RunsInto`: two symbols that are read differently side by side
* `Symbol.tokens`: the tokens that a symbol is written in
* `Respelled`: a text is spelled with blanks, with capitals and with both letters of dice

## Main results

* `Symbol.ofLetters_chars`, `Symbol.explicit_tokens`, `Symbol.ofTokens_tokens`: from the letters of
  symbols to their tokens and back to the symbols
* `Respelled.ofText_eq`: how a text is spelled does not matter
* `Symbol.ofText_of_symbols`: symbols are read from their text
-/

namespace DiceLaw

open Number (digit? digitChar ofDigits numeral signedNumeral)

/-! ## The symbols of a text -/

namespace Number

/-- The digits of a natural number. -/
def digits (n : Nat) : List (Fin 10) := (numeral n).filterMap digit?

theorem digits_spec (n : Nat) :
    digits n ≠ [] ∧ numeral n = (digits n).map digitChar ∧ ofDigits (digits n) = n := by
  obtain ⟨ds, hne, hds, hn⟩ := exists_digits n
  have hdigits : digits n = ds := by
    rw [digits, hds, List.filterMap_map]
    simp [digit?_digitChar]
  rw [hdigits]
  exact ⟨hne, hds, hn⟩

end Number

namespace Symbol

/-- A symbol that can be read: a marker, a number that is not negative, or a die that starts at
one. -/
inductive IsLegible : Symbol → Prop
  | marker (m : Marker) : IsLegible (.marker m)
  | constant (n : Nat) : IsLegible (.constant n)
  | die {n : Nat} (hsize : 1 ≤ n) : IsLegible (.die 1 n)

/-- An operand runs into another operand and into a bracket that opens; a closing bracket runs into
any opening. -/
def RunsInto (a b : Symbol) : Prop :=
  a.isOperand = true ∧ (b.isOperand = true ∨ b = .marker .opening) ∨
    a = .marker .closing ∧ b.opens = true

instance (a b : Symbol) : Decidable (RunsInto a b) :=
  inferInstanceAs (Decidable (_ ∨ _))

/-- The characters that a symbol is written in. -/
def chars (s : Symbol) : List Char := s.text.toList

/-- The tokens that a symbol is written in. -/
def tokens : Symbol → List Token
  | .marker m => [.marker m]
  | .constant value => [.numeral (Number.digits value.natAbs)]
  | .die _ hi => [.die, .numeral (Number.digits hi.natAbs)]
  | .gap => []

namespace IsLegible

variable {s a b : Symbol}

theorem chars_constant (n : Nat) : (Symbol.constant n).chars = numeral n := by
  simp [chars, text, signedNumeral]

theorem chars_die (n : Nat) : (Symbol.die 1 n).chars = 'd' :: numeral n := by
  simp [chars, text, signedNumeral, String.toList_append]

theorem mem_formulaLetters (h : s.IsLegible) : ∀ c ∈ s.chars, c ∈ formulaLetters := by
  cases h with
  | marker m =>
    cases m <;> exact mem_formulaLetters_of_all rfl
  | constant n =>
    rw [chars_constant]
    exact Formula.mem_formulaLetters_of_mem_numeral
  | @die n _ =>
    rw [chars_die]
    exact List.forall_mem_cons.2 ⟨by decide, Formula.mem_formulaLetters_of_mem_numeral⟩

theorem lexeme (h : s.IsLegible) : Lexeme s.tokens [s] := by
  cases h with
  | marker m => exact .marker m
  | constant n =>
    obtain ⟨-, -, hn⟩ := Number.digits_spec n
    have hlexeme := Lexeme.numeral (Number.digits n)
    rwa [hn] at hlexeme
  | @die n hsize =>
    obtain ⟨-, -, hn⟩ := Number.digits_spec n
    have hlexeme := Lexeme.die (hn.symm ▸ hsize)
    rwa [hn] at hlexeme

theorem tokens_ne_nil (h : s.IsLegible) : s.tokens ≠ [] := by
  cases h <;> exact List.cons_ne_nil _ _

/-- Only a number starts with a numeral. -/
theorem isOperand_of_numeral (h : s.IsLegible) {ds : List (Fin 10)}
    (hhead : s.tokens.head? = some (.numeral ds)) : s.isOperand = true := by
  cases h with
  | marker m => cases hhead
  | constant n => rfl
  | die _ => rfl

/-- The letters of a symbol make up its tokens, if they do not go on with a digit. -/
theorem ofLetters_chars (h : s.IsLegible) {rest : List Char}
    (hrest : s.isOperand = true → ∀ ds, (Token.ofLetters rest).head? ≠ some (.numeral ds)) :
    Token.ofLetters (s.chars ++ rest) = s.tokens ++ Token.ofLetters rest := by
  cases h with
  | marker m => cases m <;> rfl
  | constant n =>
    obtain ⟨hne, hds, -⟩ := Number.digits_spec n
    rw [chars_constant, hds, Token.ofLetters_digits hne (hrest rfl)]
    rfl
  | @die n _ =>
    obtain ⟨hne, hds, -⟩ := Number.digits_spec n
    rw [chars_die, hds, List.cons_append, Token.ofLetters_letter (by decide) (by decide),
      Token.ofLetters_digits hne (hrest rfl)]
    rfl

/-- No operator is left out within a symbol, nor behind it if its last token is joined with
nothing. -/
theorem explicit_tokens (h : s.IsLegible) {ts : List Token}
    (hts : ∀ t ∈ s.tokens.getLast?, ∀ u ∈ ts.head?, Token.juxtaposed t u = false) :
    Token.explicit (s.tokens ++ ts) = s.tokens ++ Token.explicit ts := by
  cases h with
  | marker m => exact Token.explicit_cons (hts _ rfl)
  | constant n => exact Token.explicit_cons (hts _ rfl)
  | @die n _ =>
    have hsides : Token.explicit (.numeral (Number.digits n) :: ts)
        = .numeral (Number.digits n) :: Token.explicit ts := Token.explicit_cons (hts _ rfl)
    show Token.explicit (.die :: .numeral (Number.digits n) :: ts) = _
    rw [Token.explicit_cons (by simp [Token.juxtaposed]), hsides]
    rfl

/-- Symbols that do not run into each other leave out no operator. -/
theorem not_juxtaposed (ha : a.IsLegible) (hb : b.IsLegible) (hapart : ¬ RunsInto a b) {t u : Token}
    (ht : a.tokens.getLast? = some t) (hu : b.tokens.head? = some u) :
    Token.juxtaposed t u = false := by
  rw [Bool.eq_false_iff]
  intro hjoined
  refine hapart ?_
  cases ha with
  | marker m =>
    obtain rfl : Token.marker m = t := Option.some.inj ht
    by_cases hm : m = .closing
    · subst hm
      cases hb with
      | marker k =>
        obtain rfl := Option.some.inj hu
        exact .inr ⟨rfl, hjoined⟩
      | constant n =>
        obtain rfl := Option.some.inj hu
        cases hjoined
      | die _ =>
        obtain rfl := Option.some.inj hu
        cases hjoined
    · rw [Token.juxtaposed_marker hm] at hjoined
      cases hjoined
  | _ =>
    obtain rfl := Option.some.inj ht
    refine .inl ⟨rfl, ?_⟩
    cases hb with
    | marker k =>
      obtain rfl := Option.some.inj hu
      cases k with
      | opening => exact .inr rfl
      | _ => cases hjoined
    | _ => exact .inl rfl

end IsLegible

section

variable {symbols : List Symbol} (hlegible : ∀ s ∈ symbols, s.IsLegible)
  (happart : symbols.IsChain fun a b => ¬ RunsInto a b)

include hlegible

/-! ## From letters to tokens and symbols -/

/-- The first token of symbols belongs to the first symbol. -/
theorem exists_head_tokens {t : Token} (h : (symbols.flatMap tokens).head? = some t) :
    ∃ s ∈ symbols.head?, s.tokens.head? = some t := by
  cases symbols with
  | nil => cases h
  | cons s rest =>
    have hne := (hlegible s List.mem_cons_self).tokens_ne_nil
    rw [List.flatMap_cons, List.head?_append_of_ne_nil _ hne] at h
    exact ⟨s, rfl, h⟩

include happart in
/-- The letters of symbols that do not run together make up the tokens of each symbol, and no
operator is left out between these. -/
theorem explicit_ofLetters :
    Token.ofLetters (symbols.flatMap chars) = symbols.flatMap tokens ∧
      Token.explicit (symbols.flatMap tokens) = symbols.flatMap tokens := by
  induction symbols with
  | nil => exact ⟨Token.ofLetters_nil, rfl⟩
  | cons s rest ih =>
    obtain ⟨hs, hrest⟩ := List.forall_mem_cons.1 hlegible
    obtain ⟨hletters, hexplicit⟩ := ih hrest happart.tail
    have hnext : ∀ next ∈ rest.head?, next.IsLegible ∧ ¬ RunsInto s next := fun next hnext =>
      ⟨hrest next (List.mem_of_head? hnext), List.isChain_cons.1 happart |>.1 next hnext⟩
    rw [List.flatMap_cons, List.flatMap_cons, hs.ofLetters_chars, hletters, hs.explicit_tokens,
      hexplicit]
    · exact ⟨rfl, rfl⟩
    · -- an operator would be put in only in front of a symbol that this one runs into
      intro t ht u hu
      obtain ⟨next, hmem, hhead⟩ := exists_head_tokens hrest hu
      exact hs.not_juxtaposed (hnext next hmem).1 (hnext next hmem).2 ht hhead
    · -- and only such a symbol starts with a digit
      rintro hoperand ds hhead
      rw [hletters] at hhead
      obtain ⟨next, hmem, hnumeral⟩ := exists_head_tokens hrest hhead
      exact (hnext next hmem).2
        (.inl ⟨hoperand, .inl ((hnext next hmem).1.isOperand_of_numeral hnumeral)⟩)

/-- The tokens of symbols stand for the symbols. -/
theorem ofTokens_tokens : ofTokens (symbols.flatMap tokens) = .ok symbols := by
  induction symbols with
  | nil => exact ofTokens.eq_1
  | cons s rest ih =>
    obtain ⟨hs, hrest⟩ := List.forall_mem_cons.1 hlegible
    rw [List.flatMap_cons, ofTokens_lexeme hs.lexeme, ih hrest]
    rfl

include happart in
/-- The letters of symbols are scanned as the symbols, if additions stand between operands and
something else. -/
theorem scan_chars (hadds : AddsBetween symbols) :
    scan false (symbols.flatMap chars) = .ok symbols := by
  obtain ⟨hletters, hexplicit⟩ := explicit_ofLetters hlegible happart
  rw [scan, scanTokens, hletters, hexplicit, ofTokens_tokens hlegible]
  exact congrArg Except.ok (dropEmptyAdds_eq_self_iff.2 hadds)

end

end Symbol

/-! ## Spelling -/

/-- A letter can be spelled as a capital, and that of dice also as a `w`. -/
def spellings (c : Char) : List Char :=
  c :: c.toUpper :: if c = 'd' then ['w', 'W'] else []

/-- The characters of a text that are not blank spell letters, one by one. -/
def Respelled (letters text : List Char) : Prop :=
  List.Forall₂ (fun c k => k ∈ spellings c) letters (Text.marks text)

instance (letters text : List Char) : Decidable (Respelled letters text) :=
  inferInstanceAs (Decidable (List.Forall₂ _ _ _))

/-- The letter that a letter of formulas stands for: of the two letters of dice the first. -/
def Token.plain (c : Char) : Char := if c = 'w' then 'd' else c

namespace Token

theorem eq_of_plain {c k : Char} (hk : k ≠ 'd') (h : plain c = k) : c = k := by
  unfold plain at h
  split at h
  · exact absurd h.symm hk
  · exact h

/-- A word without the letter of dice is spelled in one way. -/
theorem exists_tail_of_map_plain {behind letters : List Char} (word : List Char)
    (hword : 'd' ∉ word) (h : letters.map plain = word ++ behind) :
    ∃ tail, letters = word ++ tail := by
  induction word generalizing letters with
  | nil => exact ⟨letters, rfl⟩
  | cons k word ih =>
    obtain ⟨hk, hword⟩ := not_or.1 (mt List.mem_cons.2 hword)
    obtain ⟨c, rest, rfl, hc, hrest⟩ := List.map_eq_cons_iff.1 h
    obtain ⟨tail, rfl⟩ := ih hword hrest
    exact ⟨tail, by rw [eq_of_plain (Ne.symm hk) hc]; rfl⟩

theorem push_plain (c : Char) (ts : List Token) : push (plain c) ts = push c ts := by
  unfold plain
  split
  · rename_i hc
    rw [hc]
    rfl
  · rfl

/-- Both letters of dice make up the same tokens. -/
theorem ofLetters_map_plain (letters : List Char) :
    ofLetters (letters.map plain) = ofLetters letters := by
  induction letters using ofLetters.induct with
  | case1 => rfl
  | case2 rest ih | case3 rest ih =>
    simp only [ofLetters, ← ih]
    rfl
  | case4 c rest hmax hmin ih =>
    -- no word has the letter of dice in it, so that no word begins in one of the texts only
    rw [List.map_cons, ofLetters_eq_push, ofLetters_eq_push hmax hmin, ih, push_plain]
    · intro behind hc hrest
      obtain ⟨tail, rfl⟩ := exists_tail_of_map_plain ['a', 'x', '('] (by decide) hrest
      exact hmax tail (eq_of_plain (by decide) hc) rfl
    · intro behind hc hrest
      obtain ⟨tail, rfl⟩ := exists_tail_of_map_plain ['i', 'n', '('] (by decide) hrest
      exact hmin tail (eq_of_plain (by decide) hc) rfl

end Token

/-- A spelling of a letter is put in lower case as the letter, or as the other letter of dice. -/
theorem exists_letter_of_spelling : ∀ c ∈ formulaLetters, ∀ k ∈ spellings c,
    ∃ l, SiftsTo [k] [l] ∧ Token.plain l = Token.plain c := by
  have hall : formulaLetters.all (fun c => (spellings c).all fun k =>
      ['d', 'w', c].any fun l => decide (sifted (Text.lowercase [k]) = .ok [l]) &&
        Token.plain l == Token.plain c) = true := by
    decide +kernel
  intro c hc k hk
  have hsome := List.all_eq_true.1 (List.all_eq_true.1 hall c hc) k hk
  obtain ⟨l, -, hl⟩ := List.any_eq_true.1 hsome
  rw [Bool.and_eq_true, decide_eq_true_eq, beq_iff_eq] at hl
  exact ⟨l, hl.1, hl.2⟩

theorem SiftsTo.of_isBlank {c : Char} (h : Text.isBlank c = true) : SiftsTo [c] [] := by
  have hsigma : 'Σ' ∉ [c] := by
    intro hmem
    obtain rfl := List.mem_singleton.1 hmem
    exact absurd h (by decide)
  have hletter : formulaLetters.contains c = false := by
    rw [Bool.eq_false_iff]
    intro hc
    rw [isBlank_of_mem_formulaLetters c (by simpa using hc)] at h
    cases h
  rw [SiftsTo.iff_flatMap, List.flatMap_singleton, Text.lowerChar_of_isBlank h, sifted, hletter, h]
  exact ⟨hsigma, rfl⟩

namespace Respelled

variable {letters text : List Char}

theorem refl (h : ∀ c ∈ letters, c ∈ formulaLetters) : Respelled letters letters := by
  rw [Respelled, Text.marks_eq_self fun c hc => isBlank_of_mem_formulaLetters c (h c hc)]
  exact List.forall₂_same.2 fun c _ => List.mem_cons_self

/-- A text is sifted to the letters that it spells, apart from the two letters of dice. -/
theorem exists_siftsTo (h : Respelled letters text) (hletters : ∀ c ∈ letters, c ∈ formulaLetters) :
    ∃ sifted, SiftsTo text sifted ∧ sifted.map Token.plain = letters.map Token.plain := by
  induction text generalizing letters with
  | nil =>
    obtain rfl := List.forall₂_nil_right_iff.1 h
    exact ⟨[], rfl, rfl⟩
  | cons k text ih =>
    -- blanks are passed over, and every other character spells one letter
    cases hblank : Text.isBlank k with
    | true =>
      have hrest : Respelled letters text := by simpa [Respelled, Text.marks, hblank] using h
      obtain ⟨sifted, hsifts, hplain⟩ := ih hrest hletters
      exact ⟨sifted, (SiftsTo.of_isBlank hblank).append hsifts, hplain⟩
    | false =>
      have hcons : Text.marks (k :: text) = k :: Text.marks text := by simp [Text.marks, hblank]
      rw [Respelled, hcons] at h
      obtain ⟨c, rest, hk, hrest, rfl⟩ := List.forall₂_cons_right_iff.1 h
      obtain ⟨hc, hletters⟩ := List.forall_mem_cons.1 hletters
      obtain ⟨l, hl, hplain⟩ := exists_letter_of_spelling c hc k hk
      obtain ⟨sifted, hsifts, hmap⟩ := ih hrest hletters
      exact ⟨l :: sifted, hl.append hsifts, by rw [List.map_cons, List.map_cons, hplain, hmap]⟩

/-- How a text is spelled does not matter for its symbols. -/
theorem ofText_eq {text : String} (h : Respelled letters text.toList)
    (hletters : ∀ c ∈ letters, c ∈ formulaLetters) :
    Symbol.ofText text = Symbol.scan false letters := by
  obtain ⟨sifted, hsifts, hplain⟩ := h.exists_siftsTo hletters
  rw [Symbol.ofText_of_sifted hsifts, Symbol.scan, Symbol.scan, ← Token.ofLetters_map_plain sifted,
    hplain, Token.ofLetters_map_plain]

end Respelled

namespace Symbol

/-- Symbols that are written one after the other are read as they are, if each of them can be read
by itself, none runs into the next, and each addition stands behind the end of an operand and in
front of something. The same holds with blanks put in anywhere, with letters as capitals and with
the other letter of dice. -/
theorem ofText_of_symbols (symbols : List Symbol) (hlegible : ∀ s ∈ symbols, s.IsLegible)
    (happart : symbols.IsChain fun a b => ¬ RunsInto a b) (hadds : AddsBetween symbols) :
    ofText (String.join (symbols.map text)) = .ok symbols ∧
      ∀ spelled : String, Respelled (symbols.flatMap fun s => s.text.toList) spelled.toList →
        ofText spelled = .ok symbols := by
  have hletters : ∀ c ∈ symbols.flatMap chars, c ∈ formulaLetters := by
    intro c hc
    obtain ⟨s, hs, hc⟩ := List.mem_flatMap.1 hc
    exact (hlegible s hs).mem_formulaLetters c hc
  have hspelled : ∀ spelled : String, Respelled (symbols.flatMap chars) spelled.toList →
      ofText spelled = .ok symbols := fun spelled h =>
    (h.ofText_eq hletters).trans (scan_chars hlegible happart hadds)
  have hjoin : (String.join (symbols.map text)).toList = symbols.flatMap chars := by
    rw [String.toList_join, List.flatMap_map]
    rfl
  refine ⟨hspelled _ ?_, hspelled⟩
  rw [hjoin]
  exact .refl hletters

/-- A selection of a sampled die, next to another number. The text is spelled with blanks within a
word and within a number, with capitals and with the other letter of dice. -/
theorem ofText_of_symbols_of_selection :
    ∃ symbols : List Symbol, symbols = [.marker .maxOpening, .constant 2, .marker .sampleSum,
        .die 1 6, .marker .comma, .constant 10, .marker .closing, .marker .add, .constant 3] ∧
      ofText "max(2xd6,10)+3" = .ok symbols ∧ ofText " Ma X(2X w 6,1 0)\t+3" = .ok symbols := by
  refine ⟨_, rfl, ?_⟩
  have htext := ofText_of_symbols [.marker .maxOpening, .constant 2, .marker .sampleSum, .die 1 6,
    .marker .comma, .constant 10, .marker .closing, .marker .add, .constant 3]
    ?hlegible ?happart ?hadds
  case hlegible =>
    simp only [List.forall_mem_cons]
    exact ⟨.marker _, .constant 2, .marker _, .die (by decide), .marker _, .constant 10, .marker _,
      .marker _, .constant 3, List.forall_mem_nil _⟩
  case happart => decide
  case hadds => exact dropEmptyAdds_eq_self_iff.1 rfl
  obtain ⟨hplain, hspelled⟩ := htext
  exact ⟨hplain, hspelled " Ma X(2X w 6,1 0)\t+3" (by decide +kernel)⟩

end Symbol

end DiceLaw
