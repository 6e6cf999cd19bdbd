import DiceLaw.Proofs.Notation.RoundTrip
import DiceLaw.Proofs.Notation.Spelling

/-!
# A text in front of more text

A text is read as it is read alone wherever something comes behind it that may follow an operand:
its last numeral does not go on, no operator is put in behind it, and its symbols stay. The one
exception is a plus sign at the end. Alone, the text has nothing to add there, and the sign is
dropped; in front of more text it stays.

## Main definitions

* `Token.wordPairs`: where a word may go on from one letter to the next
* `Token.EndsWith`: the letters that a token may end with

## Main results

* `Token.ofLetters_append_of_apart`, `Token.explicit_append`, `Symbol.Lexed.ofTokens_append`,
  `Symbol.dropEmptyAddsAfter_append`: each step goes through a text from left to right
* `Token.exists_last_token`, `Symbol.exists_last_letter`: what the last letter makes of the end
* `Symbol.Writes.of_scan`: letters are scanned alone as they are in front of more
* `Formula.exists_reads_of_ofText`: the letters of a text are read as its formula, wherever they
  stand
-/

namespace DiceLaw

namespace Token

/-! ## Tokens -/

theorem push_append {c : Char} {ts us : List Token}
    (h : ∀ digits, us.head? ≠ some (.numeral digits)) : push c (ts ++ us) = push c ts ++ us := by
  cases hdigit : Number.digit? c with
  | none => rw [push_of_none hdigit, push_of_none hdigit, List.cons_append]
  | some d =>
    unfold push
    rw [hdigit]
    cases ts with
    | nil =>
      -- a digit alone would be put to a numeral behind it
      cases us with
      | nil => rfl
      | cons u us =>
        cases u with
        | numeral digits => exact absurd rfl (h digits)
        | _ => rfl
    | cons t ts => cases t <;> rfl

/-- The letters that stand side by side in the words of selections. -/
def wordPairs : List (Char × Char) :=
  [('m', 'a'), ('a', 'x'), ('x', '('), ('m', 'i'), ('i', 'n'), ('n', '(')]

/-- A word that starts in front of a place where no word goes on ends there. -/
theorem exists_tail_of_word {letters rest behind : List Char} {a x : Char}
    (hword : [('m', a), (a, x), (x, '(')] ⊆ wordPairs)
    (hpairs : ∀ k ∈ ('m' :: letters).getLast?, ∀ l ∈ rest.head?, (k, l) ∉ wordPairs)
    (h : letters ++ rest = a :: x :: '(' :: behind) :
    ∃ tail, letters = a :: x :: '(' :: tail := by
  match letters with
  | [] =>
    obtain rfl : rest = a :: x :: '(' :: behind := h
    exact absurd (hword (by simp)) (hpairs 'm' rfl a rfl)
  | [k] =>
    obtain ⟨rfl, rfl⟩ : k = a ∧ rest = x :: '(' :: behind := by simpa using h
    exact absurd (hword (by simp)) (hpairs k rfl x rfl)
  | [k, l] =>
    obtain ⟨rfl, rfl, rfl⟩ : k = a ∧ l = x ∧ rest = '(' :: behind := by simpa using h
    exact absurd (hword (by simp)) (hpairs l rfl '(' rfl)
  | k :: l :: bracket :: tail =>
    obtain ⟨rfl, rfl, rfl, -⟩ : k = a ∧ l = x ∧ bracket = '(' ∧ tail ++ rest = behind := by
      simpa using h
    exact ⟨tail, rfl⟩

/-- Letters side by side make up the tokens that they make up apart, where neither a word nor a
numeral goes on from the first ones to the others. -/
theorem ofLetters_append_of_apart {letters rest : List Char}
    (hpairs : ∀ k ∈ letters.getLast?, ∀ l ∈ rest.head?, (k, l) ∉ wordPairs)
    (hnumeral : ∀ digits, (ofLetters rest).head? ≠ some (.numeral digits)) :
    ofLetters (letters ++ rest) = ofLetters letters ++ ofLetters rest := by
  have htail : ∀ {c : Char} {cs : List Char}, (∀ k ∈ (c :: cs).getLast?, ∀ l ∈ rest.head?,
      (k, l) ∉ wordPairs) → ∀ k ∈ cs.getLast?, ∀ l ∈ rest.head?, (k, l) ∉ wordPairs := by
    intro c cs h k hk
    refine h k ?_
    rw [List.getLast?_cons, Option.mem_def.1 hk]
    rfl
  induction letters using ofLetters.induct with
  | case1 => rw [ofLetters_nil, List.nil_append, List.nil_append]
  | case2 letters ih | case3 letters ih =>
    simp only [List.cons_append, ofLetters]
    rw [ih (htail (htail (htail (htail hpairs))))]
  | case4 c letters hmax hmin ih =>
    rw [ofLetters_eq_push hmax hmin, List.cons_append, ofLetters_eq_push, ih (htail hpairs),
      push_append hnumeral]
    · rintro behind rfl h
      obtain ⟨tail, rfl⟩ := exists_tail_of_word (by decide) hpairs h
      exact hmax tail rfl rfl
    · rintro behind rfl h
      obtain ⟨tail, rfl⟩ := exists_tail_of_word (by decide) hpairs h
      exact hmin tail rfl rfl

/-- No operator is left out between tokens and what may follow an operand. -/
theorem explicit_append {ts us : List Token} (h : ∀ u ∈ us.head?, u.follows = true) :
    explicit (ts ++ us) = explicit ts ++ explicit us := by
  induction ts with
  | nil => rfl
  | cons t ts ih =>
    cases ts with
    | nil => exact explicit_cons fun u hu => juxtaposed_of_follows (h u hu)
    | cons t' ts =>
      rw [List.cons_append, List.cons_append, explicit_cons_cons, explicit_cons_cons,
        ← List.cons_append, ih]
      split <;> rfl

theorem mem_explicit {t : Token} {ts : List Token} (h : t ∈ ts) : t ∈ explicit ts := by
  induction ts using explicit.induct with
  | case1 a b rest hj ih =>
    rw [explicit_cons_cons, if_pos hj]
    rcases List.mem_cons.1 h with rfl | h
    · exact List.mem_cons_self
    · exact List.mem_cons_of_mem _ (List.mem_cons_of_mem _ (ih h))
  | case2 a b rest hj ih =>
    rw [explicit_cons_cons, if_neg hj]
    rcases List.mem_cons.1 h with rfl | h
    · exact List.mem_cons_self
    · exact List.mem_cons_of_mem _ (ih h)
  | case3 ts hts =>
    rwa [explicit]
    exact hts

/-! ## The last token -/

/-- The token may end with the letter. -/
inductive EndsWith : Token → Char → Prop
  | letter {t : Token} {c : Char} (hd : Number.digit? c = none) (ht : t = ofLetter c) : EndsWith t c
  | numeral {digits : List (Fin 10)} {c : Char} {d : Fin 10} (hd : Number.digit? c = some d) :
    EndsWith (.numeral digits) c
  | opening {m : Marker} (hm : m.opens = true) : EndsWith (.marker m) '('

theorem ofLetter_ne_numeral (c : Char) (digits : List (Fin 10)) : ofLetter c ≠ .numeral digits := by
  unfold ofLetter
  split <;> exact nofun

theorem EndsWith.isDigit {digits : List (Fin 10)} {c : Char} (h : EndsWith (.numeral digits) c) :
    c.isDigit = true := by
  cases h with
  | letter _ ht => exact absurd ht.symm (ofLetter_ne_numeral c digits)
  | numeral hd => exact Number.isDigit_iff.2 ⟨_, hd⟩

theorem EndsWith.minus {c : Char} (h : EndsWith .minus c) : c = '-' := by
  cases h with
  | letter _ ht =>
    unfold ofLetter at ht
    split at ht <;> first | rfl | cases ht

theorem EndsWith.marker {m : Marker} {c : Char} (h : EndsWith (.marker m) c) :
    Number.digit? c = none ∧ (m = .add ↔ c = '+') ∧ (m = .closing ↔ c = ')') := by
  cases h with
  | letter hd ht =>
    refine ⟨hd, ?_⟩
    unfold ofLetter at ht
    split at ht <;> cases ht <;> simp
  | opening hm =>
    refine ⟨by decide, ?_⟩
    cases m <;> simp_all [Marker.opens]

theorem EndsWith.eq_numeral {t : Token} {c : Char} (h : EndsWith t c) (hc : c.isDigit = true) :
    ∃ digits, t = .numeral digits := by
  cases h with
  | letter hd _ => simp [Number.isDigit_iff, hd] at hc
  | numeral _ => exact ⟨_, rfl⟩
  | opening _ => cases hc

theorem EndsWith.eq_closing {t : Token} (h : EndsWith t ')') : t = .marker .closing := by
  cases h with
  | letter _ ht => exact ht
  | numeral hd => cases hd

/-- A letter that is put in front of tokens does not change what they end with. -/
theorem exists_getLast?_push {c k : Char} {ts : List Token} {u : Token}
    (hu : ts.getLast? = some u) (hends : EndsWith u k) :
    ∃ t, (push c ts).getLast? = some t ∧ EndsWith t k := by
  cases hd : Number.digit? c with
  | none =>
    rw [push_of_none hd]
    exact ⟨u, by simp [List.getLast?_cons, hu], hends⟩
  | some d =>
    unfold push
    rw [hd]
    match ts with
    | [.numeral digits] =>
      -- the digit joins the last token itself
      obtain rfl := Option.some.inj hu
      obtain ⟨e, he⟩ := Number.isDigit_iff.1 hends.isDigit
      exact ⟨_, rfl, .numeral he⟩
    | .numeral digits :: t :: ts => exact ⟨u, by simpa using hu, hends⟩
    | .die :: ts | .minus :: ts | .marker _ :: ts | .stray _ :: ts =>
      exact ⟨u, by simpa using hu, hends⟩

/-- The last token ends with the last letter. -/
theorem exists_last_token {letters : List Char} {c : Char} (h : letters.getLast? = some c) :
    ∃ t, (ofLetters letters).getLast? = some t ∧ EndsWith t c := by
  induction letters using ofLetters.induct with
  | case1 => cases h
  | case2 letters ih | case3 letters ih =>
    rw [ofLetters]
    cases letters with
    | nil =>
      obtain rfl := Option.some.inj h
      exact ⟨_, by rw [ofLetters_nil]; rfl, .opening rfl⟩
    | cons k letters =>
      obtain ⟨t, ht, hends⟩ := ih (by simpa using h)
      exact ⟨t, by simp [List.getLast?_cons, ht], hends⟩
  | case4 k letters hmax hmin ih =>
    rw [ofLetters_eq_push hmax hmin]
    cases letters with
    | nil =>
      obtain rfl : k = c := Option.some.inj h
      rw [ofLetters_nil]
      cases hd : Number.digit? k with
      | none => exact ⟨_, by rw [push_of_none hd]; rfl, .letter hd rfl⟩
      | some d => exact ⟨.numeral [d], by unfold push; rw [hd]; rfl, .numeral hd⟩
    | cons l letters =>
      obtain ⟨t, ht, hends⟩ := ih (by simpa using h)
      exact exists_getLast?_push ht hends

/-- Letters that make up tokens make up the same in front of what may follow an operand. -/
theorem ofLetters_append {letters rest : List Char}
    (hstray : ∀ letter, Token.stray letter ∉ ofLetters letters) (hrest : Follows rest) :
    ofLetters (letters ++ rest) = ofLetters letters ++ ofLetters rest := by
  refine ofLetters_append_of_apart (fun k hk l hl hword => ?_) fun digits hhead => ?_
  · -- only an `x` may follow an operand and go on with a word, whose letters would be stray
    have hpair : ∀ pair ∈ wordPairs, pair.2 ∈ ['+', '-', '*', '/', 'x', ',', ')'] →
        pair.1 = 'a' := by decide
    obtain rfl : k = 'a' := hpair _ hword (hrest l hl)
    obtain ⟨t, ht, hends⟩ := exists_last_token hk
    cases hends with
    | letter _ hletter =>
      subst hletter
      exact hstray 'a' (List.mem_of_getLast? ht)
    | numeral hd => cases hd
  · cases hrest.head_ofLetters _ hhead

theorem getLast?_explicit (ts : List Token) : (explicit ts).getLast? = ts.getLast? := by
  induction ts using explicit.induct with
  | case1 a b rest hj ih => rw [explicit_cons_cons, if_pos hj]; simp [List.getLast?_cons, ih]
  | case2 a b rest hj ih => rw [explicit_cons_cons, if_neg hj]; simp [List.getLast?_cons, ih]
  | case3 ts hts =>
    rw [explicit]
    exact hts

end Token

namespace Symbol

/-! ## Symbols -/

section Lexed

variable {tokens : List Token} {symbols : List Symbol}

/-- Tokens that stand for symbols are no stray letters. -/
theorem Lexed.stray_notMem (h : Lexed tokens symbols) (letter : Char) :
    Token.stray letter ∉ tokens := by
  induction h with
  | nil => exact List.not_mem_nil
  | cons hfront _ ih =>
    rw [List.mem_append, not_or]
    refine ⟨?_, ih⟩
    cases hfront <;> simp

/-- The last tokens that are read at once stand for the last symbols. -/
theorem Lexed.exists_last (h : Lexed tokens symbols) (hne : symbols ≠ []) :
    ∃ ts ss front lexeme, tokens = ts ++ front ∧ symbols = ss ++ lexeme ∧ Lexeme front lexeme := by
  induction h with
  | nil => exact absurd rfl hne
  | @cons front tokens lexeme symbols hfront htokens ih =>
    cases htokens with
    | nil => exact ⟨[], [], front, lexeme, by simp, by simp, hfront⟩
    | cons hfront' htokens' =>
      have hnext : ∀ {front lexeme}, Lexeme front lexeme → lexeme ≠ [] := by
        intro front lexeme h
        cases h <;> exact List.cons_ne_nil _ _
      obtain ⟨ts, ss, last, lexeme', hts, hss, hlast⟩ := ih (by simp [hnext hfront'])
      exact ⟨front ++ ts, lexeme ++ ss, last, lexeme', by rw [hts, List.append_assoc],
        by rw [hss, List.append_assoc], hlast⟩

theorem Lexed.ofTokens_append (h : Lexed tokens symbols) (us : List Token) :
    ofTokens (tokens ++ us) = (ofTokens us).map (symbols ++ ·) := by
  induction h with
  | nil => cases hus : ofTokens us <;> simp [hus, Except.map]
  | cons hfront _ ih =>
    rw [List.append_assoc, ofTokens_lexeme hfront, ih, Except.map_comp]
    simp only [List.append_assoc]

end Lexed

/-! ## Additions -/

/-- What is kept of symbols in front of others does not depend on the others, and how these go on
depends only on whether an operand has ended. -/
theorem exists_kept (front : List Symbol) (afterOperand : Bool) :
    ∃ kept ends, (∀ back ≠ [], dropEmptyAddsAfter afterOperand (front ++ back)
        = kept ++ dropEmptyAddsAfter ends back) ∧
      (kept = [] → afterOperand = true → ends = true) ∧
      ∀ s ∈ kept.getLast?, s.endsOperand = true → ends = true := by
  induction front generalizing afterOperand with
  | nil => exact ⟨[], afterOperand, fun _ _ => rfl, fun _ h => h, by simp⟩
  | cons first front ih =>
    have hrest : ∀ back ≠ [], (front ++ back).isEmpty = false := by
      intro back hback
      simp [hback]
    by_cases hdrop : first = .marker .add ∧ afterOperand = false
    · obtain ⟨kept, ends, hkept, -, hlast⟩ := ih false
      refine ⟨kept, ends, fun back hback => ?_, ?_, hlast⟩
      · rw [List.cons_append, dropEmptyAddsAfter, if_pos (by simp [hdrop]), hkept back hback]
      · simp [hdrop]
    · obtain ⟨kept, ends, hkept, hnone, hlast⟩ := ih first.endsOperand
      refine ⟨first :: kept, ends, fun back hback => ?_, by simp, ?_⟩
      · rw [List.cons_append, dropEmptyAddsAfter, if_neg, hkept back hback, List.cons_append]
        simpa [hrest back hback] using hdrop
      · -- the last symbol kept is the first one only if all others are dropped
        cases kept with
        | nil => simpa using hnone rfl
        | cons k kept => simpa using hlast

/-- Behind a symbol that is no addition, additions are dropped as behind nothing else. -/
theorem dropEmptyAddsAfter_append {s : Symbol} (hs : s ≠ .marker .add) (front : List Symbol)
    (afterOperand : Bool) : ∃ kept, ∀ back,
      dropEmptyAddsAfter afterOperand (front ++ s :: back)
        = kept ++ s :: dropEmptyAddsAfter s.endsOperand back := by
  obtain ⟨kept, ends, hkept, -⟩ := exists_kept front afterOperand
  refine ⟨kept, fun back => ?_⟩
  rw [hkept _ (List.cons_ne_nil s back), dropEmptyAddsAfter, if_neg (by simp [hs])]

/-- The last symbol is an addition if the last letter is a plus sign, and ends an operand if it is a
digit or a closing bracket. -/
theorem exists_last_letter {letters : List Char} {front : List Symbol} {s : Symbol}
    (h : ofTokens (Token.explicit (Token.ofLetters letters)) = .ok (front ++ [s])) :
    ∃ c, letters.getLast? = some c ∧ (s = .marker .add ↔ c = '+') ∧
      (s.endsOperand = true ↔ c.isDigit = true ∨ c = ')') := by
  have hne : letters ≠ [] := by
    rintro rfl
    rw [Token.ofLetters_nil, Token.explicit_nil, ofTokens] at h
    simp at h
  have hc := List.getLast?_eq_some_getLast hne
  generalize letters.getLast hne = c at hc
  obtain ⟨t, ht, hends⟩ := Token.exists_last_token hc
  rw [← Token.getLast?_explicit] at ht
  refine ⟨c, hc, ?_⟩
  obtain ⟨ts, ss, last, lexeme, hts, hss, hlast⟩ := (lexed_of_ofTokens h).exists_last (by simp)
  rw [hts] at ht
  have hs := congrArg List.getLast? hss
  have hdigit : c.isDigit = true → c ≠ '+' := by
    rintro hdigit rfl
    cases hdigit
  cases hlast with
  | numeral digits =>
    obtain rfl : s = .constant _ := by simpa using hs
    obtain rfl : .numeral digits = t := by simpa using ht
    simp [endsOperand, hends.isDigit, hdigit hends.isDigit]
  | @die digits _ =>
    obtain rfl : s = .die _ _ := by simpa using hs
    obtain rfl : .numeral digits = t := by simpa using ht
    simp [endsOperand, hends.isDigit, hdigit hends.isDigit]
  | minus =>
    -- a minus sign also stands for an addition, but ends with a multiplication
    obtain rfl : s = .marker .mul := by simpa using hs
    obtain rfl : .minus = t := by simpa using ht
    obtain rfl := hends.minus
    decide
  | marker m =>
    obtain rfl : s = .marker m := by simpa using hs
    obtain rfl : .marker m = t := by simpa using ht
    obtain ⟨hd, hadd, hclosing⟩ := hends.marker
    have hnot : c.isDigit ≠ true := by simp [Number.isDigit_iff, hd]
    have hm : endsOperand (.marker m) = true ↔ m = .closing := by cases m <;> simp [endsOperand]
    simp [hm, hadd, hclosing, hnot]

/-- Letters that are scanned as symbols of which the last one ends an operand are scanned as the
same symbols in front of what may follow. A plus sign at the end would stay there. -/
theorem Writes.of_scan {letters : List Char} {symbols : List Symbol}
    (h : scan false letters = .ok symbols) (hplus : letters.getLast? ≠ some '+')
    (hends : ∃ s ∈ symbols.getLast?, s.endsOperand = true) : Writes letters symbols := by
  rw [scan, scanTokens] at h
  obtain ⟨raw, hraw, hdrop⟩ := Except.map_eq_ok.1 h
  have hlexed := lexed_of_ofTokens hraw
  have hstray : ∀ letter, Token.stray letter ∉ Token.ofLetters letters := fun letter hmem =>
    hlexed.stray_notMem letter (Token.mem_explicit hmem)
  -- the last symbol before additions are dropped is none, and so stays the last
  obtain ⟨front, s, rfl⟩ : ∃ front s, raw = front ++ [s] := by
    rcases List.eq_nil_or_concat raw with rfl | ⟨front, s, rfl⟩
    · rw [← hdrop] at hends
      obtain ⟨s, hs, -⟩ := hends
      cases hs
    · exact ⟨front, s, List.concat_eq_append⟩
  have hadd : s ≠ .marker .add := by
    obtain ⟨c, hc, hplus', -⟩ := exists_last_letter hraw
    exact fun hs => hplus (hplus'.1 hs ▸ hc)
  obtain ⟨kept, hkept⟩ := dropEmptyAddsAfter_append hadd front false
  have hsymbols : symbols = kept ++ [s] := hdrop.symm.trans (hkept [])
  have hs : s.endsOperand = true := by
    obtain ⟨t, ht, hends⟩ := hends
    rw [hsymbols, List.getLast?_concat, Option.mem_some_iff] at ht
    rwa [ht]
  intro rest hrest
  rw [scan, scanTokens, Token.ofLetters_append hstray hrest,
    Token.explicit_append hrest.head_ofLetters, hlexed.ofTokens_append, scan, scanTokens,
    Except.map_comp, Except.map_comp]
  congr 1
  funext back
  rw [List.append_assoc, List.singleton_append, hkept, hs, hsymbols, List.append_assoc,
    List.singleton_append]

end Symbol

/-- The last symbol of a derivation ends an operand. -/
theorem Derivation.exists_last {c : Category} (d : Derivation c) :
    ∃ s ∈ d.symbols.getLast?, s.endsOperand = true := by
  induction d with
  | constant value => exact ⟨_, rfl, rfl⟩
  | die lo hi => exact ⟨_, rfl, rfl⟩
  | brackets _ _ | maximum _ _ | minimum _ _ => exact ⟨_, List.getLast?_concat, rfl⟩
  | lone _ ih => exact ih
  | more first rest _ ih =>
    obtain ⟨s, hs, hends⟩ := ih
    refine ⟨s, ?_, hends⟩
    rw [symbols, List.getLast?_append, List.getLast?_cons, Option.mem_def.1 hs]
    rfl

namespace Symbol

theorem exists_siftsTo_of_ofText {text : String} {symbols : List Symbol}
    (h : ofText text = .ok symbols) :
    ∃ letters, SiftsTo text.toList letters ∧ scan false letters = .ok symbols := by
  have hsymbols := h
  rw [ofText] at h
  obtain ⟨tokens, htokens, -⟩ := Except.bind_eq_ok.1 h
  obtain ⟨letters, hletters, -⟩ := Except.map_eq_ok.1 htokens
  exact ⟨letters, hletters, (ofText_of_sifted hletters).symm.trans hsymbols⟩

/-- The letters of a text without a plus sign at its end are scanned as what is derived, wherever
they stand. -/
theorem exists_writes_of_ofText {c : Category} {text : String} (d : Derivation c)
    (h : ofText text = .ok d.symbols) (hplus : Text.lastMark? text ≠ some '+') :
    ∃ letters, SiftsTo text.toList letters ∧ letters ≠ [] ∧ Writes letters d.symbols := by
  obtain ⟨letters, hletters, hscan⟩ := exists_siftsTo_of_ofText h
  refine ⟨letters, hletters, ?_, ?_⟩
  · rintro rfl
    rw [scan_nil] at hscan
    exact d.symbols_ne_nil (Except.ok.inj hscan).symm
  · exact .of_scan hscan (fun hlast => hplus (hletters.lastMark?_eq_plus hlast)) d.exists_last

end Symbol

/-- The letters of a text without a plus sign at its end are read as the formula of the text,
wherever they stand. -/
theorem Formula.exists_reads_of_ofText {text : String} {f : Formula} (h : ofText text = .ok f)
    (hplus : Text.lastMark? text ≠ some '+') :
    ∃ letters, SiftsTo text.toList letters ∧ Reads .formula letters f := by
  obtain ⟨d, hsymbols, hf⟩ := exists_derivation_of_ofText h
  obtain ⟨letters, hletters, hne, hwrites⟩ := Symbol.exists_writes_of_ofText d hsymbols hplus
  exact ⟨letters, hletters, hne, _, _, hwrites, ⟨d, rfl, rfl⟩, hf⟩

end DiceLaw
