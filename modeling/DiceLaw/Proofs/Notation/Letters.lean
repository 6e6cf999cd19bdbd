import DiceLaw.Proofs.Notation.Reading

/-!
# The letters of a formula

All that a formula is written with are letters of formulas, which a text keeps when it is put in
lower case and sifted. Other letters of a text may be lost in lower case, but not those that are in
lower case already: these are refused.

## Main definitions

* `Text.IsKept`: the characters that are in lower case already

## Main results

* `Formula.Notated.sifted_chars`: the characters of a formula are sifted to themselves
* `Symbol.ofText_eq_badCharacter`: a text with another character is refused
-/

namespace DiceLaw

/-! ## Lower case -/

namespace Text

/-- Lower case leaves the character as it is, wherever it stands. -/
def IsKept (c : Char) : Prop := c ≠ 'Σ' ∧ lowerChar c = [c]

instance (c : Char) : Decidable (IsKept c) := inferInstanceAs (Decidable (_ ∧ _))

theorem lowercaseAfter_of_kept {cs : List Char} (h : ∀ c ∈ cs, IsKept c) (inWord : Bool) :
    lowercaseAfter inWord cs = cs := by
  induction cs generalizing inWord with
  | nil => rfl
  | cons c rest ih =>
    -- only a capital sigma looks at its neighbours
    obtain ⟨hsigma, hlower⟩ := h c List.mem_cons_self
    rw [lowercaseAfter_cons hsigma, hlower, ih fun k hk => h k (List.mem_cons_of_mem _ hk)]
    rfl

theorem mem_lowercaseAfter {c : Char} (hkept : IsKept c) {cs : List Char} (h : c ∈ cs)
    (inWord : Bool) : c ∈ lowercaseAfter inWord cs := by
  induction cs generalizing inWord with
  | nil => cases h
  | cons head rest ih =>
    rcases List.mem_cons.1 h with rfl | h
    · rw [lowercaseAfter_cons hkept.1, hkept.2]
      exact List.mem_cons_self
    · rw [lowercaseAfter]
      exact List.mem_append_right _ (ih h _)

end Text

/-! ## Sifting -/

theorem isKept_of_mem_formulaLetters : ∀ c ∈ formulaLetters, Text.IsKept c := by
  have hall : formulaLetters.all (fun c => decide (Text.IsKept c)) = true := by decide
  exact fun c hc => of_decide_eq_true (List.all_eq_true.1 hall c hc)

theorem mem_formulaLetters_of_all {cs : List Char} (h : cs.all formulaLetters.contains = true) :
    ∀ c ∈ cs, c ∈ formulaLetters := by
  simpa using h

theorem sifted_of_forall {cs : List Char} (h : ∀ c ∈ cs, c ∈ formulaLetters) :
    sifted cs = .ok cs := by
  induction cs with
  | nil => rfl
  | cons c rest ih =>
    have hc : formulaLetters.contains c = true := by
      simpa using h c List.mem_cons_self
    rw [sifted, if_pos hc, ih fun k hk => h k (List.mem_cons_of_mem _ hk)]
    rfl

/-- What is written in the letters of formulas is kept as it is. -/
theorem sifted_lowercase_of_forall {cs : List Char} (h : ∀ c ∈ cs, c ∈ formulaLetters) :
    sifted (Text.lowercase cs) = .ok cs := by
  rw [Text.lowercase, Text.lowercaseAfter_of_kept fun c hc =>
    isKept_of_mem_formulaLetters c (h c hc), sifted_of_forall h]

/-- One character that no formula uses is enough for a text to be refused. The character that is
named is the first such. -/
theorem exists_sifted_eq_badCharacter {c : Char} (hc : c ∉ formulaLetters)
    (hblank : Text.isBlank c = false) {cs : List Char} (h : c ∈ cs) :
    ∃ k, sifted cs = .error (.badCharacter k) := by
  induction cs with
  | nil => cases h
  | cons head rest ih =>
    rw [sifted]
    split
    · -- a letter of formulas is kept, and the character is still to come
      rename_i hhead
      rcases List.mem_cons.1 h with rfl | h
      · exact absurd (by simpa using hhead) hc
      · obtain ⟨k, hk⟩ := ih h
        exact ⟨k, by rw [hk]; rfl⟩
    · split
      · -- so it is after a blank, which is dropped
        rename_i hhead
        rcases List.mem_cons.1 h with rfl | h
        · rw [hblank] at hhead
          cases hhead
        · exact ih h
      · exact ⟨head, rfl⟩

theorem Symbol.ofText_eq_badCharacter {c : Char} (hkept : Text.IsKept c) (hc : c ∉ formulaLetters)
    (hblank : Text.isBlank c = false) {text : String} (h : c ∈ text.toList) :
    ∃ k, Symbol.ofText text = .error (.badCharacter k) := by
  obtain ⟨k, hk⟩ := exists_sifted_eq_badCharacter hc hblank (Text.mem_lowercaseAfter hkept h false)
  exact ⟨k, by rw [Symbol.ofText, Token.ofText, Text.lowercase, hk]; rfl⟩

/-! ## The letters of a formula -/

namespace Formula

theorem mem_formulaLetters_of_mem_numeral {n : Nat} :
    ∀ c ∈ Number.numeral n, c ∈ formulaLetters := by
  obtain ⟨ds, -, hds, -⟩ := Number.exists_digits n
  have hdigit : ∀ d : Fin 10, Number.digitChar d ∈ formulaLetters := by decide
  rw [hds]
  intro c hc
  obtain ⟨d, -, rfl⟩ := List.mem_map.1 hc
  exact hdigit d

theorem mem_formulaLetters_of_mem_signedNumeral {n : Int} :
    ∀ c ∈ Number.signedNumeral n, c ∈ formulaLetters := by
  rw [Number.signedNumeral]
  split
  · intro c hc
    rcases List.mem_cons.1 hc with rfl | hc
    · decide
    · exact mem_formulaLetters_of_mem_numeral c hc
  · exact mem_formulaLetters_of_mem_numeral

variable {joint : Joint} {first : List Char} {rest : List (List Char)} {c : Char}

/-- Nothing but the separator of the joint is put between parts. -/
theorem mem_seriesText (h : c ∈ joint.seriesText first rest) :
    c ∈ joint.separator ∨ c ∈ first ∨ ∃ part ∈ rest, c ∈ part := by
  rcases List.mem_append.1 h with h | h
  · exact .inr (.inl h)
  · obtain ⟨part, hpart, hc⟩ := List.mem_flatMap.1 h
    rw [Joint.glued] at hc
    split at hc
    · exact .inr (.inr ⟨part, hpart, hc⟩)
    · rcases List.mem_append.1 hc with hc | hc
      · exact .inl hc
      · exact .inr (.inr ⟨part, hpart, hc⟩)

theorem mem_seriesText_of_first (h : c ∈ first) : c ∈ joint.seriesText first rest :=
  List.mem_append_left _ h

theorem mem_seriesText_of_rest {part : List Char} (hpart : part ∈ rest) (h : c ∈ part) :
    c ∈ joint.seriesText first rest := by
  refine List.mem_append_right _ (List.mem_flatMap.2 ⟨part, hpart, ?_⟩)
  rw [Joint.glued]
  split
  · exact h
  · exact List.mem_append_right _ h

/-- A joint writes its parts as a series between letters of its own, or leaves out minus one in
front of the others. -/
theorem joinText_eq (joint : Joint) (head : Formula) (first : List Char) (rest : List (List Char)) :
    (∃ opening closing, (∀ c ∈ opening ++ closing, c ∈ formulaLetters) ∧
      joinText joint head first rest = opening ++ joint.seriesText first rest ++ closing) ∨
    (head = .constant (-1) ∧ ∃ next others, rest = next :: others ∧
      joinText joint head first rest = '-' :: joint.seriesText next others) := by
  by_cases hhead : joint = .product ∧ head = .constant (-1) ∧ rest ≠ []
  · obtain ⟨rfl, rfl, hrest⟩ := hhead
    obtain ⟨next, others, rfl⟩ := List.exists_cons_of_ne_nil hrest
    exact .inr ⟨rfl, next, others, rfl, joinText_negated first next others⟩
  · left
    cases hj : joint.isSelection with
    | false => exact ⟨[], [], by simp, by simp [joinText_operator hj hhead]⟩
    | true =>
      cases joint with
      | max =>
        exact ⟨"max(".toList, [')'], mem_formulaLetters_of_all rfl, joinText_max head first rest⟩
      | min =>
        exact ⟨"min(".toList, [')'], mem_formulaLetters_of_all rfl, joinText_min head first rest⟩
      | _ => cases hj

theorem mem_joinText {head : Formula} (h : c ∈ joinText joint head first rest) :
    c ∈ formulaLetters ∨ c ∈ first ∨ ∃ part ∈ rest, c ∈ part := by
  have hseparator : ∀ c ∈ joint.separator, c ∈ formulaLetters :=
    mem_formulaLetters_of_all (by cases joint <;> rfl)
  rcases joinText_eq joint head first rest with ⟨opening, closing, hletters, htext⟩ |
    ⟨-, next, others, rfl, htext⟩
  · rw [htext] at h
    rcases List.mem_append.1 h with h | h
    · rcases List.mem_append.1 h with h | h
      · exact .inl (hletters c (List.mem_append_left _ h))
      · exact (mem_seriesText h).imp_left (hseparator c)
    · exact .inl (hletters c (List.mem_append_right _ h))
  · -- the first part is left out
    rw [htext] at h
    rcases List.mem_cons.1 h with rfl | h
    · exact .inl (by decide)
    · rcases mem_seriesText h with h | h | ⟨part, hpart, h⟩
      · exact .inl (hseparator c h)
      · exact .inr (.inr ⟨next, List.mem_cons_self, h⟩)
      · exact .inr (.inr ⟨part, List.mem_cons_of_mem _ hpart, h⟩)

theorem mem_joinText_of_first {head : Formula} (hhead : head ≠ .constant (-1)) (h : c ∈ first) :
    c ∈ joinText joint head first rest := by
  rcases joinText_eq joint head first rest with ⟨opening, closing, -, htext⟩ | ⟨hminus, -⟩
  · rw [htext]
    exact List.mem_append_left _ (List.mem_append_right _ (mem_seriesText_of_first h))
  · exact absurd hminus hhead

theorem mem_joinText_of_rest {head : Formula} {part : List Char} (hpart : part ∈ rest)
    (h : c ∈ part) : c ∈ joinText joint head first rest := by
  rcases joinText_eq joint head first rest with ⟨opening, closing, -, htext⟩ |
    ⟨-, next, others, rfl, htext⟩
  · rw [htext]
    exact List.mem_append_left _ (List.mem_append_right _ (mem_seriesText_of_rest hpart h))
  · rw [htext]
    rcases List.mem_cons.1 hpart with rfl | hpart
    · exact List.mem_cons_of_mem _ (mem_seriesText_of_first h)
    · exact List.mem_cons_of_mem _ (mem_seriesText_of_rest hpart h)

theorem mem_asPart {f : Formula} (h : c ∈ asPart joint f first) :
    c ∈ formulaLetters ∨ c ∈ first := by
  rw [asPart] at h
  split at h
  · -- the brackets are letters of formulas
    rcases List.mem_append.1 h with h | h
    · rcases List.mem_cons.1 h with rfl | h
      · exact .inl (by decide)
      · exact .inr h
    · rw [List.mem_singleton.1 h]
      exact .inl (by decide)
  · exact .inr h

theorem mem_asPart_of_mem (joint : Joint) (f : Formula) (h : c ∈ first) :
    c ∈ asPart joint f first := by
  rw [asPart]
  split
  · exact List.mem_append_left _ (List.mem_cons_of_mem _ h)
  · exact h

/-- A formula that can be written is written in the letters of formulas. -/
theorem Notated.mem_formulaLetters {f : Formula} (h : Notated f) :
    ∀ c ∈ chars f, c ∈ formulaLetters := by
  induction h with
  | constant value => exact mem_formulaLetters_of_mem_signedNumeral
  | die hlo =>
    rw [chars_die hlo]
    intro c hc
    rcases List.mem_cons.1 hc with rfl | hc
    · decide
    · exact mem_formulaLetters_of_mem_signedNumeral c hc
  | join joint hfirst hrest ihFirst ihRest =>
    intro c hc
    rw [chars_join, partChars_eq_map] at hc
    rcases mem_joinText hc with hc | hc | ⟨part, hpart, hc⟩
    · exact hc
    · exact (mem_asPart hc).elim id (ihFirst c)
    · obtain ⟨p, hp, rfl⟩ := List.mem_map.1 hpart
      exact (mem_asPart hc).elim id (ihRest p hp c)

/-- What is written for a formula is kept as it is. -/
theorem Notated.sifted_chars {f : Formula} (h : Notated f) :
    sifted (Text.lowercase (chars f)) = .ok (chars f) :=
  sifted_lowercase_of_forall h.mem_formulaLetters

end Formula

end DiceLaw
