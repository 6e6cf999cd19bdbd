import DiceLaw.Proofs.Notation.Letters
import Mathlib.Data.List.TakeWhile

/-!
# Texts side by side

Lower case looks at what stands around a character only for a capital sigma, and a text with one is
refused. Sifting looks at each character alone. So the letters of a text that is put together are
those of its pieces, one after the other, whatever blanks and capitals the pieces have. A text that
is refused is put in lower case piece by piece as well, where the pieces meet with letters of
formulas: nothing looks across these.

## Main definitions

* `Text.marks`, `Text.lastMark?`: the characters of a text that are not blank, and the last of them
* `Text.written`: the marks of a text in lower case
* `Text.IsBorder`: the characters that lower case does not look across
* `SiftsTo`: the letters of a text

## Main results

* `Text.lowercase_append`, `Text.isBorder_of_getLast?_marks`, `Text.isBorder_of_head?_marks`: where
  lower case goes through texts one by one
* `SiftsTo.append`: the letters of two texts side by side
* `SiftsTo.lastMark?_eq_plus`: letters end with a plus sign only if their text does
-/

namespace DiceLaw

namespace Text

/-! ## Lower case, character by character -/

/-- A capital sigma becomes one of its two small forms. -/
theorem sigma_mem_lowercaseAfter {cs : List Char} (h : 'Σ' ∈ cs) (inWord : Bool) :
    'σ' ∈ lowercaseAfter inWord cs ∨ 'ς' ∈ lowercaseAfter inWord cs := by
  induction cs generalizing inWord with
  | nil => cases h
  | cons c rest ih =>
    rw [lowercaseAfter]
    rcases List.mem_cons.1 h with rfl | h
    · rw [if_pos rfl]
      split <;> simp
    · exact (ih h _).imp (List.mem_append_right _) (List.mem_append_right _)

theorem lowercaseAfter_eq_flatMap {cs : List Char} (h : 'Σ' ∉ cs) (inWord : Bool) :
    lowercaseAfter inWord cs = cs.flatMap lowerChar := by
  induction cs generalizing inWord with
  | nil => rfl
  | cons c rest ih =>
    rw [List.mem_cons, not_or] at h
    rw [lowercaseAfter_cons (Ne.symm h.1), ih h.2, List.flatMap_cons]

/-! ## Blanks and plus signs in lower case -/

/-- None of the spans meets the code points from the first to the last. -/
def Spans.apart (spans : Spans) (first last : Int) : Bool :=
  spans.all fun span => last < span.1 || span.2 < first

theorem Spans.not_covers_of_apart {spans : Spans} {first last : Int}
    (h : spans.apart first last = true) {c : Char} (hfirst : first ≤ c.toNat)
    (hlast : c.toNat ≤ last) : spans.covers c = false := by
  rw [Bool.eq_false_iff]
  intro hcovers
  obtain ⟨span, hmem, hlo, hhi⟩ := Spans.covers_iff.1 hcovers
  have hspan := List.all_eq_true.1 h span hmem
  rw [Bool.or_eq_true, decide_eq_true_eq, decide_eq_true_eq] at hspan
  omega

/-- A number that is no code point becomes the null character. -/
theorem ofNat_eq_null_or (n : Nat) : Char.ofNat n = '\x00' ∨ (Char.ofNat n).toNat = n := by
  by_cases hvalid : n.isValidChar
  · exact .inr (by rw [Char.ofNat, dif_pos hvalid]; rfl)
  · exact .inl (by rw [Char.ofNat, dif_neg hvalid]; rfl)

/-- A character stays where it is, or moves along a run that it belongs to. -/
theorem shiftAlong_eq (runs : List CaseRun) (c : Char) :
    shiftAlong runs c = c ∨ ∃ run ∈ runs, run.first ≤ c.toNat ∧ c.toNat ≤ run.last ∧
      (shiftAlong runs c = '\x00' ∨ ((shiftAlong runs c).toNat : Int) = c.toNat + run.shift) := by
  cases hrun : runs.find? (·.covers c) with
  | none => exact .inl (by rw [shiftAlong, hrun])
  | some run =>
    have hshift : shiftAlong runs c = Char.ofNat (c.toNat + run.shift).toNat := by
      rw [shiftAlong, hrun]
    have hcovers := List.find?_some hrun
    simp only [CaseRun.covers, Bool.and_eq_true, decide_eq_true_eq] at hcovers
    refine .inr ⟨run, List.mem_of_find?_eq_some hrun, hcovers.1.1, hcovers.1.2, ?_⟩
    rw [hshift]
    by_cases hneg : (c.toNat : Int) + run.shift < 0
    · rw [Int.toNat_of_nonpos (Int.le_of_lt hneg)]
      exact .inl rfl
    · refine (ofNat_eq_null_or _).imp_right fun hmove => ?_
      rw [hmove, Int.toNat_of_nonneg (Int.not_lt.1 hneg)]

/-- The code points of blanks and of the plus sign. -/
def unmoved : Spans := (43, 43) :: blankSpans

theorem unmoved_covers {c : Char} (h : c = '+' ∨ isBlank c = true) : unmoved.covers c = true := by
  rcases h with rfl | h
  · decide
  · obtain ⟨span, hspan, hc⟩ := Spans.covers_iff.1 h
    exact Spans.covers_iff.2 ⟨span, List.mem_cons_of_mem _ hspan, hc⟩

/-- No letter with a lower case is a blank or a plus sign, and none becomes one. -/
theorem lowerRuns_apart : ∀ run ∈ lowerRuns, unmoved.apart run.first run.last = true ∧
    unmoved.apart (run.first + run.shift) (run.last + run.shift) = true := by
  decide +kernel

theorem eq_of_mem_lowerChar {c k : Char} (hk : unmoved.covers k = true) (h : k ∈ lowerChar c) :
    k = c := by
  unfold lowerChar at h
  split at h
  · -- the two characters of a dotted capital I are neither
    have hnone : unmoved.covers 'i' = false ∧ unmoved.covers '\u0307' = false := by decide
    simp only [List.mem_cons, List.not_mem_nil, or_false] at h
    rcases h with rfl | rfl
    · rw [hnone.1] at hk
      cases hk
    · rw [hnone.2] at hk
      cases hk
  · rw [List.mem_singleton] at h
    rcases shiftAlong_eq lowerRuns c with hstay | ⟨run, hrun, hfirst, hlast, hnull | hmove⟩
    · exact h.trans hstay
    · rw [h, hnull] at hk
      exact absurd hk (by decide)
    · -- where the run leads to lies apart
      have hapart := (lowerRuns_apart run hrun).2
      rw [h, Spans.not_covers_of_apart hapart (by omega) (by omega)] at hk
      cases hk

theorem lowerChar_of_isBlank {c : Char} (h : isBlank c = true) : lowerChar c = [c] := by
  have hcovers := unmoved_covers (.inr h)
  unfold lowerChar
  split
  · rename_i hc
    rw [hc] at h
    exact absurd h (by decide)
  · rcases shiftAlong_eq lowerRuns c with hstay | ⟨run, hrun, hfirst, hlast, -⟩
    · rw [hstay]
    · have hapart := (lowerRuns_apart run hrun).1
      rw [Spans.not_covers_of_apart hapart (by omega) (by omega)] at hcovers
      cases hcovers

theorem isBlank_of_mem_lowerChar {c : Char} (h : isBlank c = false) :
    ∀ k ∈ lowerChar c, isBlank k = false := by
  intro k hk
  cases hblank : isBlank k with
  | false => rfl
  | true =>
    rw [eq_of_mem_lowerChar (unmoved_covers (.inr hblank)) hk, h] at hblank
    cases hblank

theorem lowerChar_ne_nil (c : Char) : lowerChar c ≠ [] := by
  unfold lowerChar
  split <;> exact List.cons_ne_nil _ _

/-! ## The characters that are written -/

/-- The characters of a text that are not blank. -/
def marks (text : List Char) : List Char := text.filter fun c => !isBlank c

theorem marks_eq_self {cs : List Char} (h : ∀ c ∈ cs, isBlank c = false) : marks cs = cs :=
  List.filter_eq_self.2 fun c hc => by simp [h c hc]

/-- Lower case keeps blanks, and makes none of other characters. -/
theorem marks_flatMap_lowerChar (text : List Char) :
    marks (text.flatMap lowerChar) = (marks text).flatMap lowerChar := by
  induction text with
  | nil => rfl
  | cons c rest ih =>
    rw [List.flatMap_cons, marks, List.filter_append, ← marks, ← marks, ih]
    cases hblank : isBlank c with
    | true =>
      rw [lowerChar_of_isBlank hblank]
      simp [marks, hblank]
    | false =>
      rw [marks_eq_self (isBlank_of_mem_lowerChar hblank)]
      simp [marks, hblank]

/-- The last character of a text that is not blank. -/
def lastMark? (text : String) : Option Char := (marks text.toList).getLast?

/-- What is written in a text: its lower case without blanks. -/
def written (text : String) : List Char := marks (lowercase text.toList)

/-! ## Lower case of texts side by side -/

/-- Lower case does not look across the character. -/
def IsBorder (c : Char) : Prop := c ≠ 'Σ' ∧ isPassedOver c = false

instance (c : Char) : Decidable (IsBorder c) := inferInstanceAs (Decidable (_ ∧ _))

/-- A word that something behind it has ended does not go on. -/
theorem wordGoesOn_append {xs : List Char} (h : ∃ c ∈ xs, isPassedOver c = false) (ys : List Char) :
    wordGoesOn (xs ++ ys) = wordGoesOn xs := by
  obtain ⟨c, hc, hpassed⟩ := h
  rw [wordGoesOn, wordGoesOn, List.dropWhile_append]
  cases hrest : xs.dropWhile isPassedOver with
  | nil =>
    rw [List.dropWhile_eq_nil_iff.1 hrest c hc] at hpassed
    cases hpassed
  | cons k rest => rfl

theorem lowercaseAfter_append {xs ys : List Char} (hxs : ∀ c ∈ xs.getLast?, IsBorder c)
    (hys : ∀ c ∈ ys.head?, IsBorder c) (inWord : Bool) :
    lowercaseAfter inWord (xs ++ ys) = lowercaseAfter inWord xs ++ lowercase ys := by
  induction xs generalizing inWord with
  | nil =>
    cases ys with
    | nil => rfl
    | cons c ys =>
      obtain ⟨hsigma, hpassed⟩ := hys c rfl
      simp [lowercase, lowercaseAfter, hsigma, hpassed]
  | cons c xs ih =>
    have htail : ∀ k ∈ xs.getLast?, IsBorder k := by
      intro k hk
      exact hxs k (by simp [List.getLast?_cons, Option.mem_def.1 hk])
    rw [List.cons_append, lowercaseAfter, lowercaseAfter, ih htail, List.append_assoc]
    split
    · -- a capital sigma is not the last character, and the last one ends the word
      rename_i hc
      subst hc
      have hne : xs ≠ [] := by
        rintro rfl
        exact (hxs _ rfl).1 rfl
      obtain ⟨-, hpassed⟩ := htail _ (List.getLast?_eq_some_getLast hne)
      rw [wordGoesOn_append ⟨_, List.getLast_mem hne, hpassed⟩]
    · rfl

/-- Lower case goes through texts one by one where it does not look across their border. -/
theorem lowercase_append {xs ys : List Char} (hxs : ∀ c ∈ xs.getLast?, IsBorder c)
    (hys : ∀ c ∈ ys.head?, IsBorder c) : lowercase (xs ++ ys) = lowercase xs ++ lowercase ys :=
  lowercaseAfter_append hxs hys false

/-! ## Where lower case does not look across -/

/-- No blank is passed over. -/
theorem isPassedOver_of_isBlank {c : Char} (h : isBlank c = true) : isPassedOver c = false := by
  have hall : blankSpans.all (fun span => passedOverSpans.apart span.1 span.2) = true := by
    decide +kernel
  obtain ⟨span, hspan, hlo, hhi⟩ := Spans.covers_iff.1 h
  exact Spans.not_covers_of_apart (List.all_eq_true.1 hall span hspan) (by omega) (by omega)

/-- The code points of the letters of formulas, and of the dot. -/
def letterSpans : Spans :=
  [(40, 57), (97, 97), (100, 100), (105, 105), (109, 110), (119, 120)]

theorem letterSpans_covers : ∀ k ∈ formulaLetters,
    letterSpans.covers k = true ∧ isPassedOver k = false := by
  have hall : formulaLetters.all (fun k => letterSpans.covers k && !isPassedOver k) = true := by
    decide +kernel
  simpa using hall

/-- Only the plain capitals become letters of formulas, and none of them is passed over. -/
theorem letterSpans_apart : ∀ run ∈ lowerRuns,
    letterSpans.apart (run.first + run.shift) (run.last + run.shift) = true ∨
      passedOverSpans.apart run.first run.last = true := by
  have hall : lowerRuns.all (fun run => letterSpans.apart (run.first + run.shift)
      (run.last + run.shift) || run.first == 65 && run.last == 90) = true := by
    decide +kernel
  have hcapitals : passedOverSpans.apart 65 90 = true := by decide +kernel
  intro run hrun
  have h := List.all_eq_true.1 hall run hrun
  rw [Bool.or_eq_true, Bool.and_eq_true, beq_iff_eq, beq_iff_eq] at h
  refine h.imp_right fun hrun => ?_
  rw [hrun.1, hrun.2]
  exact hcapitals

/-- No character that is passed over becomes a letter of formulas. -/
theorem isPassedOver_of_mem_lowerChar {c k : Char} (hk : k ∈ formulaLetters)
    (h : k ∈ lowerChar c) : isPassedOver c = false := by
  obtain ⟨hcovers, hpassed⟩ := letterSpans_covers k hk
  unfold lowerChar at h
  split at h
  · rename_i hc
    rw [hc]
    decide +kernel
  · rw [List.mem_singleton] at h
    rcases shiftAlong_eq lowerRuns c with hstay | ⟨run, hrun, hfirst, hlast, hmove⟩
    · rwa [← hstay, ← h]
    · rw [← h] at hmove
      rcases letterSpans_apart run hrun with hapart | hapart
      · -- where the run leads to lies apart
        rcases hmove with hnull | hmove
        · rw [hnull] at hcovers
          exact absurd hcovers (by decide)
        · rw [Spans.not_covers_of_apart hapart (by omega) (by omega)] at hcovers
          cases hcovers
      · exact Spans.not_covers_of_apart hapart (by omega) (by omega)

/-- What a character becomes, and that it is a border if a letter of formulas is among that. -/
theorem exists_lowered (inWord : Bool) (c : Char) (rest : List Char) :
    ∃ lowered, lowered ≠ [] ∧ lowercaseAfter inWord (c :: rest)
        = lowered ++ lowercaseAfter (if isPassedOver c then inWord else hasCase c) rest ∧
      (IsBorder c ∨ ∀ k ∈ lowered, isBlank k = false ∧ k ∉ formulaLetters) := by
  by_cases hsigma : c = 'Σ'
  · subst hsigma
    refine ⟨[if inWord && !wordGoesOn rest then 'ς' else 'σ'], List.cons_ne_nil _ _, rfl,
      .inr fun k hk => ?_⟩
    rw [List.mem_singleton] at hk
    split at hk <;> subst hk <;> decide
  · refine ⟨lowerChar c, lowerChar_ne_nil c, lowercaseAfter_cons hsigma inWord rest, ?_⟩
    cases hpassed : isPassedOver c with
    | false => exact .inl ⟨hsigma, hpassed⟩
    | true =>
      have hblank : isBlank c = false := by
        rw [Bool.eq_false_iff]
        intro hblank
        rw [isPassedOver_of_isBlank hblank] at hpassed
        cases hpassed
      refine .inr fun k hk => ⟨isBlank_of_mem_lowerChar hblank k hk, fun hletter => ?_⟩
      rw [isPassedOver_of_mem_lowerChar hletter hk] at hpassed
      cases hpassed

theorem exists_lowercaseAfter_append (inWord : Bool) (xs ys : List Char) :
    ∃ front state, lowercaseAfter inWord (xs ++ ys) = front ++ lowercaseAfter state ys := by
  induction xs generalizing inWord with
  | nil => exact ⟨[], inWord, rfl⟩
  | cons c xs ih =>
    obtain ⟨front, state, h⟩ := ih (if isPassedOver c then inWord else hasCase c)
    rw [List.cons_append, lowercaseAfter, h, ← List.append_assoc]
    exact ⟨_, state, rfl⟩

/-- A text that is written with a letter of formulas at its end ends with a border. -/
theorem isBorder_of_getLast?_marks {text : List Char} {k : Char} (hk : k ∈ formulaLetters)
    (h : (marks (lowercase text)).getLast? = some k) : ∀ c ∈ text.getLast?, IsBorder c := by
  intro c hc
  obtain ⟨front, rfl⟩ := List.getLast?_eq_some_iff.1 hc
  obtain ⟨before, state, hbefore⟩ := exists_lowercaseAfter_append false front [c]
  obtain ⟨lowered, hne, hlowered, hborder⟩ := exists_lowered state c []
  refine hborder.resolve_right fun hother => ?_
  have hmarks : marks lowered = lowered := marks_eq_self fun k hk => (hother k hk).1
  have hlast := List.getLast?_eq_some_getLast hne
  rw [lowercase, hbefore, hlowered, lowercaseAfter, List.append_nil, marks, List.filter_append,
    List.getLast?_append, ← marks, hmarks, hlast, Option.some_or] at h
  obtain rfl := Option.some.inj h
  exact (hother _ (List.getLast_mem hne)).2 hk

/-- A text that is written with a letter of formulas at its start starts with a border. -/
theorem isBorder_of_head?_marks {text : List Char} {k : Char} (hk : k ∈ formulaLetters)
    (h : (marks (lowercase text)).head? = some k) : ∀ c ∈ text.head?, IsBorder c := by
  intro c hc
  obtain ⟨rest, rfl⟩ := List.head?_eq_some_iff.1 hc
  obtain ⟨lowered, hne, hlowered, hborder⟩ := exists_lowered false c rest
  refine hborder.resolve_right fun hother => ?_
  obtain ⟨first, tail, rfl⟩ := List.exists_cons_of_ne_nil hne
  obtain ⟨hblank, hletter⟩ := hother first List.mem_cons_self
  rw [lowercase, hlowered, List.cons_append, marks, List.filter_cons_of_pos (by simp [hblank])] at h
  obtain rfl : first = k := Option.some.inj h
  exact hletter hk

end Text

/-! ## Sifting -/

theorem isBlank_of_mem_formulaLetters : ∀ c ∈ formulaLetters, Text.isBlank c = false := by
  have hall : formulaLetters.all (fun c => !Text.isBlank c) = true := by rfl
  exact fun c hc => by simpa using List.all_eq_true.1 hall c hc

/-- Sifting goes through a text from left to right. -/
theorem sifted_append (xs ys : List Char) :
    sifted (xs ++ ys) = sifted xs >>= fun letters => (sifted ys).map (letters ++ ·) := by
  induction xs with
  | nil => cases h : sifted ys <;> simp [sifted, h, bind, Except.bind, Except.map]
  | cons c rest ih =>
    rw [List.cons_append, sifted, sifted]
    split
    · rw [ih]
      cases sifted rest <;> cases sifted ys <;> rfl
    · split
      · exact ih
      · rfl

theorem sifted_append_eq_ok {xs ys letters : List Char} :
    sifted (xs ++ ys) = .ok letters ↔
      ∃ front back, sifted xs = .ok front ∧ sifted ys = .ok back ∧ letters = front ++ back := by
  rw [sifted_append, Except.bind_eq_ok]
  constructor
  · rintro ⟨front, hfront, h⟩
    obtain ⟨back, hback, rfl⟩ := Except.map_eq_ok.1 h
    exact ⟨front, back, hfront, hback, rfl⟩
  · rintro ⟨front, back, hfront, hback, rfl⟩
    exact ⟨front, hfront, Except.map_eq_ok.2 ⟨back, hback, rfl⟩⟩

/-- Nothing but blanks is dropped. -/
theorem eq_marks_of_sifted {cs letters : List Char} (h : sifted cs = .ok letters) :
    letters = Text.marks cs := by
  induction cs generalizing letters with
  | nil => exact (Except.ok.inj h).symm
  | cons c rest ih =>
    rw [sifted] at h
    split at h
    · rename_i hc
      obtain ⟨tail, htail, rfl⟩ := Except.map_eq_ok.1 h
      have hblank := isBlank_of_mem_formulaLetters c (by simpa using hc)
      simp [Text.marks, hblank, ih htail]
    · split at h
      · rename_i hblank
        simp [Text.marks, hblank, ih h]
      · cases h

/-- The letters of a text are those that it is sifted to in lower case. -/
def SiftsTo (text letters : List Char) : Prop := sifted (Text.lowercase text) = .ok letters

namespace SiftsTo

variable {text text' letters letters' : List Char}

/-- A text with letters has no capital sigma, so that each of its characters is on its own. -/
theorem iff_flatMap :
    SiftsTo text letters ↔ 'Σ' ∉ text ∧ sifted (text.flatMap Text.lowerChar) = .ok letters := by
  by_cases hsigma : 'Σ' ∈ text
  · refine iff_of_false (fun h => ?_) (fun h => h.1 hsigma)
    -- a small sigma is left, and is refused
    rw [SiftsTo, Text.lowercase] at h
    rcases Text.sigma_mem_lowercaseAfter hsigma false with hmem | hmem
    · obtain ⟨k, hk⟩ := exists_sifted_eq_badCharacter (by decide) (by decide) hmem
      rw [hk] at h
      cases h
    · obtain ⟨k, hk⟩ := exists_sifted_eq_badCharacter (by decide) (by decide) hmem
      rw [hk] at h
      cases h
  · rw [SiftsTo, Text.lowercase, Text.lowercaseAfter_eq_flatMap hsigma, and_iff_right hsigma]

/-- The letters of two texts side by side are those of the first and then those of the second. -/
theorem append (h : SiftsTo text letters) (h' : SiftsTo text' letters') :
    SiftsTo (text ++ text') (letters ++ letters') := by
  rw [iff_flatMap] at h h' ⊢
  rw [List.flatMap_append, List.mem_append, not_or]
  exact ⟨⟨h.1, h'.1⟩, sifted_append_eq_ok.2 ⟨letters, letters', h.2, h'.2, rfl⟩⟩

/-- What is written in the letters of formulas is its own letters. -/
theorem of_letters (h : ∀ c ∈ letters, c ∈ formulaLetters) : SiftsTo letters letters :=
  sifted_lowercase_of_forall h

theorem separator (joint : Joint) : SiftsTo joint.separator joint.separator :=
  .of_letters (mem_formulaLetters_of_all (by cases joint <;> rfl))

/-- A minus sign in front of a text is one in front of its letters. -/
theorem signed (h : SiftsTo text letters) : SiftsTo ('-' :: text) ('-' :: letters) := by
  have hminus : SiftsTo ['-'] ['-'] := .of_letters (mem_formulaLetters_of_all rfl)
  exact hminus.append h

theorem closed (h : SiftsTo text letters) : SiftsTo (text ++ [')']) (letters ++ [')']) :=
  h.append (.of_letters (mem_formulaLetters_of_all rfl))

/-- Brackets around a text are brackets around its letters. -/
theorem brackets (h : SiftsTo text letters) :
    SiftsTo ('(' :: text ++ [')']) ('(' :: letters ++ [')']) := by
  have hopening : SiftsTo ['('] ['('] := .of_letters (mem_formulaLetters_of_all rfl)
  exact (hopening.append h).closed

/-- Each mark of a text is a letter in lower case, and there are no other letters. -/
theorem eq_marks (h : SiftsTo text letters) :
    letters = (Text.marks text).flatMap Text.lowerChar := by
  rw [← Text.marks_flatMap_lowerChar]
  exact eq_marks_of_sifted (iff_flatMap.1 h).2

end SiftsTo

/-- Letters that end with a plus sign are those of a text whose last mark is one. -/
theorem SiftsTo.lastMark?_eq_plus {text : String} {letters : List Char}
    (h : SiftsTo text.toList letters) (hlast : letters.getLast? = some '+') :
    Text.lastMark? text = some '+' := by
  rw [h.eq_marks] at hlast
  rw [Text.lastMark?]
  rcases List.eq_nil_or_concat (Text.marks text.toList) with hnil | ⟨front, c, hmarks⟩
  · rw [hnil] at hlast
    cases hlast
  · -- only a plus sign has one in its lower case
    have hlower : (Text.lowerChar c).getLast? = some '+' := by
      rw [hmarks, List.concat_eq_append, List.flatMap_append, List.flatMap_singleton,
        List.getLast?_append, List.getLast?_eq_some_getLast (Text.lowerChar_ne_nil c),
        Option.some_or] at hlast
      rw [List.getLast?_eq_some_getLast (Text.lowerChar_ne_nil c), hlast]
    rw [hmarks, List.concat_eq_append, List.getLast?_concat, Text.eq_of_mem_lowerChar
      (Text.unmoved_covers (.inl rfl)) (List.mem_of_getLast? hlower)]

end DiceLaw
