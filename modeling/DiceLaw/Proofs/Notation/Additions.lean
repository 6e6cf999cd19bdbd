import DiceLaw.Proofs.Notation.Brackets

/-!
# The additions that are left

An addition stays between the end of an operand and something else. Each one is judged by the
symbols next to it before any is dropped. So the symbol in front of an addition that is left is
always the end of an operand, but what was behind it may have been dropped itself. This happens only
with several plus signs at the end of a text, right behind an operand: the first of them stays, and
nothing is left for it to add.

## Main definitions

* `Symbol.AddsFollow`: the additions have the end of an operand in front of them
* `Symbol.AddsBetween`: they also have something behind them

## Main results

* `Symbol.dropEmptyAddsAfter_eq_self_iff`: when nothing is dropped
* `Symbol.getLast?_scan_iff`: what is left of plus signs at the end
* `Symbol.ofText_adds`: the additions of a text
-/

namespace DiceLaw

namespace Symbol

/-! ## Dropping additions -/

/-- The symbol in front of each addition ends an operand; the flag stands for the symbol in front of
them all. -/
def AddsFollow (afterOperand : Bool) (symbols : List Symbol) : Prop :=
  ∀ front back, symbols = front ++ .marker .add :: back →
    (front.getLast?.map endsOperand).getD afterOperand = true

/-- Each addition stands right behind the end of an operand, and in front of something. -/
def AddsBetween (symbols : List Symbol) : Prop :=
  ∀ front back, symbols = front ++ .marker .add :: back →
    (∃ s ∈ front.getLast?, s.endsOperand = true) ∧ back ≠ []

section Dropping

variable {afterOperand : Bool} {s : Symbol} {front rest symbols : List Symbol}

theorem addsFollow_nil : AddsFollow afterOperand [] := by
  intro front back h
  cases front <;> cases h

theorem addsFollow_cons :
    AddsFollow afterOperand (s :: rest) ↔
      (s = .marker .add → afterOperand = true) ∧ AddsFollow s.endsOperand rest := by
  constructor
  · intro h
    refine ⟨fun hs => h [] rest (by rw [hs]; rfl), fun front back hrest => ?_⟩
    have hnext := h (s :: front) back (by rw [hrest]; rfl)
    rw [List.getLast?_cons] at hnext
    cases hlast : front.getLast? <;> simpa [hlast] using hnext
  · rintro ⟨hs, hrest⟩ front back h
    cases front with
    | nil => exact hs (List.cons.inj h).1
    | cons k front =>
      obtain ⟨rfl, htail⟩ := List.cons.inj h
      have hnext := hrest front back htail
      rw [List.getLast?_cons]
      cases hlast : front.getLast? <;> simpa [hlast] using hnext

/-- The end of an operand in front of them allows for one addition more. -/
theorem AddsFollow.mono (h : AddsFollow false symbols) : AddsFollow afterOperand symbols := by
  cases symbols with
  | nil => exact addsFollow_nil
  | cons s rest =>
    rw [addsFollow_cons] at h ⊢
    exact ⟨fun hs => absurd (h.1 hs) Bool.false_ne_true, h.2⟩

theorem AddsFollow.exists_last (h : AddsFollow false symbols)
    (hsymbols : symbols = front ++ .marker .add :: rest) :
    ∃ s ∈ front.getLast?, s.endsOperand = true := by
  have hends := h front rest hsymbols
  cases hfront : front.getLast? with
  | none => simp [hfront] at hends
  | some s => exact ⟨s, rfl, by simpa [hfront] using hends⟩

theorem addsBetween_iff :
    AddsBetween symbols ↔
      AddsFollow false symbols ∧ symbols.getLast? ≠ some (.marker .add) := by
  constructor
  · intro h
    refine ⟨fun front back hsymbols => ?_, fun hlast => ?_⟩
    · obtain ⟨s, hs, hends⟩ := (h front back hsymbols).1
      simp [Option.mem_def.1 hs, hends]
    · obtain ⟨front, hsymbols⟩ := List.getLast?_eq_some_iff.1 hlast
      exact (h front [] hsymbols).2 rfl
  · rintro ⟨hfollow, hlast⟩ front back rfl
    refine ⟨hfollow.exists_last rfl, ?_⟩
    rintro rfl
    exact hlast List.getLast?_concat

/-- Whatever is dropped, an addition that is left follows the end of an operand: that was in front
of it before. -/
theorem addsFollow_dropEmptyAddsAfter (afterOperand : Bool) (symbols : List Symbol) :
    AddsFollow afterOperand (dropEmptyAddsAfter afterOperand symbols) := by
  induction symbols generalizing afterOperand with
  | nil => exact addsFollow_nil
  | cons s rest ih =>
    rw [dropEmptyAddsAfter]
    split
    · exact (ih false).mono
    · rename_i hkept
      rw [addsFollow_cons]
      refine ⟨fun hs => ?_, ih s.endsOperand⟩
      simp only [hs, decide_true, Bool.true_and, Bool.or_eq_true, not_or] at hkept
      simpa using hkept.2

/-- Nothing is dropped exactly where each addition follows the end of an operand, and none is the
last symbol. -/
theorem dropEmptyAddsAfter_eq_self_iff :
    dropEmptyAddsAfter afterOperand symbols = symbols ↔
      AddsFollow afterOperand symbols ∧ symbols.getLast? ≠ some (.marker .add) := by
  induction symbols generalizing afterOperand with
  | nil => exact iff_of_true rfl ⟨addsFollow_nil, nofun⟩
  | cons s rest ih =>
    rw [dropEmptyAddsAfter, addsFollow_cons]
    split
    · rename_i hdrop
      rw [Bool.and_eq_true, Bool.or_eq_true, decide_eq_true_eq, List.isEmpty_iff] at hdrop
      obtain ⟨rfl, hrest⟩ := hdrop
      refine iff_of_false (fun h => ?_) ?_
      · -- what is dropped is missing
        have hlen := (dropEmptyAddsAfter_sublist false rest).length_le
        rw [h, List.length_cons] at hlen
        omega
      · rintro ⟨⟨hafter, -⟩, hlast⟩
        rcases hrest with rfl | hrest
        · exact hlast rfl
        · simp [hafter rfl] at hrest
    · rename_i hkept
      rw [List.cons.injEq, and_iff_right rfl, ih]
      cases rest with
      | nil => simp_all
      | cons k rest => simp_all

theorem dropEmptyAdds_eq_self_iff : dropEmptyAdds symbols = symbols ↔ AddsBetween symbols := by
  rw [dropEmptyAdds, dropEmptyAddsAfter_eq_self_iff, addsBetween_iff]

/-- Where additions follow the ends of operands, only one at the very end is dropped. -/
theorem AddsFollow.dropEmptyAddsAfter_snoc
    (h : AddsFollow afterOperand (front ++ [.marker .add])) :
    dropEmptyAddsAfter afterOperand (front ++ [.marker .add]) = front := by
  induction front generalizing afterOperand with
  | nil => simp [dropEmptyAddsAfter]
  | cons s front ih =>
    rw [List.cons_append, addsFollow_cons] at h
    rw [List.cons_append, dropEmptyAddsAfter, if_neg, ih h.2]
    rw [Bool.and_eq_true, decide_eq_true_eq, Bool.or_eq_true]
    rintro ⟨hs, hdrop⟩
    simp [h.1 hs] at hdrop

/-- Once that one is dropped as well, every addition has something on both sides. -/
theorem addsBetween_dropEmptyAdds (h : AddsFollow false symbols) :
    AddsBetween (dropEmptyAdds symbols) := by
  refine addsBetween_iff.2 ⟨addsFollow_dropEmptyAddsAfter false symbols, fun hlast => ?_⟩
  by_cases hend : symbols.getLast? = some (.marker .add)
  · obtain ⟨front, rfl⟩ := List.getLast?_eq_some_iff.1 hend
    rw [dropEmptyAdds, h.dropEmptyAddsAfter_snoc] at hlast
    -- an addition in front of the last one does not end an operand
    have hfollow := h front [] rfl
    rw [hlast] at hfollow
    cases hfollow
  · rw [dropEmptyAdds, dropEmptyAddsAfter_eq_self_iff.2 ⟨h, hend⟩] at hlast
    exact hend hlast

/-- Of additions in a row the first one is left, if it follows the end of an operand and is not the
last one. -/
theorem dropEmptyAddsAfter_replicate (afterOperand : Bool) (k : Nat) :
    dropEmptyAddsAfter afterOperand (List.replicate k (.marker .add))
      = if afterOperand = true ∧ 2 ≤ k then [.marker .add] else [] := by
  have hnone : ∀ k, dropEmptyAddsAfter false (List.replicate k (.marker .add)) = [] := by
    intro k
    induction k with
    | zero => rfl
    | succ k ih => simp [List.replicate_succ, dropEmptyAddsAfter, ih]
  cases afterOperand with
  | false => rw [hnone, if_neg (by simp)]
  | true =>
    by_cases hk : 2 ≤ k
    · -- the second one is still behind the first when this is judged
      obtain ⟨k, rfl⟩ := Nat.exists_eq_add_of_le' hk
      have hothers :
          dropEmptyAddsAfter false (.marker .add :: List.replicate k (.marker .add)) = [] :=
        hnone (k + 1)
      rw [List.replicate_succ, List.replicate_succ, dropEmptyAddsAfter, if_neg (by simp),
        if_pos ⟨rfl, hk⟩]
      exact congrArg _ hothers
    · rw [if_neg fun h => hk h.2]
      obtain rfl | rfl : k = 0 ∨ k = 1 := by omega
      · rfl
      · rfl

end Dropping

end Symbol

/-! ## Plus signs at the end of a text -/

namespace Token

theorem ofLetters_plusses (letters : List Char) (k : Nat) :
    ofLetters (letters ++ List.replicate k '+')
      = ofLetters letters ++ List.replicate k (.marker .add) := by
  have halone : ∀ k, ofLetters (List.replicate k '+') = List.replicate k (.marker .add) := by
    intro k
    induction k with
    | zero => exact ofLetters_nil
    | succ k ih =>
      rw [List.replicate_succ, ofLetters_letter (by decide) (by decide), ih]
      rfl
  cases k with
  | zero => simp
  | succ k => rw [List.replicate_succ, ofLetters_append_plus, ← List.replicate_succ, halone]

theorem explicit_plusses (tokens : List Token) (k : Nat) :
    explicit (tokens ++ List.replicate k (.marker .add))
      = explicit tokens ++ List.replicate k (.marker .add) := by
  have halone : ∀ k, explicit (List.replicate k (.marker .add))
      = List.replicate k (.marker .add) := by
    intro k
    induction k with
    | zero => rfl
    | succ k ih =>
      rw [List.replicate_succ, explicit_cons fun u _ => juxtaposed_marker (by decide) u, ih]
  rw [explicit_append, halone]
  intro u hu
  rw [List.mem_replicate.1 (List.mem_of_head? hu) |>.2]
  rfl

end Token

namespace Symbol

theorem ofTokens_plusses (tokens : List Token) (k : Nat) :
    ofTokens (tokens ++ List.replicate k (.marker .add))
      = (ofTokens tokens).map (· ++ List.replicate k (.marker .add)) := by
  have halone : ∀ k, ofTokens (List.replicate k (.marker .add))
      = .ok (List.replicate k (.marker .add)) := by
    intro k
    induction k with
    | zero => exact ofTokens.eq_1
    | succ k ih => rw [List.replicate_succ, ofTokens_marker, ih]; rfl
  cases k with
  | zero => cases h : ofTokens tokens <;> simp [h, Except.map]
  | succ k =>
    rw [List.replicate_succ, ofTokens_append_marker, halone]
    cases ofTokens tokens <;> rfl

/-- Plus signs at the end of letters leave an addition at the end of the symbols exactly if they are
two or more, right behind a digit or a closing bracket. -/
theorem getLast?_scan_plusses {letters : List Char} {k : Nat} {symbols : List Symbol}
    (hplus : letters.getLast? ≠ some '+')
    (h : scan false (letters ++ List.replicate k '+') = .ok symbols) :
    symbols.getLast? = some (.marker .add) ↔
      2 ≤ k ∧ ∃ c ∈ letters.getLast?, c.isDigit = true ∨ c = ')' := by
  rw [scan, scanTokens, Token.ofLetters_plusses, Token.explicit_plusses, ofTokens_plusses,
    Except.map_comp] at h
  obtain ⟨raw, hraw, rfl⟩ := Except.map_eq_ok.1 h
  rcases List.eq_nil_or_concat raw with rfl | ⟨front, s, rfl⟩
  · -- without other letters all of them are dropped
    have hletters : letters = [] := by
      by_contra hne
      exact ofTokens_ne_nil (Token.explicit_ne_nil (Token.ofLetters_ne_nil hne)) hraw rfl
    rw [hletters, List.nil_append, dropEmptyAddsAfter_replicate]
    simp
  · rw [List.concat_eq_append] at hraw ⊢
    obtain ⟨c, hc, hadd, hends⟩ := exists_last_letter hraw
    have hs : s ≠ .marker .add := fun hs => hplus (hadd.1 hs ▸ hc)
    obtain ⟨kept, hkept⟩ := dropEmptyAddsAfter_append hs front false
    rw [List.append_assoc, List.singleton_append, hkept, dropEmptyAddsAfter_replicate, hc]
    by_cases hleft : s.endsOperand = true ∧ 2 ≤ k
    · rw [if_pos hleft]
      exact iff_of_true (by simp) ⟨hleft.2, c, rfl, hends.1 hleft.1⟩
    · rw [if_neg hleft]
      refine iff_of_false (by simpa using hs) ?_
      rintro ⟨hk, _, ⟨⟩, hc⟩
      exact hleft ⟨hends.2 hc, hk⟩

/-- Letters end with some number of plus signs. -/
theorem exists_plusses (letters : List Char) :
    ∃ front k, letters = front ++ List.replicate k '+' ∧ front.getLast? ≠ some '+' := by
  induction letters using List.reverseRecOn with
  | nil => exact ⟨[], 0, rfl, nofun⟩
  | append_singleton letters c ih =>
    by_cases hc : c = '+'
    · obtain ⟨front, k, rfl, hfront⟩ := ih
      exact ⟨front, k + 1, by rw [hc, List.append_assoc, List.replicate_succ'], hfront⟩
    · exact ⟨letters ++ [c], 0, by simp, by simpa using hc⟩

/-- The last symbol that is scanned is an addition exactly if the letters end with several plus
signs behind a digit or a closing bracket. -/
theorem getLast?_scan_iff {letters : List Char} {symbols : List Symbol}
    (h : scan false letters = .ok symbols) :
    symbols.getLast? = some (.marker .add) ↔ ∃ front c k,
      letters = front ++ c :: List.replicate (k + 2) '+' ∧ (c.isDigit = true ∨ c = ')') := by
  constructor
  · intro hlast
    obtain ⟨front, k, rfl, hfront⟩ := exists_plusses letters
    obtain ⟨hk, c, hc, hends⟩ := (getLast?_scan_plusses hfront h).1 hlast
    obtain ⟨front, rfl⟩ := List.getLast?_eq_some_iff.1 hc
    exact ⟨front, c, k - 2, by rw [Nat.sub_add_cancel hk]; simp, hends⟩
  · rintro ⟨front, c, k, rfl, hends⟩
    have hplus : (front ++ [c]).getLast? ≠ some '+' := by
      rintro hc
      obtain rfl : c = '+' := by simpa using hc
      exact absurd hends (by decide)
    rw [List.append_cons] at h
    exact (getLast?_scan_plusses hplus h).2 ⟨by omega, c, List.getLast?_concat, hends⟩

/-- In the symbols of a text each addition follows the end of an operand. Each one also has
something behind it, unless the text ends with several plus signs right behind a digit or a closing
bracket; then one addition is left at the end. Dropping the additions with nothing to add once more
changes nothing exactly if there is none, and leaves none in any case. -/
theorem ofText_adds {text : String} {symbols : List Symbol} (h : ofText text = .ok symbols) :
    (∀ front back, symbols = front ++ .marker .add :: back →
      ∃ s ∈ front.getLast?, s.endsOperand = true) ∧
    (AddsBetween symbols ↔ ¬ ∃ front c k, Text.written text
      = front ++ c :: List.replicate (k + 2) '+' ∧ (c.isDigit = true ∨ c = ')')) ∧
    (dropEmptyAdds symbols = symbols ↔ AddsBetween symbols) ∧
    AddsBetween (dropEmptyAdds symbols) := by
  obtain ⟨letters, hletters, hscan⟩ := exists_siftsTo_of_ofText h
  have hwritten : Text.written text = letters := (eq_marks_of_sifted hletters).symm
  have hfollow : AddsFollow false symbols := by
    obtain ⟨raw, -, rfl⟩ := Except.map_eq_ok.1 hscan
    exact addsFollow_dropEmptyAddsAfter false raw
  refine ⟨fun front back => hfollow.exists_last, ?_, dropEmptyAdds_eq_self_iff,
    addsBetween_dropEmptyAdds hfollow⟩
  rw [addsBetween_iff, and_iff_right hfollow, hwritten, not_iff_not, getLast?_scan_iff hscan]

/-- Of two plus signs at the end of a text one is left. -/
theorem ofText_adds_of_two_plusses :
    ofText "3++" = .ok [.constant 3, .marker .add] ∧
      ¬ AddsBetween [.constant 3, .marker .add] ∧
      dropEmptyAdds [.constant 3, .marker .add] ≠ [.constant 3, .marker .add] ∧
      AddsBetween [.constant 3] := by
  have h : ofText "3++" = .ok [.constant 3, .marker .add] := rfl
  obtain ⟨-, hbetween, hagain, hleft⟩ := ofText_adds h
  have hnot : ¬ AddsBetween [.constant 3, .marker .add] := fun hall =>
    hbetween.1 hall ⟨[], '3', 0, by decide, .inl rfl⟩
  exact ⟨h, hnot, fun hsame => hnot (hagain.1 hsame), hleft⟩

end Symbol

end DiceLaw
