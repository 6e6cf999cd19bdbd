import DiceLaw.Proofs.Grammar.Derivation

/-!
# One round of grouping

Grouping finds the outline of a sequence and goes on with the parts of it. This module says what a
round does without its search: which sequences have which outline.

## Main definitions

* `Grouping.ofOutline`: how grouping goes on from an outline
* `Outline.Shows`: the sequences that show an outline

## Main results

* `Grouping.ofSymbols_eq_bind`: grouping is one round, and then the parts
* `Outline.shows_of_outline`: an outline that was found is shown by the sequence
-/

namespace DiceLaw

open Level

namespace Grouping

/-- How grouping goes on from an outline. -/
def ofOutline : Outline → Except ReadError Grouping
  | .operand s => .ok (.leaf s)
  | .inside rest => ofSymbols rest
  | .parts joint segments => (segments.mapM ofSymbols).map (.node joint)

/-- Grouping finds an outline and goes on from there. -/
theorem ofSymbols_eq_bind (symbols : List Symbol) :
    ofSymbols symbols = (outline symbols).bind ofOutline := by
  -- the recursion goes through the attached list of segments, which is taken off again
  rw [ofSymbols]
  split <;> rename_i heq <;> rw [heq]
  · rfl
  · rfl
  · rfl
  · rw [List.mapM_subtype (g := ofSymbols) (fun _ _ => rfl), List.unattach_attach]
    rfl

theorem ofSymbols_of_outline {symbols : List Symbol} {o : Outline} (h : outline symbols = .ok o) :
    ofSymbols symbols = ofOutline o := by
  rw [ofSymbols_eq_bind, h]
  rfl

end Grouping

theorem outline_of_two_le {symbols : List Symbol} (h : 2 ≤ symbols.length) :
    outline symbols = (firstOccurring symbols precedence).bind fun
      | some operator => (split operator.1 symbols).map (.parts operator.2)
      | none =>
        match bracketed? symbols with
        | some (m, rest) => outlineInside m rest
        | none => .error (.unreadable symbols) := by
  match symbols, h with
  | _ :: _ :: _, _ => rfl

theorem bracketed_enclosed {m : Marker} (h : m.opens = true) (symbols : List Symbol) :
    bracketed? (.marker m :: symbols ++ [.marker .closing]) = some (m, symbols) := by
  simp [bracketed?, h]

theorem eq_of_bracketed {symbols rest : List Symbol} {m : Marker}
    (h : bracketed? symbols = some (m, rest)) :
    m.opens = true ∧ symbols = .marker m :: rest ++ [.marker .closing] := by
  unfold bracketed? at h
  split at h
  · rename_i k tail
    split at h
    · rename_i hk
      obtain ⟨rfl, rfl⟩ := Prod.mk.inj (Option.some.inj h)
      simp only [Bool.and_eq_true, beq_iff_eq] at hk
      obtain ⟨inner, rfl⟩ := List.getLast?_eq_some_iff.1 hk.2
      exact ⟨hk.1, by simp⟩
    · cases h
  · cases h

theorem outline_operand {s : Symbol} (h : s.isOperand = true) : outline [s] = .ok (.operand s) := by
  simp [outline, h]

/-- Operators that do not occur are passed over. -/
theorem firstOccurring_append {symbols : List Symbol} {looser : List (Marker × Joint)}
    (h : ∀ operator ∈ looser, Level.contains operator.1 symbols = .ok false)
    (operators : List (Marker × Joint)) :
    firstOccurring symbols (looser ++ operators) = firstOccurring symbols operators := by
  induction looser with
  | nil => rfl
  | cons operator looser ih =>
    rw [List.cons_append, firstOccurring, h operator List.mem_cons_self]
    exact ih fun k hk => h k (List.mem_cons_of_mem _ hk)

/-- All operators in front of the first one that occurs are looser, and do not occur. -/
theorem exists_looser_of_firstOccurring {symbols : List Symbol} {operators : List (Marker × Joint)}
    {operator : Marker × Joint} (h : firstOccurring symbols operators = .ok (some operator)) :
    ∃ looser tighter, operators = looser ++ operator :: tighter ∧
      ∀ k ∈ looser, Level.contains k.1 symbols = .ok false := by
  induction operators with
  | nil => cases h
  | cons head tighter ih =>
    rw [firstOccurring] at h
    obtain ⟨found, hc, h⟩ := Except.bind_eq_ok.1 h
    cases found with
    | true =>
      obtain rfl := Option.some.inj (Except.ok.inj h)
      exact ⟨[], tighter, rfl, by simp⟩
    | false =>
      obtain ⟨looser, rest, rfl, hlooser⟩ := ih h
      refine ⟨head :: looser, rest, rfl, fun k hk => ?_⟩
      rcases List.mem_cons.1 hk with rfl | hk
      · exact hc
      · exact hlooser k hk

/-! ## What an outline shows -/

/-- The sequences that show an outline. -/
inductive Outline.Shows : List Symbol → Outline → Prop
  | operand {s : Symbol} (h : s.isOperand = true) : Shows [s] (.operand s)
  | inside (rest : List Symbol) :
      Shows (.marker .opening :: rest ++ [.marker .closing]) (.inside rest)
  | maximum {rest : List Symbol} {segments : List (List Symbol)}
      (h : Level.split .comma rest = .ok segments) :
      Shows (.marker .maxOpening :: rest ++ [.marker .closing]) (.parts .max segments)
  | minimum {rest : List Symbol} {segments : List (List Symbol)}
      (h : Level.split .comma rest = .ok segments) :
      Shows (.marker .minOpening :: rest ++ [.marker .closing]) (.parts .min segments)
  /-- The operator occurs outside brackets, and none that is looser does. -/
  | operator {joint : Joint} {symbols : List Symbol} {segments : List (List Symbol)}
      (hj : joint.isSelection = false)
      (absent : ∀ m ∈ (Category.series joint).barred, m ≠ .comma →
        Level.contains m symbols = .ok false)
      (occurs : Level.contains joint.marker symbols = .ok true)
      (h : Level.split joint.marker symbols = .ok segments) : Shows symbols (.parts joint segments)

/-- In the precedence, the operators in front of one are those that its series bars. -/
theorem mem_looser_of_precedence {looser tighter : List (Marker × Joint)}
    {operator : Marker × Joint} (h : precedence = looser ++ operator :: tighter) :
    operator.1 = operator.2.marker ∧ operator.2.isSelection = false ∧
      ∀ m ∈ (Category.series operator.2).barred, m ≠ .comma → ∃ k ∈ looser, k.1 = m := by
  -- the operator is the first, the second, the third or the fourth of the precedence
  rcases looser with _ | ⟨a, _ | ⟨b, _ | ⟨c, _ | ⟨d, looser⟩⟩⟩⟩ <;> simp [precedence] at h
  · obtain ⟨rfl, -⟩ := h
    simp [Joint.marker, Joint.isSelection, Category.barred]
  · obtain ⟨rfl, rfl, -⟩ := h
    simp [Joint.marker, Joint.isSelection, Category.barred]
  · obtain ⟨rfl, rfl, rfl, -⟩ := h
    simp [Joint.marker, Joint.isSelection, Category.barred]
  · obtain ⟨rfl, rfl, rfl, rfl, -⟩ := h
    simp [Joint.marker, Joint.isSelection, Category.barred]

theorem shows_of_outlineInside {m : Marker} {rest : List Symbol} {o : Outline}
    (hm : m.opens = true) (h : outlineInside m rest = .ok o) :
    o.Shows (.marker m :: rest ++ [.marker .closing]) := by
  cases m with
  | opening =>
    obtain rfl := Except.ok.inj h
    exact .inside rest
  | maxOpening =>
    obtain ⟨segments, hs, rfl⟩ := Except.map_eq_ok.1 h
    exact .maximum hs
  | minOpening =>
    obtain ⟨segments, hs, rfl⟩ := Except.map_eq_ok.1 h
    exact .minimum hs
  | _ => cases hm

/-- An outline that was found is shown by the sequence. -/
theorem Outline.shows_of_outline {symbols : List Symbol} {o : Outline}
    (h : outline symbols = .ok o) : o.Shows symbols := by
  match symbols with
  | [] => cases h
  | [s] =>
    rw [outline] at h
    split at h
    · obtain rfl := Except.ok.inj h
      exact .operand ‹_›
    · cases h
  | first :: second :: tail =>
    rw [outline_of_two_le (by simp)] at h
    obtain ⟨found, hf, h⟩ := Except.bind_eq_ok.1 h
    cases found with
    | some operator =>
      -- an operator occurs: those in front of it in the precedence do not
      obtain ⟨looser, tighter, hprecedence, habsent⟩ := exists_looser_of_firstOccurring hf
      obtain ⟨hmarker, hj, hlooser⟩ := mem_looser_of_precedence hprecedence
      have hoccurs := contains_of_firstOccurring hf
      obtain ⟨m, joint⟩ := operator
      obtain rfl : m = joint.marker := hmarker
      obtain ⟨segments, hs, rfl⟩ := Except.map_eq_ok.1 h
      refine .operator hj (fun m hm hcomma => ?_) hoccurs hs
      obtain ⟨k, hk, rfl⟩ := hlooser m hm hcomma
      exact habsent k hk
    | none =>
      -- no operator occurs: the first and the last symbol are brackets
      cases hb : bracketed? (first :: second :: tail) with
      | none => simp [hb] at h
      | some p =>
        obtain ⟨hm, hsymbols⟩ := eq_of_bracketed hb
        rw [hsymbols]
        exact shows_of_outlineInside hm (by simpa [hb] using h)

end DiceLaw
