import DiceLaw.Formula.Law
import DiceLaw.Proofs.Notation.RoundTrip
import DiceLaw.Table.Lemmas

/-!
# What is written keeps its meaning

The formula that is read from the text of another need not be the same, but it has the same law, or
fails to have one for the same cause: the law of a product with minus one is sure where the law of a
negative number is, and a table alone is not changed by an operator. What is written with a word
that formulas do not use is not read at all.

## Main definitions

* `LawError.IsRaised`: the causes for which a formula has no law
* `Formula.Worded`: an absolute value or an exploding roll stands in the formula

## Main results

* `Formula.Notated.law_normal`: the normal form has the law of the formula
* `Formula.law_eq_error`: why a formula has no law
* `Formula.Worded.ofText_text`: formulas with words are refused
* `Formula.text_keeps_law`: all this about the text of a formula
-/

namespace DiceLaw

/-! ## Laws of tables -/

namespace Table

/-- A product of sure outcomes is sure. -/
theorem convolveAll_product_sure (a b : Int) :
    convolveAll .product [sure a, sure b] = .ok (sure (a * b)) := by
  have hfails : ∀ v, Operator.product.failsOn v = false := fun _ => rfl
  show (convolve .product (sure a) (sure b) >>= pure) = _
  rw [bind_pure, convolve, if_neg (by simp [meetsFailure, hfails]), combine_sure]
  rfl

/-- Tables are taken together until two of them fail. -/
theorem chain_eq_error {f : Table → Table → Except LawError Table} {P : LawError → Prop}
    (hf : ∀ a b e, f a b = .error e → P e) {first : Table} {rest : List Table} {e : LawError}
    (h : chain f (first :: rest) = .error e) : P e := by
  -- the first two tables are taken together, and the result with the rest
  induction rest generalizing first with
  | nil => cases h
  | cons next rest ih =>
    rcases Except.bind_eq_error.1 h with hnext | ⟨t, -, h⟩
    · exact hf first next e hnext
    · exact ih h

end Table

/-- The causes for which a formula has no law. -/
def LawError.IsRaised (e : LawError) : Prop :=
  e = .divisionByZero ∨ ∃ n < 0, e = .negativeCount n

namespace Joint

/-- A table alone is not changed. -/
theorem law_singleton (joint : Joint) (t : Table) : joint.law [t] = .ok t := by
  cases joint <;> rfl

/-- Tables that are joined fail by a division by zero or by a negative count. -/
theorem law_eq_error {joint : Joint} {first : Table} {rest : List Table} {e : LawError}
    (h : joint.law (first :: rest) = .error e) : e.IsRaised := by
  have hconvolve : ∀ op a b e, Table.convolve op a b = .error e → LawError.IsRaised e := by
    intro op a b e h
    rw [Table.convolve] at h
    split at h
    · exact .inl (Except.error.inj h).symm
    · cases h
  have hsample : ∀ a b e, Table.sampleSum a b = .error e → LawError.IsRaised e := by
    intro a b e h
    rw [Table.sampleSum] at h
    split at h
    · split at h
      · rename_i hneg
        exact .inr ⟨_, hneg, (Except.error.inj h).symm⟩
      · cases h
    · cases h
  -- all joints but one convolve the tables under an operator
  cases joint with
  | sampleSum => exact Table.chain_eq_error hsample h
  | _ => exact Table.chain_eq_error (hconvolve _) h

end Joint

namespace Formula

/-! ## The law of a normal form -/

theorem law_join (joint : Joint) (first : Formula) (rest : List Formula) :
    law (.join joint first rest)
      = law first >>= fun t => laws rest >>= fun ts => joint.law (t :: ts) := by
  rw [law]

/-- A joint of one part has the law of the part. -/
theorem law_lone (joint : Joint) (first : Formula) : law (.join joint first []) = law first := by
  rw [law_join]
  cases law first with
  | error e => rfl
  | ok t => exact joint.law_singleton t

/-- Minus one times a number is the negative number. -/
theorem law_negative (value : Int) :
    law (.join .product (.constant (-1)) [.constant (-value)]) = law (.constant value) := by
  show Table.convolveAll .product [.sure (-1), .sure (-value)] = .ok (.sure value)
  rw [Table.convolveAll_product_sure, Int.neg_mul_neg, Int.one_mul]

theorem laws_normals {rest : List Formula} (h : ∀ part ∈ rest, law (normal part) = law part) :
    laws (normals rest) = laws rest := by
  induction rest with
  | nil => rfl
  | cons part rest ih =>
    rw [normals, laws, laws, h part List.mem_cons_self,
      ih fun p hp => h p (List.mem_cons_of_mem _ hp)]

/-- The normal form of a formula has the law of the formula. -/
theorem Notated.law_normal {f : Formula} (h : Notated f) : law (normal f) = law f := by
  induction h with
  | constant value =>
    rw [normal]
    split
    · exact law_negative value
    · rfl
  | die => rfl
  | @join joint first rest _ _ ihFirst ihRest =>
    rw [normal]
    split
    · rename_i hlone
      rw [hlone.2, law_lone, ihFirst]
    · -- minus one in front of a product is left as it is
      split
      · rw [law_join, law_join, laws_normals ihRest]
      · rw [law_join, law_join, ihFirst, laws_normals ihRest]

theorem laws_eq_error {rest : List Formula} {e : LawError}
    (hrest : ∀ part ∈ rest, ∀ e, law part = .error e → e.IsRaised)
    (h : laws rest = .error e) : e.IsRaised := by
  induction rest with
  | nil => cases h
  | cons part rest ih =>
    rw [laws] at h
    rcases Except.bind_eq_error.1 h with hpart | ⟨t, -, h⟩
    · exact hrest part List.mem_cons_self e hpart
    · rcases Except.bind_eq_error.1 h with hothers | ⟨ts, -, h⟩
      · exact ih (fun p hp => hrest p (List.mem_cons_of_mem _ hp)) hothers
      · cases h

/-- A formula that can be written has a law, but for divisions by zero and negative counts. -/
theorem Notated.law_eq_error {f : Formula} (h : Notated f) {e : LawError}
    (he : law f = .error e) : e.IsRaised := by
  induction h generalizing e with
  | constant value => cases he
  | die => cases he
  | @join joint first rest _ _ ihFirst ihRest =>
    -- the first failure is that of a part, or that of the joint over the laws of all parts
    rw [law_join] at he
    rcases Except.bind_eq_error.1 he with hfirst | ⟨t, -, he⟩
    · exact ihFirst hfirst
    · rcases Except.bind_eq_error.1 he with hparts | ⟨ts, -, he⟩
      · exact laws_eq_error (fun part hpart e => ihRest part hpart) hparts
      · exact joint.law_eq_error he

/-! ## Words that formulas do not use -/

/-- An absolute value or an exploding roll stands in the formula. -/
inductive Worded : Formula → Prop
  | absolute (body : Formula) : Worded (.absolute body)
  | explode (body : Formula) (threshold : Option Int) (limit : Nat) :
      Worded (.explode body threshold limit)
  | first {joint : Joint} {first : Formula} {rest : List Formula} (h : Worded first) :
      Worded (.join joint first rest)
  | rest {joint : Joint} {first : Formula} {rest : List Formula} {part : Formula}
      (hpart : part ∈ rest) (h : Worded part) : Worded (.join joint first rest)

/-- A letter of the word stands in the text, and formulas do not use it. -/
theorem Worded.exists_letter {f : Formula} (h : Worded f) :
    ∃ c ∈ ['b', 'e'], c ∈ chars f := by
  induction h with
  | absolute body => exact ⟨'b', by simp, by simp [chars_absolute]⟩
  | explode body threshold limit => exact ⟨'e', by simp, by simp [chars_explode]⟩
  | @first joint first rest h ih =>
    obtain ⟨c, hc, hmem⟩ := ih
    -- only minus one would be left out of what is written
    have hfirst : first ≠ .constant (-1) := by
      rintro rfl
      cases h
    rw [chars_join]
    exact ⟨c, hc, mem_joinText_of_first hfirst (mem_asPart_of_mem joint first hmem)⟩
  | @rest joint first rest part hpart _ ih =>
    obtain ⟨c, hc, hmem⟩ := ih
    rw [chars_join, partChars_eq_map]
    exact ⟨c, hc, mem_joinText_of_rest (List.mem_map_of_mem hpart)
      (mem_asPart_of_mem joint part hmem)⟩

/-- A formula with a word in it is written as a text that is refused. -/
theorem Worded.ofText_text {f : Formula} (h : Worded f) :
    ∃ c, ofText f.text = .error (.reading (.badCharacter c)) := by
  have hletters : ['b', 'e'].all (fun c =>
      decide (Text.IsKept c ∧ c ∉ formulaLetters ∧ Text.isBlank c = false)) = true := by decide
  obtain ⟨c, hc, hmem⟩ := h.exists_letter
  obtain ⟨hkept, hletter, hblank⟩ := of_decide_eq_true (List.all_eq_true.1 hletters c hc)
  have htext : c ∈ f.text.toList := by
    rw [text_toList]
    exact hmem
  obtain ⟨k, hk⟩ := Symbol.ofText_eq_badCharacter hkept hletter hblank htext
  exact ⟨k, by rw [ofText, hk]⟩

/-! ## The meaning of the text -/

/-- What is written for a formula never means something else. It is read as a formula with the same
law, or without a law for the same cause, unless a word stands in it: then it is refused. -/
theorem text_keeps_law :
    (∀ f : Formula, f.Notated → ∃ g, ofText f.text = .ok g ∧ g.law = f.law ∧
      ∀ e, f.law = .error e → e.IsRaised) ∧
    ∀ f : Formula, f.Worded → ∃ c, ofText f.text = .error (.reading (.badCharacter c)) := by
  constructor
  · intro f h
    exact ⟨normal f, h.ofText_text, h.law_normal, fun e he => h.law_eq_error he⟩
  · intro f h
    exact h.ofText_text

/-- A negative number of samples is refused by the law of `(-2)x3`, and by that of its normal form;
`abs(1)` is not read. -/
theorem text_keeps_law_of_negative_count :
    (∃ g, ofText (text (.join .sampleSum (.constant (-2)) [.constant 3])) = .ok g ∧
      g.law = .error (.negativeCount (-2))) ∧
    ∃ c, ofText (text (.absolute (.constant 1))) = .error (.reading (.badCharacter c)) := by
  have hnotated : Notated (.join .sampleSum (.constant (-2)) [.constant 3]) := by
    refine .join .sampleSum (.constant (-2)) fun part hpart => ?_
    rw [List.mem_singleton.1 hpart]
    exact .constant 3
  obtain ⟨g, hg, hlaw, -⟩ := text_keeps_law.1 _ hnotated
  exact ⟨⟨g, hg, hlaw.trans rfl⟩, text_keeps_law.2 _ (.absolute (.constant 1))⟩

end Formula

end DiceLaw
