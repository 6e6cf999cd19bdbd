import DiceLaw.Proofs.Notation.Letters
import DiceLaw.Proofs.Notation.Signs

/-!
# Reading back what was written

The two halves meet at the formulas that can be written. Whatever such a formula is written as is
read, as the normal form of the formula; and whatever is read can be written. A formula is
therefore read back as it was exactly if it can be written and is its own normal form.

## Main results

* `Formula.Notated.ofText_text`: what is written is read as the normal form
* `Formula.notated_of_ofText`: what is read can be written
* `Formula.ofText_text_eq_iff_canonical`: which formulas are read back as they were
-/

namespace DiceLaw

namespace Formula

/-! ## What is written is read -/

/-- Symbols that are derived are read along their derivation. -/
theorem ofSymbols_derivation {c : Category} (hc : c.isArguments = false) (d : Derivation c) :
    ofSymbols d.symbols = ofGrouping d.grouping := by
  rw [ofSymbols, (Grouping.ofSymbols_members d).2 hc]

/-- A text is read along a derivation of its symbols. -/
theorem ofText_of_derivation {c : Category} (hc : c.isArguments = false) (d : Derivation c)
    {text : String} (h : Symbol.ofText text = .ok d.symbols) :
    ofText text = ofGrouping d.grouping := by
  rw [ofText, h]
  exact ofSymbols_derivation hc d

/-- A text whose letters are read as a formula is read as it. -/
theorem Reads.ofText_eq {c : Category} {text : String} {letters : List Char} {f : Formula}
    (hc : c.isArguments = false) (h : Reads c letters f)
    (hsifted : sifted (Text.lowercase text.toList) = .ok letters) : ofText text = .ok f := by
  obtain ⟨-, symbols, g, hwrites, ⟨d, rfl, rfl⟩, hf⟩ := h
  -- the text is sifted to the letters, and these are scanned to the symbols
  rw [ofText_of_derivation hc d, hf]
  rw [Symbol.ofText_of_sifted hsifted, hwrites.scan_eq]

/-- The symbols of what is written for a formula are read as its normal form. -/
theorem Notated.ofText_text {f : Formula} (h : Notated f) : ofText f.text = .ok (normal f) := by
  refine h.reads.ofText_eq f.isArguments_category ?_
  rw [text_toList, h.sifted_chars]

/-! ## What is read can be written -/

/-- A formula is read along a derivation of the symbols. -/
theorem exists_derivation_of_ofText {text : String} {f : Formula} (h : ofText text = .ok f) :
    ∃ d : Derivation .formula, Symbol.ofText text = .ok d.symbols ∧
      ofGrouping d.grouping = .ok f := by
  rw [ofText] at h
  cases hsymbols : Symbol.ofText text with
  | error e => rw [hsymbols] at h; cases h
  | ok symbols =>
    rw [hsymbols] at h
    change ofSymbols symbols = .ok f at h
    rw [ofSymbols] at h
    cases hg : Grouping.ofSymbols symbols with
    | error e => rw [hg] at h; cases h
    | ok g =>
      rw [hg] at h
      obtain ⟨d, rfl, rfl⟩ := Grouping.derives_of_ofSymbols hg
      exact ⟨d, rfl, h⟩

/-- A joint that parts were grouped in is a formula that can be written, if they are. -/
theorem notated_of_node {joint : Joint} {parts : List Grouping} {f : Formula}
    (h : ofGrouping (.node joint parts) = .ok f)
    (ih : ∀ fs, ofGroupings parts = .ok fs → ∀ part ∈ fs, Notated part) : Notated f := by
  obtain ⟨first, rest, hfs, rfl⟩ := ofGrouping_node_eq_ok h
  have hparts := ih _ hfs
  exact .join joint (hparts first List.mem_cons_self)
    fun part hpart => hparts part (List.mem_cons_of_mem _ hpart)

/-- What a derivation is lowered to can be written if all of its dice start at one. -/
theorem notated_of_derivation {c : Category} (d : Derivation c)
    (hdice : ∀ lo hi, Symbol.die lo hi ∈ d.symbols → lo = 1) :
    (∀ f, ofGrouping d.grouping = .ok f → Notated f) ∧
      ∀ fs, ofGroupings d.groupings = .ok fs → ∀ part ∈ fs, Notated part := by
  -- a unit has no parts
  have hnone : ∀ fs, ofGroupings [] = .ok fs → ∀ part ∈ fs, Notated part := by
    intro fs h
    obtain rfl := Except.ok.inj h
    simp
  induction d with
  | constant value =>
    refine ⟨fun f h => ?_, hnone⟩
    obtain rfl : Formula.constant value = f := Except.ok.inj h
    exact .constant value
  | die lo hi =>
    refine ⟨fun f h => ?_, hnone⟩
    obtain ⟨hle, rfl⟩ := die?_eq_ok h
    exact .die (hdice lo hi List.mem_cons_self)
  | brackets inside ih =>
    exact ⟨(ih fun lo hi h => hdice lo hi (by simp [Derivation.symbols, h])).1, hnone⟩
  | maximum arguments ih =>
    exact ⟨(ih fun lo hi h => hdice lo hi (by simp [Derivation.symbols, h])).1, hnone⟩
  | minimum arguments ih =>
    exact ⟨(ih fun lo hi h => hdice lo hi (by simp [Derivation.symbols, h])).1, hnone⟩
  | @lone joint only ih =>
    have honly := (ih hdice).1
    have hparts : ∀ fs, ofGroupings [only.grouping] = .ok fs → ∀ part ∈ fs, Notated part := by
      intro fs h
      obtain ⟨f, rest, hf, hrest, rfl⟩ := ofGroupings_cons_eq_ok h
      obtain rfl := Except.ok.inj hrest
      simpa using honly f hf
    refine ⟨fun f h => ?_, hparts⟩
    rw [Derivation.grouping] at h
    split at h
    · -- an argument alone makes a node, any other member alone does not
      exact notated_of_node h hparts
    · exact honly f h
  | @more joint first rest ihFirst ihRest =>
    have hfirst := (ihFirst fun lo hi h => hdice lo hi (by simp [Derivation.symbols, h])).1
    have hrest := (ihRest fun lo hi h => hdice lo hi (by simp [Derivation.symbols, h])).2
    have hparts : ∀ fs, ofGroupings (first.grouping :: rest.groupings) = .ok fs →
        ∀ part ∈ fs, Notated part := by
      intro fs h
      obtain ⟨f, others, hf, hothers, rfl⟩ := ofGroupings_cons_eq_ok h
      intro part hpart
      rcases List.mem_cons.1 hpart with rfl | hpart
      · exact hfirst _ hf
      · exact hrest others hothers part hpart
    refine ⟨fun f h => ?_, hparts⟩
    rw [Derivation.grouping] at h
    exact notated_of_node h hparts

/-- What is read from a text can be written. -/
theorem notated_of_ofText {text : String} {f : Formula} (h : ofText text = .ok f) : Notated f := by
  obtain ⟨d, hsymbols, hf⟩ := exists_derivation_of_ofText h
  have hread := Symbol.read_of_ofText hsymbols
  exact (notated_of_derivation d fun lo hi hmem => (hread.isRead _ hmem).1).1 f hf

/-! ## The round trip -/

/-- What can be written is read back as it was exactly if it is canonical. -/
theorem Notated.ofText_text_eq_iff {f : Formula} (h : Notated f) :
    ofText f.text = .ok f ↔ f.Canonical := by
  -- what is read is the normal form, which is canonical
  rw [h.ofText_text]
  constructor
  · intro hf
    exact Except.ok.inj hf ▸ h.canonical_normal
  · intro hcanonical
    rw [hcanonical.normal_eq]

/-- A formula is read back as it was exactly if it can be written and is canonical. -/
theorem ofText_text_eq_iff_canonical (f : Formula) :
    ofText f.text = .ok f ↔ f.Notated ∧ f.Canonical := by
  constructor
  · intro h
    have hnotated := notated_of_ofText h
    exact ⟨hnotated, hnotated.ofText_text_eq_iff.1 h⟩
  · rintro ⟨hnotated, hcanonical⟩
    exact hnotated.ofText_text_eq_iff.2 hcanonical

end Formula

end DiceLaw
