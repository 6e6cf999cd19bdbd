import DiceLaw.Proofs.Law.Mirror
import DiceLaw.Proofs.Notation.Context

/-!
# The negative of a term

A minus sign is read as minus one times what stands behind it. In front of a term, minus one becomes
a factor of the first product of the term, and all divisors stay where they are. The law is mirrored
all the same: that of the first product is, and a chain of quotients mirrors its law along with its
first dividend.

## Main definitions

* `Derivation.negated`: minus one as the first factor of a term
* `Derivation.snoc`: one more member at the end of a series

## Main results

* `Derivation.map_law_negated`, `Derivation.map_law_ofSymbols_negated`: a negated term has the
  mirrored law
* `Derivation.map_law_snoc_negated`, `Derivation.map_law_ofSymbols_subtracted`: behind a sum, the
  term is subtracted
* `Formula.ofSymbols_negated_term`: a minus sign negates or subtracts the term behind it
-/

namespace DiceLaw

theorem Formula.ofGroupings_append (xs ys : List Grouping) :
    ofGroupings (xs ++ ys) = do
      let fs ← ofGroupings xs
      let gs ← ofGroupings ys
      return fs ++ gs := by
  induction xs with
  | nil =>
    show ofGroupings ys = ofGroupings ys >>= fun gs => pure ([] ++ gs)
    cases ofGroupings ys <;> rfl
  | cons x xs ih =>
    rw [List.cons_append, ofGroupings, ofGroupings, ih]
    cases ofGrouping x with
    | error e => rfl
    | ok f => cases ofGroupings xs <;> cases ofGroupings ys <;> rfl

namespace Derivation

/-! ## Longer derivations -/

/-- Minus one as the first part of a factor. -/
def negatedFactor (d : Derivation .factor) : Derivation .factor :=
  .more (.lone (.constant (-1))) d

/-- Minus one as the first part of the first factor of a term. -/
def negated : Derivation .term → Derivation .term
  | .lone only => .lone (negatedFactor only)
  | .more first rest => .more (negatedFactor first) rest

/-- One more member at the end of a series. -/
def snoc {joint : Joint} : Derivation (.series joint) → Derivation joint.member →
    Derivation (.series joint)
  | .lone only, last => .more only (.lone last)
  | .more first rest, last => .more first (rest.snoc last)

theorem symbols_negated (d : Derivation .term) :
    d.negated.symbols = .constant (-1) :: .marker .mul :: d.symbols := by
  match d with
  | .lone only => rfl
  | .more first rest => rfl

theorem symbols_snoc {joint : Joint} (d : Derivation (.series joint))
    (last : Derivation joint.member) :
    (d.snoc last).symbols = d.symbols ++ .marker joint.marker :: last.symbols := by
  match d with
  | .lone only => simp [snoc, symbols]
  | .more first rest => simp [snoc, symbols, rest.symbols_snoc last]

theorem groupings_snoc {joint : Joint} (d : Derivation (.series joint))
    (last : Derivation joint.member) :
    (d.snoc last).groupings = d.groupings ++ [last.grouping] := by
  match d with
  | .lone only => simp [snoc, groupings]
  | .more first rest => simp [snoc, groupings, rest.groupings_snoc last]

/-! ## Laws along derivations -/

/-- A series has a first member. -/
theorem exists_cons_of_ofGroupings {joint : Joint} (d : Derivation (.series joint))
    {fs : List Formula} (h : Formula.ofGroupings d.groupings = .ok fs) :
    ∃ first rest, fs = first :: rest := by
  refine List.exists_cons_of_ne_nil fun hnil => d.groupings_ne_nil ?_
  rw [← List.length_eq_zero_iff, ← Formula.ofGroupings_length h, hnil, List.length_nil]

/-- The law of a series is that of its members, joined. -/
theorem map_law_series {joint : Joint} (hj : joint.isSelection = false)
    (d : Derivation (.series joint)) :
    (Formula.ofGrouping d.grouping).map Formula.law
      = (Formula.ofGroupings d.groupings).map fun fs => Formula.laws fs >>= joint.law := by
  match d with
  | .lone only =>
    rw [grouping, if_neg (by simp [hj]), groupings, Formula.ofGroupings, Formula.ofGroupings]
    cases Formula.ofGrouping only.grouping with
    | error e => rfl
    | ok f =>
      exact congrArg Except.ok ((Formula.law_lone joint f).symm.trans
        (Formula.law_join_laws joint f []))
  | .more first rest =>
    rw [grouping, groupings, Formula.ofGrouping, Formula.ofGroupings]
    cases Formula.ofGrouping first.grouping with
    | error e => rfl
    | ok f =>
      cases Formula.ofGroupings rest.groupings with
      | error e => rfl
      | ok fs => exact congrArg Except.ok (Formula.law_join_laws joint f fs)

theorem map_law_mirror (x : Except BuildError Formula) :
    (x.map fun f => f.law.map Table.mirror) = (x.map Formula.law).map (Except.map Table.mirror) :=
  (Except.map_comp x _ _).symm

/-- Minus one as the first part of a factor mirrors its law. -/
theorem map_law_negatedFactor (d : Derivation .factor) :
    (Formula.ofGrouping (negatedFactor d).grouping).map Formula.law
      = (Formula.ofGrouping d.grouping).map fun f => f.law.map Table.mirror := by
  rw [map_law_mirror, map_law_series rfl d, map_law_series rfl (negatedFactor d)]
  show (Formula.ofGroupings (.leaf (.constant (-1)) :: d.groupings)).map _ = _
  rw [Formula.ofGroupings, Formula.ofGrouping]
  cases hfs : Formula.ofGroupings d.groupings with
  | error e => rfl
  | ok fs =>
    obtain ⟨first, rest, rfl⟩ := d.exists_cons_of_ofGroupings hfs
    have hlaw := Formula.law_negated first rest
    rw [Formula.law_join_laws, Formula.law_join_laws] at hlaw
    exact congrArg Except.ok hlaw

/-- Only the first factor of a term is negated. -/
theorem exists_groupings_negated (d : Derivation .term) :
    ∃ (first : Derivation .factor) (rest : List Grouping),
      d.groupings = first.grouping :: rest ∧
        d.negated.groupings = (negatedFactor first).grouping :: rest := by
  match d with
  | .lone only => exact ⟨only, [], rfl, rfl⟩
  | .more first rest => exact ⟨first, rest.groupings, rfl, rfl⟩

/-- The formula of a negated term has the mirrored law. -/
theorem map_law_negated (d : Derivation .term) :
    (Formula.ofGrouping d.negated.grouping).map Formula.law
      = (Formula.ofGrouping d.grouping).map fun f => f.law.map Table.mirror := by
  obtain ⟨first, rest, hd, hnegated⟩ := d.exists_groupings_negated
  have hfirst := map_law_negatedFactor first
  rw [map_law_mirror, map_law_series rfl d, map_law_series rfl d.negated, hd, hnegated,
    Formula.ofGroupings, Formula.ofGroupings]
  cases hf : Formula.ofGrouping first.grouping with
  | error e =>
    rw [hf] at hfirst
    rw [Except.map_eq_error.1 hfirst]
    rfl
  | ok f =>
    rw [hf] at hfirst
    obtain ⟨f', hf', hlaw⟩ := Except.map_eq_ok.1 hfirst
    rw [hf']
    cases Formula.ofGroupings rest with
    | error e => rfl
    | ok fs =>
      -- the divisors stay where they are
      have hodd : Joint.quotient.isOdd = true := rfl
      have hjoin := Formula.law_join_mirror hodd hlaw fs
      rw [Formula.law_join_laws, Formula.law_join_laws] at hjoin
      exact congrArg Except.ok hjoin

/-- Behind a sum, the formula of a negated term is subtracted. -/
theorem map_law_snoc_negated (sum : Derivation .formula) (d : Derivation .term) :
    (Formula.ofGrouping (sum.snoc d.negated).grouping).map Formula.law = do
      let A ← Formula.ofGrouping sum.grouping
      let f ← Formula.ofGrouping d.grouping
      return do
        let a ← A.law
        let t ← f.law
        return Table.combine (· - ·) a t := by
  have hsum := map_law_series rfl sum
  have hterm := map_law_negated d
  have hgroupings : (sum.snoc d.negated).groupings = sum.groupings ++ [d.negated.grouping] :=
    groupings_snoc sum d.negated
  rw [map_law_series rfl (sum.snoc d.negated), hgroupings, Formula.ofGroupings_append]
  cases hA : Formula.ofGrouping sum.grouping with
  | error e =>
    rw [hA] at hsum
    rw [Except.map_eq_error.1 hsum.symm]
    rfl
  | ok A =>
    rw [hA] at hsum
    obtain ⟨fs, hfs, hlaw⟩ := Except.map_eq_ok.1 hsum.symm
    rw [hfs]
    cases hf : Formula.ofGrouping d.grouping with
    | error e =>
      rw [hf] at hterm
      rw [Formula.ofGroupings, Except.map_eq_error.1 hterm]
      rfl
    | ok f =>
      rw [hf] at hterm
      obtain ⟨f', hf', hmirror⟩ := Except.map_eq_ok.1 hterm
      obtain ⟨first, rest, rfl⟩ := sum.exists_cons_of_ofGroupings hfs
      rw [Formula.ofGroupings, hf']
      have hjoin := Formula.law_subtracted hmirror first rest
      rw [Formula.law_join_laws, Formula.law_join_laws, hlaw] at hjoin
      exact congrArg Except.ok hjoin

/-! ## Laws along symbols -/

theorem symbols_snoc_negated (sum : Derivation .formula) (d : Derivation .term) :
    (sum.snoc d.negated).symbols
      = sum.symbols ++ .marker .add :: .constant (-1) :: .marker .mul :: d.symbols := by
  rw [← d.symbols_negated]
  exact sum.symbols_snoc d.negated

/-- Minus one in front of the symbols of a term mirrors its law. -/
theorem map_law_ofSymbols_negated (d : Derivation .term) :
    (Formula.ofSymbols (.constant (-1) :: .marker .mul :: d.symbols)).map Formula.law
      = (Formula.ofSymbols d.symbols).map fun f => f.law.map Table.mirror := by
  rw [← d.symbols_negated, Formula.ofSymbols_derivation rfl d.negated,
    Formula.ofSymbols_derivation rfl d]
  exact d.map_law_negated

/-- Behind the symbols of a sum, the term is subtracted. -/
theorem map_law_ofSymbols_subtracted (sum : Derivation .formula) (d : Derivation .term) :
    (Formula.ofSymbols
        (sum.symbols ++ .marker .add :: .constant (-1) :: .marker .mul :: d.symbols)).map
          Formula.law = do
      let A ← Formula.ofSymbols sum.symbols
      let f ← Formula.ofSymbols d.symbols
      return do
        let a ← A.law
        let t ← f.law
        return Table.combine (· - ·) a t := by
  rw [← symbols_snoc_negated, Formula.ofSymbols_derivation rfl (sum.snoc d.negated),
    Formula.ofSymbols_derivation rfl sum, Formula.ofSymbols_derivation rfl d]
  exact sum.map_law_snoc_negated d

end Derivation

/-! ## Signs in front of texts -/

namespace Symbol

variable {a text : String} {symbols symbols' : List Symbol}

/-- A minus sign in front of a text is minus one times its symbols. -/
theorem ofText_minus (h : ofText text = .ok symbols) :
    ofText ("-" ++ text) = .ok (.constant (-1) :: .marker .mul :: symbols) := by
  obtain ⟨letters, hletters, hscan⟩ := exists_siftsTo_of_ofText h
  have hsifts : SiftsTo ("-" ++ text).toList ('-' :: letters) := by
    rw [String.toList_append]
    exact hletters.signed
  rw [ofText_of_sifted hsifts, scan_minus, hscan]
  rfl

/-- A minus sign between two texts adds minus one times the symbols of the second. -/
theorem ofText_subtracted {c : Category} (d : Derivation c) (ha : ofText a = .ok d.symbols)
    (hplus : Text.lastMark? a ≠ some '+') (h : ofText text = .ok symbols) :
    ofText (a ++ "-" ++ text)
      = .ok (d.symbols ++ .marker .add :: .constant (-1) :: .marker .mul :: symbols) := by
  obtain ⟨letters, hletters, -, hwrites⟩ := exists_writes_of_ofText d ha hplus
  obtain ⟨letters', hletters', hscan⟩ := exists_siftsTo_of_ofText h
  have hsifts : SiftsTo (a ++ "-" ++ text).toList (letters ++ '-' :: letters') := by
    rw [String.toList_append, String.toList_append, List.append_assoc]
    exact hletters.append hletters'.signed
  rw [ofText_of_sifted hsifts, hwrites _ (Follows.cons (by decide) _), scan_minus_after,
    scan_minus, hscan]
  rfl

end Symbol

namespace Formula

/-- A term, written without an addition outside its brackets, is negated by minus one in front of
its symbols. The negated term has the mirrored law, or fails as the term does; behind a sum, the
term is subtracted. This is what a minus sign in front of a text, or between two texts, is
read as. -/
theorem ofSymbols_negated_term {s : List Symbol} {g : Grouping}
    (hs : Grouping.ofSymbols s = .ok g) (hterm : Level.contains .add s = .ok false) :
    ((∃ g', Grouping.ofSymbols (.constant (-1) :: .marker .mul :: s) = .ok g') ∧
      (∀ e, ofSymbols s = .error e →
        ofSymbols (.constant (-1) :: .marker .mul :: s) = .error e) ∧
      ∀ f, ofSymbols s = .ok f → ∃ f', ofSymbols (.constant (-1) :: .marker .mul :: s) = .ok f' ∧
        (∀ e, f.law = .error e → f'.law = .error e) ∧
        ∀ t, f.law = .ok t → ∃ t', f'.law = .ok t' ∧
          ∀ v, (v ∈ t'.outcomes ↔ -v ∈ t.outcomes) ∧ t'.weight v = t.weight (-v)) ∧
    (∀ sum h, Grouping.ofSymbols sum = .ok h →
      (∃ h', Grouping.ofSymbols (sum ++ .marker .add :: .constant (-1) :: .marker .mul :: s)
        = .ok h') ∧
      ∀ A f, ofSymbols sum = .ok A → ofSymbols s = .ok f →
        ∃ D, ofSymbols (sum ++ .marker .add :: .constant (-1) :: .marker .mul :: s) = .ok D ∧
          D.law = do
            let a ← A.law
            let t ← f.law
            return Table.combine (· - ·) a t) ∧
    ∀ text, Symbol.ofText text = .ok s →
      Symbol.ofText ("-" ++ text) = .ok (.constant (-1) :: .marker .mul :: s) ∧
      ∀ a sum h, Symbol.ofText a = .ok sum → Grouping.ofSymbols sum = .ok h →
        Text.lastMark? a ≠ some '+' → Symbol.ofText (a ++ "-" ++ text)
          = .ok (sum ++ .marker .add :: .constant (-1) :: .marker .mul :: s) := by
  -- without an addition outside brackets, the derivation is that of a term
  obtain ⟨last, hpath⟩ := Level.exists_path_of_containsFrom hterm
  obtain ⟨d, rfl, rfl⟩ : Derives .term s g :=
    (Grouping.derives_of_ofSymbols hs).narrow (show Joint.sum.isSelection = false from rfl) hpath
  have hlaw := d.map_law_ofSymbols_negated
  refine ⟨⟨⟨d.negated.grouping, ?_⟩, fun e he => ?_, fun f hf => ?_⟩, fun sum h hsum => ?_,
    fun text htext => ⟨Symbol.ofText_minus htext, fun a sum h ha hsum hplus => ?_⟩⟩
  · rw [← d.symbols_negated]
    exact (Grouping.ofSymbols_members d.negated).2 rfl
  · rw [he] at hlaw
    exact Except.map_eq_error.1 hlaw
  · rw [hf] at hlaw
    obtain ⟨f', hf', hmirror⟩ := Except.map_eq_ok.1 hlaw
    replace hmirror : f'.law = f.law.map Table.mirror := hmirror
    refine ⟨f', hf', fun e he => ?_, fun t ht => ⟨t.mirror, ?_, fun v => ⟨?_, ?_⟩⟩⟩
    · rw [hmirror, he]
      rfl
    · rw [hmirror, ht]
      rfl
    · exact Table.mem_outcomes_mirror
    · exact t.weight_mirror v
  · obtain ⟨dsum, rfl, rfl⟩ := Grouping.derives_of_ofSymbols hsum
    refine ⟨⟨(dsum.snoc d.negated).grouping, ?_⟩, fun A f hA hf => ?_⟩
    · rw [← dsum.symbols_snoc_negated d]
      exact (Grouping.ofSymbols_members (dsum.snoc d.negated)).2 rfl
    · have hdifference := dsum.map_law_ofSymbols_subtracted d
      rw [hA, hf] at hdifference
      exact Except.map_eq_ok.1 hdifference
  · obtain ⟨dsum, rfl, rfl⟩ := Grouping.derives_of_ofSymbols hsum
    exact Symbol.ofText_subtracted dsum ha hplus htext

/-- Seven halves are rounded to four, and minus seven halves to minus four. -/
theorem ofSymbols_negated_term_of_quotient :
    Level.contains .add [.constant 7, .marker .div, .constant 2] = .ok false ∧
      ∃ f' t', ofSymbols [.constant (-1), .marker .mul, .constant 7, .marker .div, .constant 2]
        = .ok f' ∧ f'.law = .ok t' ∧ t'.weight (-4) = 1 := by
  have hterm : Level.contains .add [.constant 7, .marker .div, .constant 2] = .ok false := rfl
  let d : Derivation .term :=
    .more (.lone (.lone (.constant 7))) (.lone (.lone (.lone (.constant 2))))
  have hread : ofSymbols d.symbols = .ok (.join .quotient (.constant 7) [.constant 2]) :=
    ofSymbols_derivation rfl d
  have hlaw : law (.join .quotient (.constant 7) [.constant 2]) = .ok (.sure 4) := by
    show Table.convolve .quotient (.sure 7) (.sure 2) >>= pure = _
    rw [bind_pure, Table.convolve, if_neg (by decide), Table.combine_sure]
    rfl
  obtain ⟨⟨-, -, hnegated⟩, -⟩ :=
    ofSymbols_negated_term ((Grouping.ofSymbols_members d).2 rfl) hterm
  obtain ⟨f', hf', -, hmirror⟩ := hnegated _ hread
  obtain ⟨t', ht', hweight⟩ := hmirror _ hlaw
  exact ⟨hterm, f', t', hf', ht', (hweight (-4)).2⟩

end Formula

end DiceLaw
