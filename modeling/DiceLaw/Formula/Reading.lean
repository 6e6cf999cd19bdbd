import DiceLaw.Except
import DiceLaw.Formula.BuildError
import DiceLaw.Grouping.Basic
import DiceLaw.Symbol.Reading

/-!
# Reading a formula

A grouping becomes a formula when each joint has a part, each die a face, and each leaf is an
operand.

## Main definitions

* `Formula.die?`, `Formula.join?`: building a node from parts that may not fit
* `Formula.ofGrouping`, `Formula.ofSymbols`, `Formula.ofText`: the formula of a grouping, of
  symbols, and of a text
-/

namespace DiceLaw

namespace Formula

/-- The die with the given first and last face. -/
def die? (lo hi : Int) : Except BuildError Formula :=
  if h : lo ≤ hi then .ok (.die ⟨lo, hi, h⟩) else .error (.reversedDie lo hi)

/-- Parts joined. -/
def join? (joint : Joint) : List Formula → Except BuildError Formula
  | [] => .error (.noParts joint)
  | first :: rest => .ok (.join joint first rest)

mutual

/-- The formula of a grouping. Parts are built from left to right, before what they are part of. -/
def ofGrouping : Grouping → Except BuildError Formula
  | .leaf (.constant value) => .ok (.constant value)
  | .leaf (.die lo hi) => die? lo hi
  | .leaf s => .error (.reading (.notOperand s))
  | .node joint parts => do join? joint (← ofGroupings parts)

/-- The formulas of several groupings. -/
def ofGroupings : List Grouping → Except BuildError (List Formula)
  | [] => .ok []
  | part :: rest => do
    let f ← ofGrouping part
    let fs ← ofGroupings rest
    return f :: fs

end

/-- The formula of a sequence of symbols. -/
def ofSymbols (symbols : List Symbol) : Except BuildError Formula :=
  match Grouping.ofSymbols symbols with
  | .error e => .error (.reading e)
  | .ok grouping => ofGrouping grouping

/-- The formula that a text writes. -/
def ofText (text : String) : Except BuildError Formula :=
  match Symbol.ofText text with
  | .error e => .error (.reading e)
  | .ok symbols => ofSymbols symbols

theorem die?_eq_ok {lo hi : Int} {f : Formula} (h : die? lo hi = .ok f) :
    ∃ hle : lo ≤ hi, f = .die ⟨lo, hi, hle⟩ := by
  unfold die? at h
  split at h
  · exact ⟨‹_›, (Except.ok.inj h).symm⟩
  · cases h

theorem join?_eq_ok {joint : Joint} {parts : List Formula} {f : Formula}
    (h : join? joint parts = .ok f) : ∃ first rest, parts = first :: rest ∧
      f = .join joint first rest := by
  cases parts with
  | nil => cases h
  | cons first rest => exact ⟨first, rest, rfl, (Except.ok.inj h).symm⟩

theorem ofGroupings_cons_eq_ok {part : Grouping} {parts : List Grouping} {fs : List Formula}
    (h : ofGroupings (part :: parts) = .ok fs) :
    ∃ f rest, ofGrouping part = .ok f ∧ ofGroupings parts = .ok rest ∧ fs = f :: rest := by
  rw [ofGroupings] at h
  obtain ⟨f, hpart, h⟩ := Except.bind_eq_ok.1 h
  obtain ⟨rest, hparts, h⟩ := Except.bind_eq_ok.1 h
  exact ⟨f, rest, hpart, hparts, (Except.ok.inj h).symm⟩

theorem ofGrouping_node_eq_ok {joint : Joint} {parts : List Grouping} {f : Formula}
    (h : ofGrouping (.node joint parts) = .ok f) :
    ∃ first rest, ofGroupings parts = .ok (first :: rest) ∧ f = .join joint first rest := by
  rw [ofGrouping] at h
  obtain ⟨fs, hparts, h⟩ := Except.bind_eq_ok.1 h
  obtain ⟨first, rest, rfl, rfl⟩ := join?_eq_ok h
  exact ⟨first, rest, hparts, rfl⟩

theorem ofGroupings_length {parts : List Grouping} {fs : List Formula}
    (h : ofGroupings parts = .ok fs) : fs.length = parts.length := by
  induction parts generalizing fs with
  | nil =>
    obtain rfl := Except.ok.inj h
    rfl
  | cons part parts ih =>
    obtain ⟨f, rest, -, hrest, rfl⟩ := ofGroupings_cons_eq_ok h
    rw [List.length_cons, List.length_cons, ih hrest]

end Formula

end DiceLaw
