import DiceLaw.Grouping.Basic
import DiceLaw.Proofs.Grammar.Path

/-!
# The grammar of formulas

    formula ::= term ('+' term)*
    term    ::= factor ('/' factor)*
    factor  ::= atom ('*' atom)*
    atom    ::= unit ('x' unit)*
    unit    ::= constant | die | '(' formula ')' | 'max(' arguments ')' | 'min(' arguments ')'

where arguments are formulas with commas between them. All but the unit are series: one member or
more, with a marker between each two. A derivation is a tree of rules of the grammar; it spells a
sequence of symbols, and it has a grouping.

## Main definitions

* `Category`: the left-hand sides of the grammar
* `Derivation`: the derivations of a category
* `Derivation.symbols`, `Derivation.grouping`: what a derivation spells, and its grouping
* `Derivation.members`, `Derivation.groupings`: the same for each member of a series

## Main results

* `Derivation.path_symbols`: what a derivation spells comes back to its depth, and the markers of
  looser series are not met outside brackets
* `Derivation.symbols_injective`: the grammar is unambiguous
-/

namespace DiceLaw

/-! ## Categories -/

namespace Joint

/-- The marker between the members of a series. -/
def marker : Joint → Marker
  | .sum => .add
  | .quotient => .div
  | .product => .mul
  | .sampleSum => .sampleSum
  | .max | .min => .comma

/-- The joints that are written with a word and brackets. -/
def isSelection : Joint → Bool
  | .max | .min => true
  | _ => false

end Joint

/-- The categories of the grammar: a unit, and the series of the parts that a joint joins. -/
inductive Category where
  | unit
  | series (joint : Joint)
  deriving DecidableEq, Repr

namespace Category

/-- A formula is a series of terms with additions between them. -/
abbrev formula : Category := .series .sum

/-- A term is a series of factors with divisions between them. -/
abbrev term : Category := .series .quotient

/-- A factor is a series of atoms with multiplications between them. -/
abbrev factor : Category := .series .product

/-- An atom is a series of units, each but the last one sampled from. -/
abbrev atom : Category := .series .sampleSum

/-- The markers that do not stand outside brackets in a category. -/
def barred : Category → List Marker
  | .unit => [.sampleSum, .mul, .div, .add, .comma]
  | .series .sampleSum => [.mul, .div, .add, .comma]
  | .series .product => [.div, .add, .comma]
  | .series .quotient => [.add, .comma]
  | .series .sum => [.comma]
  | .series .max | .series .min => []

/-- The arguments of a selection are the only series that is no formula by itself. -/
def isArguments : Category → Bool
  | .unit => false
  | .series joint => joint.isSelection

/-- How tight a category binds: a formula least, and a unit most. -/
def rank : Category → Nat
  | .unit => 4
  | .series .sampleSum => 3
  | .series .product => 2
  | .series .quotient => 1
  | .series _ => 0

theorem ne_bracket_of_mem_barred {c : Category} {m : Marker} (h : m ∈ c.barred) :
    m.opens = false ∧ m ≠ .closing := by
  rcases c with _ | joint
  · revert h; cases m <;> simp [barred, Marker.opens]
  · revert h; cases joint <;> cases m <;> simp [barred, Marker.opens]

end Category

/-- The category of the members of a series. -/
def Joint.member : Joint → Category
  | .sum => .term
  | .quotient => .factor
  | .product => .atom
  | .sampleSum => .unit
  | .max | .min => .formula

namespace Joint

/-- The members of a series bar its marker, and what the series bars. -/
theorem barred_member (joint : Joint) :
    joint.member.barred = joint.marker :: (Category.series joint).barred := by
  cases joint <;> rfl

theorem isArguments_member (joint : Joint) : joint.member.isArguments = false := by
  cases joint <;> rfl

theorem rank_le_member (joint : Joint) : (Category.series joint).rank ≤ joint.member.rank := by
  cases joint <;> decide

theorem rank_member_le_unit (joint : Joint) : joint.member.rank ≤ Category.unit.rank := by
  cases joint <;> decide

/-- What binds tighter than a series binds at least as tight as its members. -/
theorem rank_member_le {joint : Joint} {c : Category} (hj : joint.isSelection = false)
    (hc : c.isArguments = false) (hne : c ≠ .series joint)
    (hle : (Category.series joint).rank ≤ c.rank) : joint.member.rank ≤ c.rank := by
  rcases c with _ | inner
  · cases joint <;> decide
  · revert hj hc hne hle
    cases joint <;> cases inner <;> decide

theorem marker_not_barred (joint : Joint) :
    ∀ m ∈ (Category.series joint).barred, joint.marker ≠ m := by
  cases joint <;> simp [marker, Category.barred]

theorem after_marker (joint : Joint) (depth : Nat) :
    Level.after depth (.marker joint.marker) = .ok depth := by
  cases joint <;> rfl

theorem path_marker {joint : Joint} {barred : List Marker} {depth : Nat}
    (h : ∀ m ∈ barred, joint.marker ≠ m) :
    Level.Path barred depth [.marker joint.marker] depth :=
  .cons (fun _ m hm he => h m hm (Symbol.marker.inj he)) (joint.after_marker depth) (.nil depth)

end Joint

/-! ## Derivations -/

/-- The derivations of a category. -/
inductive Derivation : Category → Type
  | constant (value : Int) : Derivation .unit
  | die (lo hi : Int) : Derivation .unit
  | brackets (inside : Derivation .formula) : Derivation .unit
  | maximum (arguments : Derivation (.series .max)) : Derivation .unit
  | minimum (arguments : Derivation (.series .min)) : Derivation .unit
  /-- A series of one member. -/
  | lone {joint : Joint} (only : Derivation joint.member) : Derivation (.series joint)
  /-- A series of more members. -/
  | more {joint : Joint} (first : Derivation joint.member) (rest : Derivation (.series joint)) :
      Derivation (.series joint)

namespace Derivation

/-- The symbols that a derivation spells. -/
def symbols : {c : Category} → Derivation c → List Symbol
  | _, .constant value => [.constant value]
  | _, .die lo hi => [.die lo hi]
  | _, .brackets inside => .marker .opening :: inside.symbols ++ [.marker .closing]
  | _, .maximum arguments => .marker .maxOpening :: arguments.symbols ++ [.marker .closing]
  | _, .minimum arguments => .marker .minOpening :: arguments.symbols ++ [.marker .closing]
  | _, .lone only => only.symbols
  | .series joint, .more first rest => first.symbols ++ .marker joint.marker :: rest.symbols

/-- The symbols of each member of a series. A unit has no members. -/
def members : {c : Category} → Derivation c → List (List Symbol)
  | _, .lone only => [only.symbols]
  | _, .more first rest => first.symbols :: rest.members
  | _, _ => []

mutual

/-- The grouping of a derivation. A selection is a node over its arguments, however many. Any other
series is a node only if it has two members or more, and brackets leave nothing behind. -/
def grouping : {c : Category} → Derivation c → Grouping
  | _, .constant value => .leaf (.constant value)
  | _, .die lo hi => .leaf (.die lo hi)
  | _, .brackets inside => inside.grouping
  | _, .maximum arguments => arguments.grouping
  | _, .minimum arguments => arguments.grouping
  | .series joint, .lone only =>
    if joint.isSelection then .node joint [only.grouping] else only.grouping
  | .series joint, .more first rest => .node joint (first.grouping :: rest.groupings)

/-- The grouping of each member of a series. -/
def groupings : {c : Category} → Derivation c → List Grouping
  | _, .lone only => [only.grouping]
  | _, .more first rest => first.grouping :: rest.groupings
  | _, _ => []

end

/-! ## What a derivation spells -/

theorem symbols_ne_nil {c : Category} (d : Derivation c) : d.symbols ≠ [] := by
  induction d with
  | lone only ih => exact ih
  | more first rest ihFirst _ => simp [symbols, ihFirst]
  | _ => simp [symbols]

theorem members_ne_nil {c : Category} (d : Derivation c) : ∀ segment ∈ d.members, segment ≠ [] := by
  induction d with
  | lone only _ => simpa [members] using only.symbols_ne_nil
  | more first rest _ ih => simpa [members] using ⟨first.symbols_ne_nil, ih⟩
  | _ => simp [members]

/-- The arguments of a selection make a node, however many they are. -/
theorem grouping_of_isSelection {joint : Joint} (h : joint.isSelection = true)
    (d : Derivation (.series joint)) : d.grouping = .node joint d.groupings := by
  cases d with
  | lone only => simp [grouping, groupings, h]
  | more first rest => rw [grouping, groupings]

theorem grouping_of_two_le {joint : Joint} (d : Derivation (.series joint))
    (h : 2 ≤ d.members.length) : d.grouping = .node joint d.groupings := by
  cases d with
  | lone only => simp [members] at h
  | more first rest => rw [grouping, groupings]

/-- A series spells its members with its marker between each two. -/
theorem symbols_of_members {joint : Joint} (d : Derivation (.series joint)) {first : List Symbol}
    {others : List (List Symbol)} (h : d.members = first :: others) :
    d.symbols = first ++ others.flatMap (.marker joint.marker :: ·) := by
  match d with
  | .lone only =>
    obtain ⟨rfl, rfl⟩ := List.cons.inj h
    simp [symbols]
  | .more head rest =>
    obtain ⟨rfl, hrest⟩ := List.cons.inj h
    cases others with
    | nil => cases rest <;> cases hrest
    | cons next others => simp [symbols, rest.symbols_of_members hrest]

/-- What a derivation spells comes back to its depth, and no marker of a looser series stands
outside its brackets. -/
theorem path_symbols {c : Category} (d : Derivation c) : Level.Path c.barred 0 d.symbols 0 := by
  induction d with
  | constant => exact .single rfl (by simp) (by simp)
  | die => exact .single rfl (by simp) (by simp)
  | brackets _ ih => exact ih.enclosed rfl fun _ => Category.ne_bracket_of_mem_barred
  | maximum _ ih => exact ih.enclosed rfl fun _ => Category.ne_bracket_of_mem_barred
  | minimum _ ih => exact ih.enclosed rfl fun _ => Category.ne_bracket_of_mem_barred
  | @lone joint only ih =>
    -- a member bars all that its series bars
    exact ih.mono fun m hm => by rw [joint.barred_member]; exact List.mem_cons_of_mem _ hm
  | @more joint first rest ihFirst ihRest =>
    have hfirst : Level.Path (Category.series joint).barred 0 first.symbols 0 :=
      ihFirst.mono fun m hm => by rw [joint.barred_member]; exact List.mem_cons_of_mem _ hm
    exact hfirst.append ((Joint.path_marker joint.marker_not_barred).append ihRest)

/-- No member of a series has the marker of the series outside brackets. -/
theorem path_member {joint : Joint} (d : Derivation joint.member) :
    Level.Path [joint.marker] 0 d.symbols 0 :=
  d.path_symbols.mono fun m hm => by
    rw [joint.barred_member, List.mem_singleton.1 hm]
    exact List.mem_cons_self

/-! ## Unambiguity -/

/-- The grammar is unambiguous: a category derives a sequence in one way at most. -/
theorem symbols_injective {c : Category} (d e : Derivation c) (h : d.symbols = e.symbols) :
    d = e := by
  induction d with
  | constant value => cases e <;> simp_all [symbols]
  | die lo hi => cases e <;> simp_all [symbols]
  | brackets inside ih =>
    cases e with
    | brackets inside' => rw [ih inside' (by simpa [symbols] using h)]
    | _ => simp [symbols] at h
  | maximum arguments ih =>
    cases e with
    | maximum arguments' => rw [ih arguments' (by simpa [symbols] using h)]
    | _ => simp [symbols] at h
  | minimum arguments ih =>
    cases e with
    | minimum arguments' => rw [ih arguments' (by simpa [symbols] using h)]
    | _ => simp [symbols] at h
  | lone only ih =>
    cases e with
    | lone only' => rw [ih only' h]
    | more first' rest' =>
      -- a member has no marker of the series where another member would start
      have hpath := only.path_member
      rw [show only.symbols = _ from h] at hpath
      exact absurd hpath first'.path_member.not_append_marker
  | more first rest ihFirst ihRest =>
    cases e with
    | lone only' =>
      have hpath := only'.path_member
      rw [← show _ = only'.symbols from h] at hpath
      exact absurd hpath first.path_member.not_append_marker
    | more first' rest' =>
      -- both are cut at the first marker of the series that stands outside brackets
      obtain ⟨hfirst, hrest⟩ := first.path_member.cancel first'.path_member h
      rw [ihFirst first' hfirst, ihRest rest' hrest]

end Derivation

end DiceLaw
