import DiceLaw.Formula.Notation
import DiceLaw.Proofs.Grammar.Derivation

/-!
# Formulas with a notation, and their normal form

Not every formula can be written: absolute values, exploding rolls, and dice that do not start at
one have no notation. Of those that can, some are written in the same way as another formula. The
notation of a formula is that of its normal form, in which a negative number is the product with
minus one, and an operator with a single part is that part.

## Main definitions

* `Formula.Notated`: the formulas that can be written
* `Formula.Canonical`: the formulas in normal form
* `Formula.normal`: the normal form of a formula

## Main results

* `Formula.Notated.canonical_normal`, `Formula.Canonical.normal_eq`: normal forms are canonical, and
  canonical formulas are their own normal form
-/

namespace DiceLaw

namespace Formula

/-- The formulas that can be written: all are joined from numbers and dice that start at one. -/
inductive Notated : Formula → Prop
  | constant (value : Int) : Notated (.constant value)
  | die {d : Die} (h : d.lo = 1) : Notated (.die d)
  | join (joint : Joint) {first : Formula} {rest : List Formula} (hfirst : Notated first)
      (hrest : ∀ part ∈ rest, Notated part) : Notated (.join joint first rest)

/-- The formulas that are joined from dice and natural numbers, by operators with two parts or more
and by selections. A product may also start with minus one. -/
inductive Canonical : Formula → Prop
  | constant {value : Int} (h : 0 ≤ value) : Canonical (.constant value)
  | die (d : Die) : Canonical (.die d)
  | join {joint : Joint} {first : Formula} {rest : List Formula}
      (parts : joint.isSelection = false → rest ≠ []) (hfirst : Canonical first)
      (hrest : ∀ part ∈ rest, Canonical part) : Canonical (.join joint first rest)
  | negated {rest : List Formula} (parts : rest ≠ []) (hrest : ∀ part ∈ rest, Canonical part) :
      Canonical (.join .product (.constant (-1)) rest)

mutual

/-- The normal form of a formula. Minus one stays at the head of a product. -/
def normal : Formula → Formula
  | .constant value =>
    if value < 0 then .join .product (.constant (-1)) [.constant (-value)] else .constant value
  | .die d => .die d
  | .join joint first rest =>
    if joint.isSelection = false ∧ rest = [] then normal first
    else if joint = .product ∧ first = .constant (-1) then .join joint first (normals rest)
    else .join joint (normal first) (normals rest)
  | .absolute body => .absolute (normal body)
  | .explode body threshold limit => .explode (normal body) threshold limit

/-- The normal forms of several formulas. -/
def normals : List Formula → List Formula
  | [] => []
  | part :: rest => normal part :: normals rest

end

theorem normals_eq_map (parts : List Formula) : normals parts = parts.map normal := by
  induction parts with
  | nil => rfl
  | cons part rest ih => rw [normals, ih, List.map_cons]

/-! ## Normal forms of joined parts -/

section

variable {joint : Joint} {first : Formula} {rest : List Formula}

theorem normal_lone (hj : joint.isSelection = false) :
    normal (.join joint first []) = normal first := by
  rw [normal, if_pos ⟨hj, rfl⟩]

theorem normal_negated (h : rest ≠ []) :
    normal (.join .product (.constant (-1)) rest)
      = .join .product (.constant (-1)) (normals rest) := by
  rw [normal, if_neg (fun hlone => h hlone.2), if_pos ⟨rfl, rfl⟩]

theorem normal_join (hparts : joint.isSelection = false → rest ≠ [])
    (hfirst : ¬ (joint = .product ∧ first = .constant (-1))) :
    normal (.join joint first rest) = .join joint (normal first) (normals rest) := by
  rw [normal, if_neg (fun hlone => hparts hlone.1 hlone.2), if_neg hfirst]

end

/-! ## Canonical formulas -/

section

variable {joint : Joint} {first : Formula} {rest : List Formula}

theorem not_canonical_minus_one : ¬ Canonical (.constant (-1)) := by
  intro h
  cases h with
  | constant hvalue => omega

theorem canonical_join_iff (hparts : joint.isSelection = false → rest ≠ [])
    (hfirst : ¬ (joint = .product ∧ first = .constant (-1))) :
    Canonical (.join joint first rest) ↔ ∀ part ∈ first :: rest, Canonical part := by
  constructor
  · intro h
    cases h with
    | join _ hfirst hrest => simpa using ⟨hfirst, hrest⟩
    | negated _ _ => exact absurd ⟨rfl, rfl⟩ hfirst
  · intro h
    exact .join hparts (h first List.mem_cons_self) fun part hpart =>
      h part (List.mem_cons_of_mem _ hpart)

theorem canonical_negated_iff (hparts : rest ≠ []) :
    Canonical (.join .product (.constant (-1)) rest) ↔ ∀ part ∈ rest, Canonical part := by
  constructor
  · intro h
    cases h with
    | join _ hfirst _ => exact absurd hfirst not_canonical_minus_one
    | negated _ hrest => exact hrest
  · exact .negated hparts

end

/-- Normal forms are canonical. -/
theorem Notated.canonical_normal {f : Formula} (h : Notated f) : Canonical (normal f) := by
  induction h with
  | constant value =>
    rw [normal]
    split
    · refine .negated (List.cons_ne_nil _ _) fun part hpart => ?_
      rw [List.mem_singleton.1 hpart]
      exact .constant (by omega)
    · exact .constant (by omega)
  | die => exact .die _
  | @join joint first rest hfirst hrest ihFirst ihRest =>
    have hnormals : ∀ part ∈ normals rest, Canonical part := by
      rw [normals_eq_map]
      intro part hpart
      obtain ⟨p, hp, rfl⟩ := List.mem_map.1 hpart
      exact ihRest p hp
    have hne : rest ≠ [] → normals rest ≠ [] := by
      rw [normals_eq_map]
      simp
    -- a part alone, minus one in front of a product, and everything else
    rw [normal]
    split
    · exact ihFirst
    · rename_i hlone
      split
      · rename_i hnegated
        obtain ⟨rfl, rfl⟩ := hnegated
        exact .negated (hne fun hrest => hlone ⟨rfl, hrest⟩) hnormals
      · exact .join (fun hj => hne fun hrest => hlone ⟨hj, hrest⟩) ihFirst hnormals

/-- A canonical formula is its own normal form. -/
theorem Canonical.normal_eq {f : Formula} (h : Canonical f) : normal f = f := by
  have hmap : ∀ {rest : List Formula}, (∀ part ∈ rest, normal part = part) →
      normals rest = rest := by
    intro rest ih
    rw [normals_eq_map]
    exact (List.map_congr_left ih).trans (List.map_id _)
  induction h with
  | constant hvalue => rw [normal, if_neg (by omega)]
  | die => rfl
  | @join joint first rest parts hfirst hrest ihFirst ihRest =>
    rw [normal_join parts ?_, ihFirst, hmap ihRest]
    -- minus one is not canonical, and so no first part of this kind
    rintro ⟨-, rfl⟩
    exact not_canonical_minus_one hfirst
  | negated parts hrest ihRest => rw [normal_negated parts, hmap ihRest]

end Formula

end DiceLaw
