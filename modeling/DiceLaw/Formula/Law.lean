import DiceLaw.Except
import DiceLaw.Formula.Basic
import DiceLaw.Table.Explosion
import DiceLaw.Table.Repetition

/-!
# The law of a formula

The law of a formula is the table of its outcomes with their probabilities. It is computed from the
laws of the parts, which are independent.

## Main definitions

* `Die.law`: the law of a die
* `Joint.law`: the law of joined parts from the laws of the parts
* `Formula.law`: the law of a formula

## Main results

* `Formula.laws_eq_mapM`: the laws of several parts are found from left to right
* `Formula.law_join_eq_ok`, `Formula.law_absolute_eq_ok`, `Formula.law_explode_eq_ok`: what a law
  is made from
-/

namespace DiceLaw

/-- The number of faces of a die. -/
def Die.size (d : Die) : Nat := (d.hi - d.lo + 1).toNat

/-- Each face of a die is equally probable. -/
def Die.law (d : Die) : Table where
  entries := (List.range d.size).map fun (i : Nat) => (d.lo + (i : Int), 1 / (d.size : Rat))
  ascending := by
    refine List.pairwise_map.2 (List.Pairwise.imp ?_ List.pairwise_lt_range)
    intro i j h
    show d.lo + (i : Int) < d.lo + (j : Int)
    omega

/-- The law of joined parts. -/
def Joint.law : Joint → List Table → Except LawError Table
  | .sum => Table.convolveAll .sum
  | .quotient => Table.convolveAll .quotient
  | .product => Table.convolveAll .product
  | .sampleSum => Table.sampleSumAll
  | .max => Table.convolveAll .max
  | .min => Table.convolveAll .min

/-- The greatest outcome of a table. -/
def Table.greatest? (t : Table) : Option Int := t.entries.getLast?.map (·.1)

namespace Formula

mutual

/-- The law of a formula. The laws of the parts are found from left to right, before they are
joined. -/
def law : Formula → Except LawError Table
  | .constant value => .ok (.sure value)
  | .die d => .ok d.law
  | .join joint first rest => do
    let t ← law first
    let ts ← laws rest
    joint.law (t :: ts)
  | .absolute body => do return (← law body).absolute
  | .explode body threshold limit => do
    let t ← law body
    -- zero is never taken: a law is a distribution (`isDistribution_law`), so it has an outcome and
    -- with it a greatest one (`Table.greatest?_eq_some`)
    return t.explode ((threshold <|> t.greatest?).getD 0) limit

/-- The laws of several formulas. -/
def laws : List Formula → Except LawError (List Table)
  | [] => .ok []
  | f :: rest => do
    let t ← law f
    let ts ← laws rest
    return t :: ts

end

theorem laws_eq_mapM (fs : List Formula) : laws fs = fs.mapM law := by
  induction fs with
  | nil => rfl
  | cons f rest ih => rw [laws, ih, List.mapM_cons]

theorem laws_cons_eq_ok {f : Formula} {rest : List Formula} {ts : List Table} :
    laws (f :: rest) = .ok ts ↔
      ∃ t us, law f = .ok t ∧ laws rest = .ok us ∧ ts = t :: us := by
  rw [laws_eq_mapM, laws_eq_mapM, Except.mapM_cons_eq_ok]

theorem law_join_eq_ok {joint : Joint} {first : Formula} {rest : List Formula} {t : Table} :
    law (.join joint first rest) = .ok t ↔
      ∃ u us, law first = .ok u ∧ laws rest = .ok us ∧ joint.law (u :: us) = .ok t := by
  simp only [law, Except.bind_eq_ok, exists_and_left]

theorem law_absolute_eq_ok {body : Formula} {t : Table} :
    law (.absolute body) = .ok t ↔ ∃ u, law body = .ok u ∧ u.absolute = t := by
  simp only [law, Except.bind_eq_ok, pure, Except.pure, Except.ok.injEq]

theorem law_explode_eq_ok {body : Formula} {threshold : Option Int} {limit : Nat} {t : Table} :
    law (.explode body threshold limit) = .ok t ↔
      ∃ u, law body = .ok u ∧ u.explode ((threshold <|> u.greatest?).getD 0) limit = t := by
  simp only [law, Except.bind_eq_ok, pure, Except.pure, Except.ok.injEq]

end Formula

end DiceLaw
