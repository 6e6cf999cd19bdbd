import DiceLaw.Joint

/-!
# Dice formulas

A formula is built from numbers and dice by joining parts, by taking absolute values, and by
letting rolls explode. Every formula has a meaning as it stands: a joint has at least one part, a
die at least one face, and an exploding roll a limit that is not negative.

## Main definitions

* `Die`: consecutive faces
* `Formula`: the formulas; two formulas can be added and multiplied
* `Formula.same`: structural equality, which decides `=`

## Main results

* `Formula.same_iff`: two formulas are the same when they are equal
-/

namespace DiceLaw

/-- A die shows each whole number from `lo` to `hi` equally often. -/
structure Die where
  lo : Int
  hi : Int
  lo_le_hi : lo ≤ hi
  deriving DecidableEq, Repr

/-- A dice formula. -/
inductive Formula where
  | constant (value : Int)
  | die (d : Die)
  | join (joint : Joint) (first : Formula) (rest : List Formula)
  | absolute (body : Formula)
  /-- The body is rolled again, and added, while it reaches a threshold, up to `limit` times. The
  threshold is the greatest outcome of the body if none is given. -/
  | explode (body : Formula) (threshold : Option Int) (limit : Nat)
  deriving Repr

namespace Formula

instance : Inhabited Formula := ⟨.constant 0⟩

/-- The sum of two formulas. -/
instance : Add Formula := ⟨fun a b => .join .sum a [b]⟩

/-- The product of two formulas. -/
instance : Mul Formula := ⟨fun a b => .join .product a [b]⟩

/-! ## Equality -/

mutual

/-- Two formulas are the same when they are built in the same way from the same parts. -/
def same : Formula → Formula → Bool
  | .constant a, .constant b => a == b
  | .die a, .die b => a == b
  | .join j a as, .join k b bs => j == k && same a b && sameAll as bs
  | .absolute a, .absolute b => same a b
  | .explode a s m, .explode b t n => same a b && s == t && m == n
  | _, _ => false

/-- Two lists of formulas are the same when they agree part by part. -/
def sameAll : List Formula → List Formula → Bool
  | [], [] => true
  | a :: as, b :: bs => same a b && sameAll as bs
  | _, _ => false

end

mutual

/-- Being the same is being equal. -/
theorem same_iff : ∀ a b : Formula, same a b = true ↔ a = b
  | .constant _, b => by cases b <;> simp [same]
  | .die _, b => by cases b <;> simp [same]
  | .join _ a as, b => by
    cases b with
    | join => simp [same, same_iff a, sameAll_iff as, and_assoc]
    | _ => simp [same]
  | .absolute a, b => by
    cases b with
    | absolute => simp [same, same_iff a]
    | _ => simp [same]
  | .explode a _ _, b => by
    cases b with
    | explode => simp [same, same_iff a, and_assoc]
    | _ => simp [same]

theorem sameAll_iff : ∀ as bs : List Formula, sameAll as bs = true ↔ as = bs
  | [], bs => by cases bs <;> simp [sameAll]
  | a :: as, bs => by
    cases bs with
    | nil => simp [sameAll]
    | cons => simp [sameAll, same_iff a, sameAll_iff as]

end

instance : DecidableEq Formula := fun a b => decidable_of_iff _ (same_iff a b)

end Formula

end DiceLaw
