/-!
# Powers

## Main definitions

* `power`: a natural number raised to a natural exponent

## Main results

* `power_zero`, `power_succ`, `power_pos`: one factor more with each exponent
-/

namespace DiceLaw.Number

/-- A natural number raised to a natural exponent. -/
def power (base exponent : Nat) : Nat := Nat.pow base exponent

@[simp] theorem power_zero (base : Nat) : power base 0 = 1 := rfl

theorem power_succ (base exponent : Nat) :
    power base (exponent + 1) = power base exponent * base := rfl

theorem power_pos {base : Nat} (h : 0 < base) (exponent : Nat) : 0 < power base exponent := by
  induction exponent with
  | zero => exact Nat.one_pos
  | succ exponent ih => exact Nat.mul_pos ih h

end DiceLaw.Number
