import DiceLaw.Number.Power

/-!
# Binary search

The greatest number with a property that is lost at some point and never regained, found bit by
bit.

## Main definitions

* `greatest`: the greatest number above a start, within a count of bits, that has a property

## Main results

* `greatest_holds`, `not_of_greatest_lt`: the number found has the property and no greater one does
-/

namespace DiceLaw.Number

/-- The greatest number with the property `p` among the `2 ^ bits` numbers from `start` on. -/
def greatest (p : Nat → Bool) : (bits start : Nat) → Nat
  | 0, start => start
  | bits + 1, start =>
    greatest p bits (if p (start + power 2 bits) then start + power 2 bits else start)

section

variable {p : Nat → Bool}

theorem greatest_lt (bits start : Nat) : greatest p bits start < start + power 2 bits := by
  induction bits generalizing start with
  | zero => simp [greatest]
  | succ bits ih =>
    have h := ih (if p (start + power 2 bits) then start + power 2 bits else start)
    rw [power_succ]
    simp only [greatest]
    by_cases hp : p (start + power 2 bits) = true
    · rw [if_pos hp] at h ⊢; omega
    · rw [if_neg hp] at h ⊢; omega

/-- The number found has the property if the start has it. -/
theorem greatest_holds (bits : Nat) {start : Nat} (h : p start = true) :
    p (greatest p bits start) = true := by
  induction bits generalizing start with
  | zero => exact h
  | succ bits ih =>
    refine ih ?_
    split
    · assumption
    · exact h

/-- No greater number in reach has the property, if it is never regained. -/
theorem not_of_greatest_lt (anti : ∀ a b, a ≤ b → p b = true → p a = true)
    (bits : Nat) {start k : Nat} (hk : k < start + power 2 bits) (hlt : greatest p bits start < k) :
    p k = false := by
  induction bits generalizing start with
  | zero => simp only [greatest, power_zero] at hlt hk; omega
  | succ bits ih =>
    rw [power_succ] at hk
    simp only [greatest] at hlt
    split at hlt
    · exact ih (by omega) hlt
    · rename_i hmid
      by_cases hcase : k < start + power 2 bits
      · exact ih hcase hlt
      · cases hp : p k with
        | false => rfl
        | true => exact absurd (anti _ k (by omega) hp) hmid

end

end DiceLaw.Number
