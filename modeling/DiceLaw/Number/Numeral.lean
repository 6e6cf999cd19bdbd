/-!
# Numerals

Whole numbers in decimal digits.

## Main definitions

* `numeral`, `signedNumeral`: the digits of a natural number, and of an integer
* `digit?`, `ofDigits`: reading digits

## Main results

* `digit?_digitChar`, `ofDigits_numeral`: a numeral reads as its number
-/

namespace DiceLaw.Number

/-- The decimal digits of a natural number, without leading zeros. -/
def numeral (n : Nat) : List Char := Nat.toDigits 10 n

/-- An integer: a minus sign if it is negative, then its digits. -/
def signedNumeral (n : Int) : List Char :=
  if n < 0 then '-' :: numeral n.natAbs else numeral n.natAbs

/-- The value of a decimal digit. -/
def digit? (c : Char) : Option (Fin 10) :=
  if h : 48 ≤ c.toNat ∧ c.toNat - 48 < 10 then some ⟨c.toNat - 48, h.2⟩ else none

/-- The character of a decimal digit. -/
def digitChar (d : Fin 10) : Char := Nat.digitChar d.val

/-- The number that digits write, the first one having the greatest weight. -/
def ofDigits (digits : List (Fin 10)) : Nat :=
  digits.foldl (fun n d => 10 * n + d.val) 0

theorem digit?_digitChar : ∀ d : Fin 10, digit? (digitChar d) = some d := by decide

theorem digit?_eq_some {c : Char} {d : Fin 10} (h : digit? c = some d) : c = digitChar d := by
  unfold digit? at h
  split at h
  · rename_i hc
    obtain rfl := Option.some.inj h
    have hchar : c = Char.ofNat (c.toNat - 48 + 48) := by
      rw [Nat.sub_add_cancel hc.1, Char.ofNat_toNat]
    have hall : ∀ d : Fin 10, Char.ofNat (d.val + 48) = digitChar d := by decide
    exact hchar.trans (hall ⟨c.toNat - 48, hc.2⟩)
  · cases h

/-- The digits of a numeral give back its number. -/
theorem ofDigits_numeral {n : Nat} {digits : List (Fin 10)}
    (h : numeral n = digits.map digitChar) : ofDigits digits = n := by
  have hread : ∀ (ds : List (Fin 10)) (start : Nat),
      Nat.ofDigitChars 10 (ds.map digitChar) start
        = ds.foldl (fun n d => 10 * n + d.val) start := by
    intro ds
    induction ds with
    | nil => intro start; rfl
    | cons d ds ih =>
      intro start
      have hd : ∀ d : Fin 10, (digitChar d).toNat - '0'.toNat = d.val := by decide
      simp only [List.map_cons, Nat.ofDigitChars, List.foldl_cons] at ih ⊢
      rw [hd d, ih]
  have hn : Nat.ofDigitChars 10 (numeral n) 0 = n :=
    Nat.ofDigitChars_toDigits (by decide) (by decide)
  rw [h, hread] at hn
  exact hn

end DiceLaw.Number
