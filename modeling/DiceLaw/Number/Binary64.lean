import DiceLaw.Number.Scale

/-!
# Doubles

Double precision numbers as exact values: not a number, or a sign and a rank on the scale of
magnitudes, with infinity at the last rank. Both zeros are kept. Every operation gives the double
nearest to the exact result.

## Main definitions

* `Binary64`: the doubles
* `Binary64.ofRat?`, `Binary64.ofRat`, `Binary64.ofDecimal`: rounding an exact number
* `Binary64.toRat?`, `Binary64.toBits?`, `Binary64.truncated`: the value, the bits, the whole part
* `Binary64.le`, `Binary64.atMost`: comparison with a double and with an exact number
* `Binary64.sub`, `Binary64.mul`, `Binary64.sqrt?`: arithmetic

## Main results

* `Binary64.le_iff_ordinal`: numbers are ordered by their signed ranks
* `Binary64.atMost_of_toRat?`: a finite double is compared by its value
-/

namespace DiceLaw

open Number

/-- A double: not a number, or a sign and the rank of its magnitude. -/
inductive Binary64 where
  | notANumber
  | signed (negative : Bool) (rank : Nat) (bounded : rank ≤ infinityRank)
  deriving DecidableEq

namespace Binary64

/-- Positive zero. -/
def zero : Binary64 := .signed false 0 (Nat.zero_le _)

/-- One: the rank where the distance is `2 ^ (-52)`. -/
def one : Binary64 := .signed false (1023 * binadeSize) (by decide)

/-- The infinity of a sign. -/
def infinity (negative : Bool) : Binary64 := .signed negative infinityRank (Nat.le_refl _)

/-! ## Values -/

/-- The magnitude at a rank. -/
def magnitude (rank : Nat) : Rat := mkRat (units rank) (power 2 unitExponent)

/-- The exact value of a finite double. -/
def toRat? : Binary64 → Option Rat
  | .notANumber => none
  | .signed negative rank _ =>
    if rank = infinityRank then none
    else some (if negative then -magnitude rank else magnitude rank)

/-- The bits of a number: the sign in front of the rank. -/
def toBits? : Binary64 → Option Nat
  | .notANumber => none
  | .signed negative rank _ => some (if negative then power 2 63 + rank else rank)

/-- The place of a number on the line: its rank with its sign. Both zeros have one place. -/
def ordinal? : Binary64 → Option Int
  | .notANumber => none
  | .signed negative rank _ => some (if negative then -(rank : Int) else rank)

/-! ## Rounding -/

/-- The double nearest to a number, none if its magnitude reaches infinity. A negative number
keeps its sign even when it comes out as zero. -/
def ofRat? (q : Rat) : Option Binary64 :=
  let rank := rankOfRatio q.num.natAbs q.den
  if h : rank < infinityRank then some (.signed (q.num < 0) rank (Nat.le_of_lt h)) else none

/-- The double nearest to a number, an infinity if its magnitude is too large. -/
def ofRat (q : Rat) : Binary64 :=
  (ofRat? q).getD (infinity (q.num < 0))

/-- The double nearest to a decimal, `digits * 10 ^ exponent` under its sign. A zero keeps the
sign it is written with. -/
def ofDecimal (negative : Bool) (digits : Nat) (exponent : Int) : Binary64 :=
  let rank := rankOfRatio (digits * power 10 exponent.toNat) (power 10 (-exponent).toNat)
  if h : rank < infinityRank then .signed negative rank (Nat.le_of_lt h) else infinity negative

/-! ## Order -/

/-- Numbers are ordered by their places on the line; what is not a number has no place. -/
def le (a b : Binary64) : Bool :=
  match a.ordinal?, b.ordinal? with
  | some m, some n => m ≤ n
  | _, _ => false

theorem le_iff_ordinal {a b : Binary64} :
    a.le b = true ↔ ∃ m n, a.ordinal? = some m ∧ b.ordinal? = some n ∧ m ≤ n := by
  unfold le
  cases a.ordinal? <;> cases b.ordinal? <;> simp

/-- A double is at most an exact number. Infinities lie beyond all numbers. -/
def atMost (a : Binary64) (q : Rat) : Bool :=
  match a with
  | .notANumber => false
  | .signed negative rank _ =>
    if rank = infinityRank then negative
    else (if negative then -magnitude rank else magnitude rank) ≤ q

/-- A finite double is at most a number when its value is. -/
theorem atMost_of_toRat? {a : Binary64} {p : Rat} (h : a.toRat? = some p) (q : Rat) :
    a.atMost q = decide (p ≤ q) := by
  cases a with
  | notANumber => cases h
  | signed negative rank bounded =>
    simp only [toRat?] at h
    split at h
    · cases h
    · rename_i hrank
      obtain rfl := Option.some.inj h
      simp only [atMost, if_neg hrank]

/-! ## Arithmetic -/

/-- The exact difference, rounded. A difference of zeros is negative only if the first zero is
negative and the second is not; equal numbers have the difference zero. -/
def sub : Binary64 → Binary64 → Binary64
  | .notANumber, _ | _, .notANumber => .notANumber
  | .signed s r hr, .signed t k hk =>
    match (signed s r hr).toRat?, (signed t k hk).toRat? with
    | some a, some b =>
      if a - b = 0 then .signed (s && !t) 0 (Nat.zero_le _) else ofRat (a - b)
    | none, some _ => infinity s
    | some _, none => infinity !t
    | none, none => if s = t then .notANumber else infinity s

/-- The exact product, rounded. It is negative if the signs differ, and zero times infinity is not
a number. -/
def mul : Binary64 → Binary64 → Binary64
  | .notANumber, _ | _, .notANumber => .notANumber
  | .signed s r hr, .signed t k hk =>
    match (signed s r hr).toRat?, (signed t k hk).toRat? with
    | some a, some b =>
      if a * b = 0 then .signed (s != t) 0 (Nat.zero_le _) else ofRat (a * b)
    | none, some b => if b = 0 then .notANumber else infinity (s != t)
    | some a, none => if a = 0 then .notANumber else infinity (s != t)
    | none, none => infinity (s != t)

/-- The square root of a finite double, rounded; a negative number has none, and a zero is its own
root. -/
def sqrt? : Binary64 → Option Binary64
  | .notANumber => none
  | .signed negative rank bounded =>
    if rank = 0 then some (.signed negative rank bounded)
    else if negative || rank = infinityRank then none
    else
      let root := rankOfRoot rank
      if h : root ≤ infinityRank then some (.signed false root h) else none

/-- The whole part of a finite double: digits after the point are dropped. -/
def truncated (a : Binary64) : Option Int :=
  a.toRat?.map fun q => q.num.tdiv q.den

end Binary64

end DiceLaw
