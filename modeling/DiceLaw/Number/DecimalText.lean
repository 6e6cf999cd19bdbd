import DiceLaw.Number.Binary64

/-!
# Decimal text of doubles

A double is written with the fewest digits that read back as the same double; of two such texts
the nearer one is taken.

## Main definitions

* `readsBack`: a decimal is rounded to a given rank
* `shortestDecimal`: the digits and the exponent that are written for a rank
* `FloatFormat`, `Binary64.text`: the decisions of a notation, and the text
-/

namespace DiceLaw.Number

/-- The decimal `digits * 10 ^ exponent` is rounded to the given rank. -/
def readsBack (rank digits : Nat) (exponent : Int) : Bool :=
  rankOfRatio (digits * power 10 exponent.toNat) (power 10 (-exponent).toNat) == rank

/-- Every positive magnitude lies above `10 ^ (-exponentFloor)`. -/
def exponentFloor : Nat := 400

/-- The exponent of the first digit of the magnitude at a rank. -/
def leadingExponent (rank : Nat) : Int :=
  let reached (n : Nat) : Bool :=
    power 2 unitExponent * power 10 (n - exponentFloor)
      ≤ units rank * power 10 (exponentFloor - n)
  (greatest reached 10 0 : Int) - exponentFloor

/-- Among the decimals with the last digit at `exponent`, one that reads back: the nearest to the
magnitude from below or above, the nearer if both do, the even one if they are equally near. -/
def decimalAt? (rank : Nat) (exponent : Int) : Option Nat :=
  let up := power 2 unitExponent * power 10 exponent.toNat
  let scaled := units rank * power 10 (-exponent).toNat
  let below := scaled / up
  match readsBack rank below exponent, readsBack rank (below + 1) exponent with
  | true, true =>
    match compare (2 * scaled) ((2 * below + 1) * up) with
    | .lt => some below
    | .gt => some (below + 1)
    | .eq => some (if below % 2 = 0 then below else below + 1)
  | true, false => some below
  | false, true => some (below + 1)
  | false, false => none

/-- The digits and the exponent of the shortest decimal that reads back as the rank. Seventeen
digits always do. -/
def shortestDecimal (rank : Nat) : Nat × Int :=
  let leading := leadingExponent rank
  let attempt (shift : Nat) : Option (Nat × Int) :=
    (decimalAt? rank (leading - shift)).map fun digits => (digits, leading - shift)
  ((List.range 17).findSome? attempt).getD (0, 0)

/-! ## Notation -/

/-- The decisions of a notation for doubles. -/
structure FloatFormat where
  /-- The least exponent of the first digit that is written without an exponent part. -/
  lowest : Int
  /-- The greatest exponent of the first digit that is written without an exponent part. -/
  highest : Int
  /-- The least count of digits in an exponent part. -/
  exponentWidth : Nat
  /-- The text of infinity. -/
  infinity : String
  /-- The text of what is not a number. -/
  notANumber : String

/-- Doubles are written positionally from `10 ^ (-4)` up to `10 ^ 16`. -/
def plainFloat : FloatFormat := ⟨-4, 15, 2, "inf", "nan"⟩

/-- The digits of a number without the zeros at its end, and how many those are. -/
def trimmedDigits (digits : Nat) : List Char × Nat :=
  let written := Nat.toDigits 10 digits
  let ending := written.reverse.takeWhile (· == '0')
  (written.take (written.length - ending.length), ending.length)

/-- A magnitude whose digits stand after `0.` and are multiplied by `10 ^ point`, without an
exponent part. A whole number ends in `.0`. -/
def positional (digits : List Char) (point : Int) : List Char :=
  if point ≤ 0 then
    '0' :: '.' :: List.replicate (-point).toNat '0' ++ digits
  else if point < digits.length then
    digits.take point.toNat ++ '.' :: digits.drop point.toNat
  else
    digits ++ List.replicate (point.toNat - digits.length) '0' ++ ['.', '0']

/-- A magnitude with one digit before the point and an exponent part. -/
def scientific (width : Nat) (digits : List Char) (exponent : Int) : List Char :=
  let fraction := match digits.drop 1 with
    | [] => []
    | rest => '.' :: rest
  let power := Nat.toDigits 10 exponent.natAbs
  digits.take 1 ++ fraction ++ 'e' :: (if exponent < 0 then '-' else '+')
    :: List.replicate (width - power.length) '0' ++ power

/-- The text of a positive finite magnitude. -/
def FloatFormat.magnitudeText (format : FloatFormat) (rank : Nat) : List Char :=
  if rank = 0 then ['0', '.', '0']
  else
    let (number, exponent) := shortestDecimal rank
    let (digits, zeros) := trimmedDigits number
    let leading := digits.length + zeros + exponent - 1
    if format.lowest ≤ leading && leading ≤ format.highest then positional digits (leading + 1)
    else scientific format.exponentWidth digits leading

/-- The text of a double under a format. -/
def FloatFormat.text (format : FloatFormat) : Binary64 → String
  | .notANumber => format.notANumber
  | .signed negative rank _ =>
    let body := if rank = infinityRank then format.infinity
      else String.ofList (format.magnitudeText rank)
    if negative then "-" ++ body else body

end DiceLaw.Number

namespace DiceLaw

/-- The text of a double. -/
def Binary64.text (a : Binary64) : String :=
  Number.plainFloat.text a

end DiceLaw
