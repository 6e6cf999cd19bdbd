import DiceLaw.Symbol.Basic
import DiceLaw.Text.Quoted

/-!
# Why a text is not a formula

## Main definitions

* `ReadError`: the causes
* `ReadError.message`: what is said about each
-/

namespace DiceLaw

/-- The causes for which a text, or a sequence of symbols, is not a formula. -/
inductive ReadError where
  /-- A character that no formula uses. -/
  | badCharacter (c : Char)
  /-- A die without a count of sides. -/
  | numberMissing
  /-- A die with fewer than one side. -/
  | noSides (size : Nat)
  /-- A letter where a number may stand. -/
  | badNumeral (letter : Char)
  /-- A closing bracket that answers no opening one. -/
  | unmatchedClosing
  /-- Nothing where a part is needed. -/
  | emptyPart
  /-- An operator or a separator with nothing on one side. -/
  | operandMissing
  /-- A symbol alone that is no operand. -/
  | notOperand (symbol : Symbol)
  /-- Several symbols without an operator or brackets to join them. -/
  | unreadable (symbols : List Symbol)
  deriving DecidableEq, Repr

/-- What is said about a cause. -/
def ReadError.message : ReadError → String
  | .badCharacter c => "invalid character " ++ Text.quoted (String.singleton c) ++ " in input"
  | .numberMissing => "expected a number after 'd'"
  | .noSides size =>
    "a die needs at least one side, got d" ++ String.ofList (Number.numeral size)
  | .badNumeral letter => "malformed number " ++ Text.quoted (String.singleton letter)
  | .unmatchedClosing => "closing bracket without matching opening bracket"
  | .emptyPart => "empty sub-expression"
  | .operandMissing => "operator or separator without operand"
  | .notOperand symbol => "expected a number or a die, got " ++ symbol.text
  | .unreadable symbols => "unknown syntax: " ++ " ".intercalate (symbols.map Symbol.text)

end DiceLaw
