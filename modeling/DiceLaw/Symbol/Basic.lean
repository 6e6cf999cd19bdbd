import DiceLaw.Number.Numeral

/-!
# Symbols of a formula

A formula is read as a sequence of symbols: numbers and dice, which are its operands, and the
markers between and around them.

## Main definitions

* `Marker`: operators, the comma, and brackets; a selection has an opening of its own
* `Symbol`: a marker or an operand
* `Marker.text`, `Symbol.text`: how they are written
-/

namespace DiceLaw

/-- The marks between and around operands. -/
inductive Marker where
  | add
  | mul
  | div
  | sampleSum
  | comma
  | opening
  | maxOpening
  | minOpening
  | closing
  deriving DecidableEq, Repr

/-- How a marker is written. -/
def Marker.text : Marker → String
  | .add => "+"
  | .mul => "*"
  | .div => "/"
  | .sampleSum => "x"
  | .comma => ","
  | .opening => "("
  | .maxOpening => "max("
  | .minOpening => "min("
  | .closing => ")"

/-- The markers that a closing bracket answers. -/
def Marker.opens : Marker → Bool
  | .opening | .maxOpening | .minOpening => true
  | _ => false

/-- A symbol of a formula. -/
inductive Symbol where
  | marker (m : Marker)
  | constant (value : Int)
  | die (lo hi : Int)
  /-- A place where no symbol stands. -/
  | gap
  deriving DecidableEq, Repr

namespace Symbol

/-- Operands are the symbols that have a law of their own. -/
def isOperand : Symbol → Bool
  | .constant _ | .die _ _ => true
  | _ => false

/-- A symbol is an opening when its marker is one. -/
def opens : Symbol → Bool
  | .marker m => m.opens
  | _ => false

/-- How a symbol is written. A die that starts at one is named by its last face alone. -/
def text : Symbol → String
  | .marker m => m.text
  | .constant value => String.ofList (Number.signedNumeral value)
  | .die lo hi =>
    let last := String.ofList (Number.signedNumeral hi)
    if lo = 1 then "d" ++ last
    else "d[" ++ String.ofList (Number.signedNumeral lo) ++ ".." ++ last ++ "]"
  | .gap => "None"

@[simp] theorem isOperand_marker (m : Marker) : (Symbol.marker m).isOperand = false := rfl

@[simp] theorem isOperand_constant (value : Int) : (Symbol.constant value).isOperand = true := rfl

@[simp] theorem isOperand_die (lo hi : Int) : (Symbol.die lo hi).isOperand = true := rfl

end Symbol

end DiceLaw
