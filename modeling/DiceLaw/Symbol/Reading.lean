import DiceLaw.Symbol.Token

/-!
# The symbols of a text

Tokens become symbols: a die takes its count of sides, and a minus sign is the sum with minus one
times what follows. Signs may leave additions with nothing to add, which are dropped.

## Main definitions

* `Symbol.ofTokens`: the symbols that tokens stand for
* `Symbol.endsOperand`, `Symbol.dropEmptyAdds`: additions that have a left and a right side
* `Symbol.ofText`: the symbols of a text

## Main results

* `Symbol.dropEmptyAdds_sublist`: dropping additions keeps all other symbols in place
-/

namespace DiceLaw

namespace Symbol

/-- The symbols that tokens stand for. -/
def ofTokens : List Token → Except ReadError (List Symbol)
  | [] => .ok []
  | .die :: .numeral digits :: rest =>
    if Number.ofDigits digits < 1 then .error (.noSides (Number.ofDigits digits))
    else (ofTokens rest).map (.die 1 (Number.ofDigits digits) :: ·)
  | .die :: _ => .error .numberMissing
  | .numeral digits :: rest => (ofTokens rest).map (.constant (Number.ofDigits digits) :: ·)
  | .minus :: rest => (ofTokens rest).map ([.marker .add, .constant (-1), .marker .mul] ++ ·)
  | .marker m :: rest => (ofTokens rest).map (.marker m :: ·)
  | .stray letter :: _ => .error (.badNumeral letter)

/-- An operand ends with a number, a die or a closing bracket. -/
def endsOperand : Symbol → Bool
  | .constant _ | .die _ _ | .marker .closing => true
  | _ => false

/-- Drops the additions that stand at the end or have no operand in front of them; the flag tells
whether one ends just before the symbols. What is in front is judged before anything is dropped. -/
def dropEmptyAddsAfter : Bool → List Symbol → List Symbol
  | _, [] => []
  | afterOperand, s :: rest =>
    if s = .marker .add && (rest.isEmpty || !afterOperand) then dropEmptyAddsAfter false rest
    else s :: dropEmptyAddsAfter s.endsOperand rest

/-- Drops the additions that have nothing to add. -/
def dropEmptyAdds (symbols : List Symbol) : List Symbol :=
  dropEmptyAddsAfter false symbols

/-- The symbols of a text. -/
def ofText (text : String) : Except ReadError (List Symbol) := do
  let tokens ← Token.ofText text
  let symbols ← ofTokens tokens
  return dropEmptyAdds symbols

theorem ofTokens_marker (m : Marker) (rest : List Token) :
    ofTokens (.marker m :: rest) = (ofTokens rest).map (.marker m :: ·) := by rw [ofTokens]

theorem dropEmptyAddsAfter_sublist (afterOperand : Bool) (symbols : List Symbol) :
    (dropEmptyAddsAfter afterOperand symbols).Sublist symbols := by
  induction symbols generalizing afterOperand with
  | nil => exact List.Sublist.slnil
  | cons s rest ih =>
    simp only [dropEmptyAddsAfter]
    split
    · exact (ih false).cons s
    · exact (ih _).cons_cons s

theorem dropEmptyAdds_sublist (symbols : List Symbol) :
    (dropEmptyAdds symbols).Sublist symbols :=
  dropEmptyAddsAfter_sublist false symbols

end Symbol

end DiceLaw
