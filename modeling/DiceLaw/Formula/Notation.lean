import DiceLaw.Formula.Basic
import DiceLaw.Number.Numeral

/-!
# Writing a formula

A formula is written with as few brackets as its joints allow: a part is put in brackets when it
binds no tighter than the joint around it. A sum takes a negative part as it is, and minus one times
something is written with a minus sign.

## Main definitions

* `Joint.strength?`: how tight a joint binds
* `Formula.needsBrackets`: a part is put in brackets
* `Formula.chars`, `Formula.text`: the text of a formula

## Main results

* `Formula.text_toList`: the characters of the text
-/

namespace DiceLaw

/-- How tight a joint binds its parts. A selection has brackets of its own. -/
def Joint.strength? : Joint → Option Nat
  | .sum => some 0
  | .quotient => some 1
  | .product => some 2
  | .sampleSum => some 3
  | .max | .min => none

/-- What is written between the parts of a joint. -/
def Joint.separator : Joint → List Char
  | .sum => ['+']
  | .quotient => ['/']
  | .product => ['*']
  | .sampleSum => ['x']
  | .max | .min => [',']

namespace Formula

/-- A part of a joint is put in brackets if its own joint binds no tighter. A negative number is,
where a minus sign cannot follow the operator. -/
def needsBrackets (outer : Joint) : Formula → Bool
  | .constant value =>
    match outer with
    | .product | .sampleSum => value < 0
    | _ => false
  | .join inner _ _ =>
    match inner.strength?, outer.strength? with
    | some i, some o => i ≤ o
    | _, _ => false
  | _ => false

/-- The text of a part inside a joint, from its text alone. -/
def asPart (outer : Joint) (part : Formula) (written : List Char) : List Char :=
  if needsBrackets outer part then '(' :: written ++ [')'] else written

/-- The text of a sum from the texts of its parts. A part that starts with a minus sign needs no
other sign in front. -/
def sumText (first : List Char) (rest : List (List Char)) : List Char :=
  first ++ rest.flatMap fun part => if part.head? = some '-' then part else '+' :: part

/-- The text of a joint from its first part and the texts of all its parts. -/
def joinText (joint : Joint) (head : Formula) (first : List Char) (rest : List (List Char)) :
    List Char :=
  match joint with
  | .sum => sumText first rest
  | .product =>
    if head = .constant (-1) ∧ rest ≠ [] then '-' :: joint.separator.intercalate rest
    else joint.separator.intercalate (first :: rest)
  | .quotient | .sampleSum => joint.separator.intercalate (first :: rest)
  | .max => "max(".toList ++ joint.separator.intercalate (first :: rest) ++ [')']
  | .min => "min(".toList ++ joint.separator.intercalate (first :: rest) ++ [')']

/-- The text of a threshold that may be missing. -/
def thresholdText : Option Int → List Char
  | none => "None".toList
  | some value => Number.signedNumeral value

mutual

/-- The characters of a formula. A die that does not start at one has no notation. -/
def chars : Formula → List Char
  | .constant value => Number.signedNumeral value
  | .die d => if d.lo = 1 then 'd' :: Number.signedNumeral d.hi else []
  | .join joint first rest =>
    joinText joint first (asPart joint first (chars first)) (partChars joint rest)
  | .absolute body => "abs(".toList ++ chars body ++ [')']
  | .explode body threshold limit =>
    "explode(".toList ++ chars body ++ ',' :: thresholdText threshold ++ ',' ::
      Number.numeral limit ++ [')']

/-- The characters of each of several parts of a joint. -/
def partChars (joint : Joint) : List Formula → List (List Char)
  | [] => []
  | part :: rest => asPart joint part (chars part) :: partChars joint rest

end

/-! ## Equations -/

-- the words in the texts make the equations that Lean derives from the definitions slow

theorem joinText_product (head : Formula) (first : List Char) (rest : List (List Char)) :
    joinText .product head first rest
      = if head = .constant (-1) ∧ rest ≠ [] then '-' :: Joint.product.separator.intercalate rest
        else Joint.product.separator.intercalate (first :: rest) := rfl

theorem chars_constant (value : Int) : chars (.constant value) = Number.signedNumeral value := rfl

theorem chars_die {d : Die} (h : d.lo = 1) :
    chars (.die d) = 'd' :: Number.signedNumeral d.hi := if_pos h

theorem chars_join (joint : Joint) (first : Formula) (rest : List Formula) :
    chars (.join joint first rest)
      = joinText joint first (asPart joint first (chars first)) (partChars joint rest) := rfl

theorem chars_absolute (body : Formula) :
    chars (.absolute body) = "abs(".toList ++ chars body ++ [')'] := rfl

theorem chars_explode (body : Formula) (threshold : Option Int) (limit : Nat) :
    chars (.explode body threshold limit)
      = "explode(".toList ++ chars body ++ ',' :: thresholdText threshold ++ ',' ::
          Number.numeral limit ++ [')'] := rfl

/-- The text of a formula. -/
def text (f : Formula) : String := String.ofList (chars f)

@[simp] theorem text_toList (f : Formula) : f.text.toList = chars f := by simp [text]

theorem partChars_eq_map (joint : Joint) (parts : List Formula) :
    partChars joint parts = parts.map fun part => asPart joint part (chars part) := by
  induction parts with
  | nil => rfl
  | cons part rest ih => rw [partChars, ih, List.map_cons]

end Formula

end DiceLaw
