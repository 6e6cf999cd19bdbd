import DiceLaw.Symbol.ReadError
import DiceLaw.Text.Blank
import DiceLaw.Text.Lowercase

/-!
# Tokens of a text

A text is sifted to the letters that formulas use, which are gathered into tokens: runs of digits,
the words that open a selection, and single characters. Operands side by side are a sample-sum
whose operator is left out; the tokens of a text have it put in.

## Main definitions

* `sifted`: the letters of a text, in lower case and without blanks
* `Token`, `Token.ofLetters`: the tokens that letters make up
* `Token.juxtaposed`, `Token.explicit`: where an operator is left out, and putting it in
* `Token.ofText`: the tokens of a text
* `Token.spelling`: the tokens in single characters
-/

namespace DiceLaw

/-! ## Letters -/

/-- The characters that formulas are written in. -/
def formulaLetters : List Char := "minax(,)dw0123456789+-*/".toList

/-- The letters of a text that is in lower case. Blanks are dropped; any other character that
formulas do not use is refused. -/
def sifted : List Char → Except ReadError (List Char)
  | [] => .ok []
  | c :: rest =>
    if formulaLetters.contains c then (sifted rest).map (c :: ·)
    else if Text.isBlank c then sifted rest
    else .error (.badCharacter c)

/-! ## Tokens -/

/-- A token of a formula. -/
inductive Token where
  | numeral (digits : List (Fin 10))
  | die
  | minus
  | marker (m : Marker)
  /-- A letter outside the word that it belongs to. -/
  | stray (letter : Char)
  deriving DecidableEq, Repr

namespace Token

/-- The token of a character other than a digit. A die has two letters. -/
def ofLetter (c : Char) : Token :=
  match c with
  | 'd' | 'w' => .die
  | '-' => .minus
  | '+' => .marker .add
  | '*' => .marker .mul
  | '/' => .marker .div
  | 'x' => .marker .sampleSum
  | ',' => .marker .comma
  | '(' => .marker .opening
  | ')' => .marker .closing
  | c => .stray c

/-- Puts a letter in front of tokens; digits side by side make one numeral. -/
def push (c : Char) (tokens : List Token) : List Token :=
  match Number.digit? c, tokens with
  | some d, .numeral digits :: rest => .numeral (d :: digits) :: rest
  | some d, tokens => .numeral [d] :: tokens
  | none, tokens => ofLetter c :: tokens

/-- The tokens of letters. A selection's word is one token with its bracket. -/
def ofLetters : List Char → List Token
  | [] => []
  | 'm' :: 'a' :: 'x' :: '(' :: rest => .marker .maxOpening :: ofLetters rest
  | 'm' :: 'i' :: 'n' :: '(' :: rest => .marker .minOpening :: ofLetters rest
  | c :: rest => push c (ofLetters rest)

/-! ## Operands side by side -/

/-- Between these two tokens the operator of a sample-sum is left out: a number in front of a die,
a number or a die's letter in front of a bracket, and a closing bracket in front of any opening. -/
def juxtaposed : Token → Token → Bool
  | .numeral _, .die => true
  | .numeral _, .marker .opening => true
  | .die, .marker .opening => true
  | .marker .closing, .marker m => m.opens
  | _, _ => false

/-- Puts in the operators that are left out. -/
def explicit : List Token → List Token
  | a :: b :: rest =>
    if juxtaposed a b then a :: .marker .sampleSum :: explicit (b :: rest)
    else a :: explicit (b :: rest)
  | tokens => tokens

/-- The tokens of a text. -/
def ofText (text : String) : Except ReadError (List Token) :=
  (sifted (Text.lowercase text.toList)).map fun letters => explicit (ofLetters letters)

/-! ## Spelling -/

/-- A token in single characters; the openings of selections are `M` and `N`. -/
def letters : Token → List Char
  | .numeral digits => digits.map Number.digitChar
  | .die => ['d']
  | .minus => ['-']
  | .marker .maxOpening => ['M']
  | .marker .minOpening => ['N']
  | .marker m => m.text.toList
  | .stray letter => [letter]

/-- Tokens in single characters. -/
def spelling (tokens : List Token) : String :=
  String.ofList (tokens.flatMap letters)

/-! ## Lemmas -/

theorem ofLetters_nil : ofLetters [] = [] := by rw [ofLetters]

@[simp] theorem explicit_nil : explicit [] = [] := rfl

@[simp] theorem explicit_singleton (a : Token) : explicit [a] = [a] := rfl

theorem explicit_cons_cons (a b : Token) (rest : List Token) :
    explicit (a :: b :: rest)
      = if juxtaposed a b then a :: .marker .sampleSum :: explicit (b :: rest)
        else a :: explicit (b :: rest) := rfl

end Token

end DiceLaw
