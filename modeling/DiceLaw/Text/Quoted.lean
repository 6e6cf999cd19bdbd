import DiceLaw.Text.Printable

/-!
# Quoted text

Text as it is shown inside a message: between quotation marks, with everything that cannot be shown
written by its code point.

## Main definitions

* `hexDigits`: a number in a fixed count of hexadecimal digits
* `quotationMark`: the mark that a text is put between
* `escaped`: one character between two such marks
* `quoted`: a whole text

## Main results

* `escaped_of_plain`: a printable character other than a mark and the backslash stands for itself
-/

namespace DiceLaw.Text

/-- The last `width` hexadecimal digits of a number, in lower case. -/
def hexDigits : Nat → Nat → List Char
  | 0, _ => []
  | width + 1, n => hexDigits width (n / 16) ++ [Nat.digitChar (n % 16)]

/-- A text is put between single marks, unless it holds a single mark and no double one. -/
def quotationMark (text : List Char) : Char :=
  if text.contains '\'' && !text.contains '"' then '"' else '\''

/-- A character without a glyph is written by its code point, in the narrowest of three widths. -/
def codePointEscape (c : Char) : List Char :=
  if c.toNat < 0x100 then '\\' :: 'x' :: hexDigits 2 c.toNat
  else if c.toNat < 0x10000 then '\\' :: 'u' :: hexDigits 4 c.toNat
  else '\\' :: 'U' :: hexDigits 8 c.toNat

/-- One character between two marks. -/
def escaped (mark c : Char) : List Char :=
  if c = mark || c = '\\' then ['\\', c]
  else if c = '\n' then ['\\', 'n']
  else if c = '\t' then ['\\', 't']
  else if c = '\r' then ['\\', 'r']
  else if isPrintable c then [c]
  else codePointEscape c

/-- A text between its marks. -/
def quoted (text : String) : String :=
  let mark := quotationMark text.toList
  String.ofList (mark :: text.toList.flatMap (escaped mark) ++ [mark])

theorem escaped_of_plain {mark c : Char} (hmark : c ≠ mark) (hslash : c ≠ '\\')
    (h : isPrintable c = true) : escaped mark c = [c] := by
  have hn : c ≠ '\n' := by rintro rfl; revert h; decide
  have ht : c ≠ '\t' := by rintro rfl; revert h; decide
  have hr : c ≠ '\r' := by rintro rfl; revert h; decide
  simp [escaped, hmark, hslash, hn, ht, hr, h]

end DiceLaw.Text
