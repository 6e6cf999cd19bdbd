import DiceLaw.Text.Spans

/-!
# Blank characters

The characters that separate without being written: spaces of every width, line and paragraph
ends, and the four information separators.

## Main definitions

* `isBlank`: a character is blank

## Main results

* `isBlank_of_isWhitespace`: the six common blanks are among them
-/

namespace DiceLaw.Text

/-- The spans of blank characters. -/
def blankSpans : Spans := [
  (9, 13), (28, 32), (133, 133), (160, 160), (5760, 5760), (8192, 8202), (8232, 8233),
  (8239, 8239), (8287, 8287), (12288, 12288)]

/-- Blank characters carry no meaning and are dropped wherever they stand. -/
def isBlank (c : Char) : Bool :=
  blankSpans.covers c

theorem isBlank_of_isWhitespace {c : Char} (h : c.isWhitespace = true) : isBlank c = true := by
  simp only [Char.isWhitespace, Bool.or_eq_true, decide_eq_true_eq] at h
  rcases h with ((rfl | rfl) | rfl) | rfl <;> decide

end DiceLaw.Text
