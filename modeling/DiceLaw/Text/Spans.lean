/-!
# Spans of code points

A class of characters is given by the spans of code points it covers.

## Main definitions

* `Spans`: a list of spans, each with its first and last code point
* `Spans.covers`: a character lies in one of the spans
-/

namespace DiceLaw.Text

/-- Spans of code points, each written as its first and its last one. -/
abbrev Spans := List (Nat × Nat)

/-- A character is covered when its code point lies in one of the spans. -/
def Spans.covers (spans : Spans) (c : Char) : Bool :=
  spans.any fun span => span.1 ≤ c.toNat && c.toNat ≤ span.2

theorem Spans.covers_iff {spans : Spans} {c : Char} :
    spans.covers c = true ↔ ∃ span ∈ spans, span.1 ≤ c.toNat ∧ c.toNat ≤ span.2 := by
  simp [Spans.covers]

end DiceLaw.Text
