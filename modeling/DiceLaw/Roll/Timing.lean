import DiceLaw.Number.Binary64

/-!
# Elapsed time

## Main definitions

* `TimingError`: why there is no elapsed time
* `elapsedMilliseconds`: the whole milliseconds between two times in seconds
-/

namespace DiceLaw

/-- The causes for which there is no elapsed time. -/
inductive TimingError where
  /-- The time is infinite. -/
  | endless
  /-- The time is no number. -/
  | undefined
  deriving DecidableEq, Repr

/-- The whole milliseconds between two times in seconds: the difference and its thousandfold are
doubles, and what is left of a millisecond is dropped. -/
def elapsedMilliseconds (start stop : Binary64) : Except TimingError Int :=
  let elapsed := (stop.sub start).mul (.ofRat 1000)
  match elapsed.truncated with
  | some n => .ok n
  | none => .error (if elapsed = .notANumber then .undefined else .endless)

end DiceLaw
