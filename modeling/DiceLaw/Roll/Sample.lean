import DiceLaw.Roll.Query

/-!
# Rolling

A roll takes a draw between zero and one and comes out at the first outcome whose running sum
reaches it. Draws are taken from a list, one by one.

## Main definitions

* `DrawError`: why a roll does not come out
* `Roll.outcomeAt?`: the outcome at an exact probability
* `Roll.sample`: the outcome for a draw
* `Roll.sampleNext`, `Roll.sampleMany`: outcomes for the next draws of a list

## Main results

* `Roll.sample_of_toRat?`: a finite draw stands for its exact value
-/

namespace DiceLaw

/-- The causes for which a roll does not come out. -/
inductive DrawError where
  /-- The running sums do not reach the draw. -/
  | unreached (draw : Binary64)
  /-- No draw is left. -/
  | noDraw
  deriving DecidableEq

namespace Roll

variable (r : Roll)

/-- The first outcome whose running sum is at least the given number. -/
def outcomeAt? (p : Rat) : Option Int :=
  (r.table.cumulative.find? fun e => p ≤ e.2).map (·.1)

/-- The outcome for a draw: the first whose running sum is at least the draw, compared exactly. -/
def sample (draw : Binary64) : Except DrawError Int :=
  match r.table.cumulative.find? fun e => draw.atMost e.2 with
  | some e => .ok e.1
  | none => .error (.unreached draw)

/-- A finite draw stands for its exact value. -/
theorem sample_of_toRat? {draw : Binary64} {p : Rat} (h : draw.toRat? = some p) :
    r.sample draw = match r.outcomeAt? p with
      | some v => .ok v
      | none => .error (.unreached draw) := by
  have hfun : (fun e : Entry => draw.atMost e.2) = fun e : Entry => decide (p ≤ e.2) := by
    funext e
    exact Binary64.atMost_of_toRat? h e.2
  rw [sample, outcomeAt?, hfun]
  cases r.table.cumulative.find? fun e => decide (p ≤ e.2) <;> rfl

/-- The outcome for the next draw, and the draws that are left. -/
def sampleNext : List Binary64 → Except DrawError Int × List Binary64
  | [] => (.error .noDraw, [])
  | draw :: rest => (r.sample draw, rest)

/-- The outcomes for the next draws, and the draws that are left. The first draw that has no
outcome ends it, and is taken. -/
def sampleMany : Nat → List Binary64 → Except DrawError (List Int) × List Binary64
  | 0, draws => (.ok [], draws)
  | n + 1, draws =>
    match r.sampleNext draws with
    | (.error e, left) => (.error e, left)
    | (.ok v, left) =>
      match sampleMany n left with
      | (.error e, left) => (.error e, left)
      | (.ok vs, left) => (.ok (v :: vs), left)

end Roll

end DiceLaw
