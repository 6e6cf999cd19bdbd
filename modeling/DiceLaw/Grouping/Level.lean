import DiceLaw.Symbol.ReadError

/-!
# The outer level of a sequence of symbols

Brackets put symbols on levels. A sequence is searched for a marker on its outer level, outside all
brackets, and cut there.

## Main definitions

* `Level.after`: the depth after a symbol
* `Level.contains`: a marker occurs outside all brackets
* `Level.split`: the sequence is cut at a marker outside all brackets

## Main results

* `Level.segments_length`: cutting takes out the markers and nothing else
* `Level.length_lt_of_mem_split`: where a marker was found, every segment is shorter
-/

namespace DiceLaw

namespace Level

/-- The depth of brackets after a symbol. A bracket that closes nothing is refused. -/
def after (depth : Nat) (s : Symbol) : Except ReadError Nat :=
  if s.opens then .ok (depth + 1)
  else if s = .marker .closing then
    match depth with
    | 0 => .error .unmatchedClosing
    | depth + 1 => .ok depth
  else .ok depth

/-- A marker occurs outside all brackets, in symbols that start at a given depth. The search ends
at the first such place. -/
def containsFrom (m : Marker) : Nat → List Symbol → Except ReadError Bool
  | _, [] => .ok false
  | depth, s :: rest =>
    if depth = 0 ∧ s = .marker m then .ok true
    else do containsFrom m (← after depth s) rest

/-- A marker occurs outside all brackets. -/
def contains (m : Marker) (symbols : List Symbol) : Except ReadError Bool :=
  containsFrom m 0 symbols

/-- Symbols that start at a given depth, cut where a marker stands outside all brackets: the first
segment and the others. -/
def segmentsFrom (m : Marker) :
    Nat → List Symbol → Except ReadError (List Symbol × List (List Symbol))
  | _, [] => .ok ([], [])
  | depth, s :: rest =>
    if depth = 0 ∧ s = .marker m then do
      let (first, others) ← segmentsFrom m 0 rest
      return ([], first :: others)
    else do
      let (first, others) ← segmentsFrom m (← after depth s) rest
      return (s :: first, others)

/-- Cuts symbols where a marker stands outside all brackets; no segment may be empty. -/
def split (m : Marker) (symbols : List Symbol) : Except ReadError (List (List Symbol)) := do
  let (first, others) ← segmentsFrom m 0 symbols
  if (first :: others).any List.isEmpty then .error .operandMissing
  else return first :: others

/-! ## Lengths -/

section

variable {m : Marker}

/-- The symbols of segments, with one more for the cut in front of each. -/
def lengthWithCuts : List (List Symbol) → Nat
  | [] => 0
  | segment :: rest => segment.length + 1 + lengthWithCuts rest

/-- The symbols of all segments, and one for each cut, are the symbols that were cut. -/
theorem segments_length {depth : Nat} {symbols first : List Symbol} {others : List (List Symbol)}
    (h : segmentsFrom m depth symbols = .ok (first, others)) :
    first.length + lengthWithCuts others = symbols.length := by
  induction symbols generalizing depth first others with
  | nil =>
    obtain ⟨rfl, rfl⟩ : [] = first ∧ [] = others := by simpa [segmentsFrom] using h
    rfl
  | cons s rest ih =>
    simp only [segmentsFrom] at h
    split at h
    · cases hr : segmentsFrom m 0 rest with
      | error e => rw [hr] at h; cases h
      | ok p =>
        rw [hr] at h
        obtain ⟨rfl, rfl⟩ : [] = first ∧ p.1 :: p.2 = others := by
          simpa [bind, Except.bind, pure, Except.pure] using h
        have := ih hr
        simp only [List.length_nil, lengthWithCuts, List.length_cons]
        omega
    · cases ha : after depth s with
      | error e => rw [ha] at h; cases h
      | ok next =>
        rw [ha] at h
        cases hr : segmentsFrom m next rest with
        | error e => simp [bind, Except.bind, hr] at h
        | ok p =>
          obtain ⟨rfl, rfl⟩ : s :: p.1 = first ∧ p.2 = others := by
            simpa [bind, Except.bind, pure, Except.pure, hr] using h
          have := ih hr
          simp only [List.length_cons]
          omega

theorem length_lt_lengthWithCuts {others : List (List Symbol)} {segment : List Symbol}
    (h : segment ∈ others) : segment.length < lengthWithCuts others := by
  induction others with
  | nil => cases h
  | cons s rest ih =>
    simp only [lengthWithCuts]
    rcases List.mem_cons.1 h with rfl | h
    · omega
    · have := ih h; omega

theorem split_eq_ok {symbols : List Symbol} {segments : List (List Symbol)}
    (h : split m symbols = .ok segments) :
    ∃ first others, segmentsFrom m 0 symbols = .ok (first, others) ∧
      segments = first :: others := by
  cases hs : segmentsFrom m 0 symbols with
  | error e => simp [split, hs, bind, Except.bind] at h
  | ok p =>
    refine ⟨p.1, p.2, rfl, ?_⟩
    simp only [split, hs, bind, Except.bind] at h
    split at h
    · cases h
    · simpa [pure, Except.pure] using h.symm

/-- No segment is longer than what was cut. -/
theorem length_le_of_mem_split {symbols segment : List Symbol} {segments : List (List Symbol)}
    (h : split m symbols = .ok segments) (hmem : segment ∈ segments) :
    segment.length ≤ symbols.length := by
  obtain ⟨first, others, hs, rfl⟩ := split_eq_ok h
  have hlen := segments_length hs
  rcases List.mem_cons.1 hmem with rfl | hmem
  · omega
  · have := length_lt_lengthWithCuts hmem
    omega

/-- A marker that was found makes a cut. -/
theorem others_ne_nil_of_contains {depth : Nat} {symbols first : List Symbol}
    {others : List (List Symbol)} (hc : containsFrom m depth symbols = .ok true)
    (hs : segmentsFrom m depth symbols = .ok (first, others)) : others ≠ [] := by
  induction symbols generalizing depth first others with
  | nil => cases hc
  | cons s rest ih =>
    simp only [containsFrom, segmentsFrom] at hc hs
    split at hs
    · cases hr : segmentsFrom m 0 rest with
      | error e => rw [hr] at hs; cases hs
      | ok p =>
        rw [hr] at hs
        obtain ⟨-, rfl⟩ : [] = first ∧ p.1 :: p.2 = others := by
          simpa [bind, Except.bind, pure, Except.pure] using hs
        exact List.cons_ne_nil _ _
    · rename_i hne
      rw [if_neg hne] at hc
      cases ha : after depth s with
      | error e => rw [ha] at hs; cases hs
      | ok next =>
        rw [ha] at hs hc
        cases hr : segmentsFrom m next rest with
        | error e => simp [bind, Except.bind, hr] at hs
        | ok p =>
          obtain ⟨-, rfl⟩ : s :: p.1 = first ∧ p.2 = others := by
            simpa [bind, Except.bind, pure, Except.pure, hr] using hs
          exact ih hc hr

/-- Where a marker was found, every segment is shorter than the whole. -/
theorem length_lt_of_mem_split {symbols segment : List Symbol} {segments : List (List Symbol)}
    (hc : contains m symbols = .ok true) (h : split m symbols = .ok segments)
    (hmem : segment ∈ segments) : segment.length < symbols.length := by
  obtain ⟨first, others, hs, rfl⟩ := split_eq_ok h
  have hlen := segments_length hs
  rcases List.mem_cons.1 hmem with rfl | hmem
  · cases others with
    | nil => exact absurd rfl (others_ne_nil_of_contains hc hs)
    | cons other rest => simp only [lengthWithCuts] at hlen; omega
  · have := length_lt_lengthWithCuts hmem
    omega

end

end Level

end DiceLaw
