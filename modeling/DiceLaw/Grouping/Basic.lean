import DiceLaw.Grouping.Level
import DiceLaw.Joint

/-!
# Groupings

A sequence of symbols is grouped by looking at its outer level: it is cut at the operator that
binds loosest, else its outer brackets are taken off. What comes out is grouped in the same way.

## Main definitions

* `Grouping`: a tree of joints over symbols
* `Outline`, `outline`: what the outer level of a sequence shows
* `Grouping.ofSymbols`: the grouping of a sequence

## Main results

* `Outline.shorter_of_outline`: grouping goes on with shorter sequences
-/

namespace DiceLaw

/-- A tree of joints whose leaves are symbols. -/
inductive Grouping where
  | leaf (s : Symbol)
  | node (joint : Joint) (parts : List Grouping)
  deriving Repr

/-! ## The outer level -/

/-- The operators, the loosest first. -/
def precedence : List (Marker × Joint) :=
  [(.add, .sum), (.div, .quotient), (.mul, .product), (.sampleSum, .sampleSum)]

/-- The first of some operators that occurs outside all brackets. -/
def firstOccurring (symbols : List Symbol) :
    List (Marker × Joint) → Except ReadError (Option (Marker × Joint))
  | [] => .ok none
  | operator :: tighter => do
    if ← Level.contains operator.1 symbols then return some operator
    else firstOccurring symbols tighter

/-- A sequence that starts with an opening and ends with a closing bracket: the opening, and what
stands between. The two need not answer each other. -/
def bracketed? : List Symbol → Option (Marker × List Symbol)
  | .marker m :: rest =>
    if m.opens && rest.getLast? == some (.marker .closing) then some (m, rest.dropLast) else none
  | _ => none

/-- What the outer level of a sequence shows. -/
inductive Outline where
  /-- An operand alone. -/
  | operand (s : Symbol)
  /-- Brackets around everything. -/
  | inside (symbols : List Symbol)
  /-- Parts to be joined. -/
  | parts (joint : Joint) (segments : List (List Symbol))
  deriving Repr

/-- The arguments of a selection, or what plain brackets hold. -/
def outlineInside (m : Marker) (symbols : List Symbol) : Except ReadError Outline :=
  match m with
  | .maxOpening => (Level.split .comma symbols).map (.parts .max)
  | .minOpening => (Level.split .comma symbols).map (.parts .min)
  | _ => .ok (.inside symbols)

/-- The outer level of a sequence. -/
def outline (symbols : List Symbol) : Except ReadError Outline :=
  match symbols with
  | [] => .error .emptyPart
  | [s] => if s.isOperand then .ok (.operand s) else .error (.notOperand s)
  | symbols => do
    match ← firstOccurring symbols precedence with
    | some operator => (Level.split operator.1 symbols).map (.parts operator.2)
    | none =>
      match bracketed? symbols with
      | some (m, rest) => outlineInside m rest
      | none => .error (.unreadable symbols)

/-- Every sequence that an outline goes on with has fewer than `n` symbols. -/
def Outline.Shorter (n : Nat) : Outline → Prop
  | .operand _ => True
  | .inside symbols => symbols.length < n
  | .parts _ segments => ∀ segment ∈ segments, segment.length < n

theorem contains_of_firstOccurring {symbols : List Symbol} {operators : List (Marker × Joint)}
    {operator : Marker × Joint} (h : firstOccurring symbols operators = .ok (some operator)) :
    Level.contains operator.1 symbols = .ok true := by
  induction operators with
  | nil => cases h
  | cons head tighter ih =>
    simp only [firstOccurring, bind, Except.bind] at h
    split at h
    · cases h
    · rename_i found hc
      split at h
      · rename_i hfound
        subst hfound
        obtain rfl : head = operator := by simpa [pure, Except.pure] using h
        exact hc
      · exact ih h

theorem length_of_bracketed {symbols rest : List Symbol} {m : Marker}
    (h : bracketed? symbols = some (m, rest)) : rest.length < symbols.length := by
  unfold bracketed? at h
  split at h
  · split at h
    · obtain ⟨rfl, rfl⟩ := Prod.mk.inj (Option.some.inj h)
      simp only [List.length_dropLast, List.length_cons]
      omega
    · cases h
  · cases h

theorem shorter_of_map_split {m : Marker} {joint : Joint} {symbols : List Symbol} {n : Nat}
    {o : Outline} (h : (Level.split m symbols).map (Outline.parts joint) = .ok o)
    (hn : ∀ segments, Level.split m symbols = .ok segments →
      ∀ segment ∈ segments, segment.length < n) : o.Shorter n := by
  cases hs : Level.split m symbols with
  | error e => rw [hs] at h; cases h
  | ok segments =>
    rw [hs] at h
    obtain rfl : Outline.parts joint segments = o := by simpa [Except.map] using h
    exact hn segments hs

/-- Grouping goes on with shorter sequences. -/
theorem Outline.shorter_of_outline {symbols : List Symbol} {o : Outline}
    (h : outline symbols = .ok o) : o.Shorter symbols.length := by
  unfold outline at h
  split at h
  · cases h
  · split at h
    · obtain rfl : Outline.operand _ = o := by simpa using h
      trivial
    · cases h
  · simp only [bind, Except.bind] at h
    split at h
    · cases h
    · split at h
      · rename_i hop
        exact shorter_of_map_split h fun segments hs segment hmem =>
          Level.length_lt_of_mem_split (contains_of_firstOccurring hop) hs hmem
      · split at h
        · rename_i m rest hb
          have hlen := length_of_bracketed hb
          have hsplit : ∀ segments, Level.split .comma rest = .ok segments →
              ∀ segment ∈ segments, segment.length < symbols.length :=
            fun segments hs segment hmem =>
              Nat.lt_of_le_of_lt (Level.length_le_of_mem_split hs hmem) hlen
          unfold outlineInside at h
          split at h
          · exact shorter_of_map_split h hsplit
          · exact shorter_of_map_split h hsplit
          · obtain rfl : Outline.inside rest = o := by simpa using h
            exact hlen
        · cases h

/-! ## The grouping -/

/-- The grouping of a sequence of symbols. Parts are grouped from left to right. -/
def Grouping.ofSymbols (symbols : List Symbol) : Except ReadError Grouping :=
  match _ : outline symbols with
  | .error e => .error e
  | .ok (.operand s) => .ok (.leaf s)
  | .ok (.inside rest) => ofSymbols rest
  | .ok (.parts joint segments) =>
    (segments.attach.mapM fun segment => ofSymbols segment.1).map (.node joint)
termination_by symbols.length
decreasing_by
  · exact Outline.shorter_of_outline ‹_›
  · have hshorter : (Outline.parts joint segments).Shorter symbols.length :=
      Outline.shorter_of_outline ‹_›
    exact hshorter segment.1 segment.2

end DiceLaw
