import DiceLaw.Proofs.Notation.RoundTrip

/-!
# How reading a text ends

Reading has three stages: a text is sifted to its letters, the letters are taken for symbols, and
the symbols are grouped. A text is refused by one of them, for a cause that belongs to the stage;
what has been grouped is built without a further check failing. What comes out is made from few
kinds of numbers and dice, and all of its operators have two parts or more.

## Main definitions

* `ReadError.stage`: the stage that finds a cause
* `FailsAt`: what a computation may fail with
* `Formula.FromText`: the formulas that come from texts
* `FirstForeign`: the first character of a text that no formula uses

## Main results

* `sifted_eq_error_iff`: a text is refused for the first character that no formula uses
* `Grouping.ofSymbols_failsAt`: grouping fails with the causes of its own stage
* `Formula.exists_of_derivation`: what is derived from symbols of a text is built
* `Formula.ofText_closed`: how reading a text ends
-/

namespace DiceLaw

/-! ## The stages of reading -/

/-- The stages of reading a text. -/
inductive Stage where
  | sifting
  | lexing
  | grouping
  deriving DecidableEq, Repr

/-- The stage that finds a cause. -/
def ReadError.stage : ReadError → Stage
  | .badCharacter _ => .sifting
  | .numberMissing | .noSides _ | .badNumeral _ => .lexing
  | .unmatchedClosing | .emptyPart | .operandMissing | .notOperand _ | .unreadable _ => .grouping

/-- If the computation fails, it is for a cause that the stage finds. -/
def FailsAt {α : Type} (stage : Stage) (x : Except ReadError α) : Prop :=
  ∀ e, x = .error e → e.stage = stage

namespace FailsAt

variable {α β : Type} {stage : Stage} {x : Except ReadError α}

theorem ok (a : α) : FailsAt stage (.ok a) := by
  intro e h
  cases h

theorem error (e : ReadError) : FailsAt (α := α) e.stage (.error e) := by
  rintro _ ⟨⟩
  rfl

theorem bind {f : α → Except ReadError β} (hx : FailsAt stage x) (hf : ∀ a, FailsAt stage (f a)) :
    FailsAt stage (x >>= f) := by
  intro e h
  rcases Except.bind_eq_error.1 h with h | ⟨a, -, h⟩
  · exact hx e h
  · exact hf a e h

theorem map {f : α → β} (hx : FailsAt stage x) : FailsAt stage (x.map f) :=
  fun e h => hx e (Except.map_eq_error.1 h)

theorem mapM {f : α → Except ReadError β} {as : List α} (h : ∀ a ∈ as, FailsAt stage (f a)) :
    FailsAt stage (as.mapM f) := by
  induction as with
  | nil => exact .ok []
  | cons a as ih =>
    rw [List.mapM_cons]
    refine (h a List.mem_cons_self).bind fun b => ?_
    exact (ih fun k hk => h k (List.mem_cons_of_mem _ hk)).bind fun _ => .ok _

end FailsAt

/-! ### Sifting -/

/-- A character that is no letter of formulas and no blank. -/
def Foreign (c : Char) : Prop := c ∉ formulaLetters ∧ Text.isBlank c = false

/-- The first foreign character. -/
def FirstForeign (c : Char) (cs : List Char) : Prop :=
  ∃ before after, cs = before ++ c :: after ∧ (∀ k ∈ before, ¬ Foreign k) ∧ Foreign c

theorem firstForeign_cons {c head : Char} {rest : List Char} (h : ¬ Foreign head) :
    FirstForeign c (head :: rest) ↔ FirstForeign c rest := by
  constructor
  · rintro ⟨_ | ⟨k, before⟩, after, heq, hbefore, hc⟩
    · obtain ⟨rfl, rfl⟩ := List.cons.inj heq
      exact absurd hc h
    · obtain ⟨rfl, rfl⟩ := List.cons.inj heq
      exact ⟨before, after, rfl, fun k hk => hbefore k (List.mem_cons_of_mem _ hk), hc⟩
  · rintro ⟨before, after, rfl, hbefore, hc⟩
    refine ⟨head :: before, after, rfl, fun k hk => ?_, hc⟩
    rcases List.mem_cons.1 hk with rfl | hk
    · exact h
    · exact hbefore k hk

theorem firstForeign_cons_self {c head : Char} {rest : List Char} (h : Foreign head) :
    FirstForeign c (head :: rest) ↔ c = head := by
  constructor
  · rintro ⟨_ | ⟨k, before⟩, after, heq, hbefore, -⟩
    · exact (List.cons.inj heq).1.symm
    · obtain ⟨rfl, -⟩ := List.cons.inj heq
      exact absurd h (hbefore head List.mem_cons_self)
  · rintro rfl
    exact ⟨[], rest, rfl, by simp, h⟩

/-- A text is refused for its first foreign character, and for nothing else. -/
theorem sifted_eq_error_iff {cs : List Char} {e : ReadError} :
    sifted cs = .error e ↔ ∃ c, e = .badCharacter c ∧ FirstForeign c cs := by
  induction cs with
  | nil => simp [sifted, FirstForeign]
  | cons head rest ih =>
    rw [sifted]
    split
    · rename_i hletter
      have hhead : ¬ Foreign head := fun h => h.1 (by simpa using hletter)
      simp only [Except.map_eq_error, ih, firstForeign_cons hhead]
    · rename_i hletter
      split
      · rename_i hblank
        have hhead : ¬ Foreign head := fun h => by simp [h.2] at hblank
        simp only [ih, firstForeign_cons hhead]
      · rename_i hblank
        have hhead : Foreign head := ⟨by simpa using hletter, by simpa using hblank⟩
        simp [firstForeign_cons_self hhead, eq_comm]

/-! ### Lexing -/

/-- A character that no formula uses is found before tokens are made. -/
theorem Token.ofText_eq_error_iff {text : String} {e : ReadError} :
    Token.ofText text = .error e ↔
      ∃ c, e = .badCharacter c ∧ FirstForeign c (Text.lowercase text.toList) := by
  rw [Token.ofText, Except.map_eq_error, sifted_eq_error_iff]

theorem Symbol.ofTokens_failsAt (tokens : List Token) :
    FailsAt .lexing (ofTokens tokens) := by
  induction tokens using ofTokens.induct with
  | case1 => exact .ok []
  | case2 digits rest hsize =>
    rw [ofTokens, if_pos hsize]
    exact .error _
  | case3 digits rest hsize ih =>
    rw [ofTokens, if_neg hsize]
    exact ih.map
  | case4 rest hrest =>
    rw [ofTokens]
    · exact .error _
    · exact hrest
  | case5 digits rest ih => exact ih.map
  | case6 rest ih => exact ih.map
  | case7 m rest ih => exact ih.map
  | case8 letter rest => exact .error _

theorem Symbol.stage_of_ofText {text : String} {e : ReadError} (h : ofText text = .error e) :
    (∃ c, e = .badCharacter c ∧ FirstForeign c (Text.lowercase text.toList)) ∨
      e.stage = .lexing := by
  rw [ofText] at h
  rcases Except.bind_eq_error.1 h with h | ⟨tokens, -, h⟩
  · exact .inl (Token.ofText_eq_error_iff.1 h)
  · rcases Except.bind_eq_error.1 h with h | ⟨symbols, -, h⟩
    · exact .inr (ofTokens_failsAt tokens e h)
    · cases h

/-! ### Grouping -/

namespace Level

theorem after_failsAt (depth : Nat) (s : Symbol) :
    FailsAt .grouping (after depth s) := by
  unfold after
  split
  · exact .ok _
  · split
    · cases depth with
      | zero => exact .error _
      | succ depth => exact .ok depth
    · exact .ok depth

theorem containsFrom_failsAt (m : Marker) (depth : Nat) (symbols : List Symbol) :
    FailsAt .grouping (containsFrom m depth symbols) := by
  induction symbols generalizing depth with
  | nil => exact .ok false
  | cons s rest ih =>
    rw [containsFrom]
    split
    · exact .ok true
    · exact (after_failsAt depth s).bind ih

theorem segmentsFrom_failsAt (m : Marker) (depth : Nat) (symbols : List Symbol) :
    FailsAt .grouping (segmentsFrom m depth symbols) := by
  induction symbols generalizing depth with
  | nil => exact .ok _
  | cons s rest ih =>
    rw [segmentsFrom]
    split
    · exact (ih 0).bind fun _ => .ok _
    · exact (after_failsAt depth s).bind fun next => (ih next).bind fun _ => .ok _

theorem split_failsAt (m : Marker) (symbols : List Symbol) :
    FailsAt .grouping (split m symbols) := by
  refine (segmentsFrom_failsAt m 0 symbols).bind fun (first, others) => ?_
  dsimp only
  split
  · exact .error _
  · exact .ok _

end Level

theorem firstOccurring_failsAt (symbols : List Symbol) (operators : List (Marker × Joint)) :
    FailsAt .grouping (firstOccurring symbols operators) := by
  induction operators with
  | nil => exact .ok none
  | cons operator tighter ih =>
    refine (Level.containsFrom_failsAt operator.1 0 symbols).bind fun found => ?_
    cases found with
    | true => exact .ok _
    | false => exact ih

theorem outlineInside_failsAt (m : Marker) (symbols : List Symbol) :
    FailsAt .grouping (outlineInside m symbols) := by
  unfold outlineInside
  split
  · exact (Level.split_failsAt .comma symbols).map
  · exact (Level.split_failsAt .comma symbols).map
  · exact .ok _

theorem outline_failsAt (symbols : List Symbol) :
    FailsAt .grouping (outline symbols) := by
  match symbols with
  | [] => exact .error _
  | [s] =>
    rw [outline]
    split
    · exact .ok _
    · exact .error _
  | first :: second :: rest =>
    rw [outline_of_two_le (by simp)]
    refine (firstOccurring_failsAt _ precedence).bind fun found => ?_
    cases found with
    | some operator => exact (Level.split_failsAt operator.1 _).map
    | none =>
      cases bracketed? (first :: second :: rest) with
      | some p => exact outlineInside_failsAt p.1 p.2
      | none => exact .error _

/-- Grouping fails with the causes of its own stage. -/
theorem Grouping.ofSymbols_failsAt (symbols : List Symbol) :
    FailsAt .grouping (ofSymbols symbols) := by
  -- grouping goes on with shorter sequences
  induction hn : symbols.length using Nat.strongRecOn generalizing symbols with
  | ind n ih =>
    rw [ofSymbols_eq_bind]
    intro e h
    rcases Except.bind_eq_error.1 h with h | ⟨o, ho, h⟩
    · exact outline_failsAt symbols e h
    · have hshorter := Outline.shorter_of_outline ho
      cases o with
      | operand s => cases h
      | inside rest => exact ih rest.length (hn ▸ hshorter) rest rfl e h
      | parts joint segments =>
        have hsegments : FailsAt .grouping (segments.mapM ofSymbols) :=
          .mapM fun segment hmem =>
            ih segment.length (hn ▸ hshorter segment hmem) segment rfl
        exact hsegments.map e h

/-! ## The formulas of texts -/

namespace Formula

/-- The formulas that come from texts. Minus one comes from a minus sign, and is the only negative
number. -/
inductive FromText : Formula → Prop
  | constant {value : Int} (h : 0 ≤ value ∨ value = -1) : FromText (.constant value)
  | die {n : Int} (h : 1 ≤ n) : FromText (.die ⟨1, n, h⟩)
  /-- An operator has two parts or more, a selection one or more. -/
  | join {joint : Joint} {first : Formula} {rest : List Formula} (hfirst : FromText first)
      (hrest : ∀ part ∈ rest, FromText part) (hparts : joint.isSelection = false → rest ≠ []) :
      FromText (.join joint first rest)

/-- Enough parts are built to a joint. -/
theorem exists_of_node {joint : Joint} {parts : List Grouping}
    (h : ∃ fs, ofGroupings parts = .ok fs ∧ ∀ part ∈ fs, FromText part) (hne : parts ≠ [])
    (hlen : joint.isSelection = false → 2 ≤ parts.length) :
    ∃ f, ofGrouping (.node joint parts) = .ok f ∧ FromText f := by
  obtain ⟨fs, hfs, hparts⟩ := h
  have hcount := ofGroupings_length hfs
  cases fs with
  | nil => exact absurd (List.length_eq_zero_iff.1 hcount.symm) hne
  | cons first rest =>
    refine ⟨.join joint first rest, by rw [ofGrouping, hfs]; rfl, ?_⟩
    refine .join (hparts first List.mem_cons_self)
      (fun part hpart => hparts part (List.mem_cons_of_mem _ hpart)) fun hj => ?_
    rintro rfl
    have htwo := hlen hj
    rw [← hcount] at htwo
    simp at htwo

/-- What is derived from symbols of a text is built, and so are the members of a series. -/
theorem exists_of_derivation {c : Category} (d : Derivation c)
    (hread : ∀ s ∈ d.symbols, s.IsRead) :
    (∃ f, ofGrouping d.grouping = .ok f ∧ FromText f) ∧
      ∃ fs, ofGroupings d.groupings = .ok fs ∧ ∀ part ∈ fs, FromText part := by
  have hnone : ∃ fs, ofGroupings [] = .ok fs ∧ ∀ part ∈ fs, FromText part := ⟨[], rfl, by simp⟩
  induction d with
  | constant value => exact ⟨⟨_, rfl, .constant (hread _ List.mem_cons_self)⟩, hnone⟩
  | die lo hi =>
    obtain ⟨rfl, hle⟩ := hread _ List.mem_cons_self
    refine ⟨⟨.die ⟨1, hi, hle⟩, ?_, .die hle⟩, hnone⟩
    rw [Derivation.grouping, ofGrouping, die?, dif_pos hle]
  | brackets inside ih =>
    exact ⟨(ih fun s h => hread s (by simp [Derivation.symbols, h])).1, hnone⟩
  | maximum arguments ih =>
    exact ⟨(ih fun s h => hread s (by simp [Derivation.symbols, h])).1, hnone⟩
  | minimum arguments ih =>
    exact ⟨(ih fun s h => hread s (by simp [Derivation.symbols, h])).1, hnone⟩
  | @lone joint only ih =>
    obtain ⟨f, hf, hfrom⟩ := (ih hread).1
    have hparts : ∃ fs, ofGroupings [only.grouping] = .ok fs ∧ ∀ part ∈ fs, FromText part :=
      ⟨[f], by rw [ofGroupings, hf]; rfl, by simpa using hfrom⟩
    refine ⟨?_, hparts⟩
    rw [Derivation.grouping]
    split
    · -- an argument alone makes a node, any other member alone does not
      rename_i hj
      exact exists_of_node hparts (List.cons_ne_nil _ _) fun h => by simp [hj] at h
    · exact ⟨f, hf, hfrom⟩
  | @more joint first rest ihFirst ihRest =>
    obtain ⟨f, hf, hfrom⟩ := (ihFirst fun s h => hread s (by simp [Derivation.symbols, h])).1
    obtain ⟨fs, hfs, hall⟩ := (ihRest fun s h => hread s (by simp [Derivation.symbols, h])).2
    have hparts : ∃ fs, ofGroupings (first.grouping :: rest.groupings) = .ok fs ∧
        ∀ part ∈ fs, FromText part := by
      refine ⟨f :: fs, by rw [ofGroupings, hf, hfs]; rfl, fun part hpart => ?_⟩
      rcases List.mem_cons.1 hpart with rfl | hpart
      · exact hfrom
      · exact hall part hpart
    refine ⟨?_, hparts⟩
    rw [Derivation.grouping]
    refine exists_of_node hparts (List.cons_ne_nil _ _) fun _ => ?_
    have := List.length_pos_iff.2 rest.groupings_ne_nil
    rw [List.length_cons]
    omega

/-- What a text was grouped to is built. -/
theorem exists_of_ofSymbols {text : String} {symbols : List Symbol} {g : Grouping}
    (hsymbols : Symbol.ofText text = .ok symbols) (hg : Grouping.ofSymbols symbols = .ok g) :
    ∃ f, ofGrouping g = .ok f ∧ FromText f := by
  obtain ⟨d, rfl, rfl⟩ := Grouping.derives_of_ofSymbols hg
  exact (exists_of_derivation d (Symbol.read_of_ofText hsymbols).isRead).1

/-- Reading a text ends in one of three ways: no symbols are made of it, for a cause of sifting or
of lexing; its symbols are not grouped, for a cause of grouping; or it is grouped and built, and
the formula is one of those that come from texts. -/
theorem ofText_ends (text : String) :
    (∃ e, Symbol.ofText text = .error e ∧ e.stage ≠ .grouping ∧
        ofText text = .error (.reading e)) ∨
      (∃ symbols e, Symbol.ofText text = .ok symbols ∧ Grouping.ofSymbols symbols = .error e ∧
        e.stage = .grouping ∧ ofText text = .error (.reading e)) ∨
      ∃ symbols g f, Symbol.ofText text = .ok symbols ∧ Grouping.ofSymbols symbols = .ok g ∧
        ofGrouping g = .ok f ∧ ofText text = .ok f ∧ FromText f := by
  cases hsymbols : Symbol.ofText text with
  | error e =>
    refine .inl ⟨e, rfl, ?_, by rw [ofText, hsymbols]⟩
    rcases Symbol.stage_of_ofText hsymbols with ⟨c, rfl, -⟩ | hstage
    · simp [ReadError.stage]
    · simp [hstage]
  | ok symbols =>
    have htext : ofText text = ofSymbols symbols := by rw [ofText, hsymbols]
    cases hg : Grouping.ofSymbols symbols with
    | error e =>
      refine .inr (.inl ⟨symbols, e, rfl, hg, Grouping.ofSymbols_failsAt symbols e hg, ?_⟩)
      rw [htext, ofSymbols, hg]
    | ok g =>
      obtain ⟨f, hf, hfrom⟩ := exists_of_ofSymbols hsymbols hg
      refine .inr (.inr ⟨symbols, g, f, rfl, hg, hf, ?_, hfrom⟩)
      rw [htext, ofSymbols, hg]
      exact hf

/-- A text is refused for a character exactly if this is its first foreign one. -/
theorem ofText_eq_badCharacter_iff {text : String} {c : Char} :
    ofText text = .error (.reading (.badCharacter c)) ↔
      FirstForeign c (Text.lowercase text.toList) := by
  constructor
  · intro h
    rcases ofText_ends text with ⟨e, hsymbols, -, he⟩ | ⟨-, e, -, -, hstage, he⟩ |
      ⟨-, -, f, -, -, -, hf, -⟩
    · obtain rfl : e = .badCharacter c := by simpa using he.symm.trans h
      rcases Symbol.stage_of_ofText hsymbols with ⟨k, hk, hfirst⟩ | hstage
      · cases hk
        exact hfirst
      · cases hstage
    · -- grouping finds other causes
      obtain rfl : e = .badCharacter c := by simpa using he.symm.trans h
      cases hstage
    · cases hf.symm.trans h
  · intro h
    have htokens : Token.ofText text = .error (.badCharacter c) :=
      Token.ofText_eq_error_iff.2 ⟨c, rfl, h⟩
    rw [ofText, Symbol.ofText, htokens]
    rfl

/-- Reading is closed over all texts: it ends with a cause of one of its stages or with a formula
of the kind that comes from texts, and the cause is a character exactly if this is the first
foreign one of the text in lower case. -/
theorem ofText_closed (text : String) :
    ((∃ e, Symbol.ofText text = .error e ∧ e.stage ≠ .grouping ∧
        ofText text = .error (.reading e)) ∨
      (∃ symbols e, Symbol.ofText text = .ok symbols ∧ Grouping.ofSymbols symbols = .error e ∧
        e.stage = .grouping ∧ ofText text = .error (.reading e)) ∨
      ∃ symbols g f, Symbol.ofText text = .ok symbols ∧ Grouping.ofSymbols symbols = .ok g ∧
        ofGrouping g = .ok f ∧ ofText text = .ok f ∧ FromText f) ∧
    ∀ c, ofText text = .error (.reading (.badCharacter c)) ↔
      FirstForeign c (Text.lowercase text.toList) :=
  ⟨ofText_ends text, fun _ => ofText_eq_badCharacter_iff⟩

end Formula

end DiceLaw
