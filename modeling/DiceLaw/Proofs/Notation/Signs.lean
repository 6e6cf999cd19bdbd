import DiceLaw.Proofs.Notation.Scan
import Mathlib.Data.List.Chain

/-!
# The symbols that texts are read as

A text has no negative numbers: a minus sign is read as minus one, with a multiplication after it.
A die of a text starts at one. Dropping additions keeps all this.

## Main definitions

* `Symbol.IsRead`: the symbols that letters are read as
* `Symbol.Signed`, `Symbol.SignedBefore`: a sign stands in front of a multiplication
* `Symbol.SignsLead`: no sign stands behind a multiplication or a sampling

## Main results

* `Symbol.read_of_ofText`: the symbols of a text are of this kind
-/

namespace DiceLaw

namespace Symbol

/-- The symbols that letters are read as. -/
def IsRead : Symbol → Prop
  | .constant value => 0 ≤ value ∨ value = -1
  | .die lo hi => lo = 1 ∧ lo ≤ hi
  | .marker _ => True
  | .gap => False

/-- A sign stands in front of a multiplication. -/
def Signed (a b : Symbol) : Prop := a = .constant (-1) → b = .marker .mul

/-- Symbols in front of a marker, with a multiplication after each sign. -/
def SignedBefore (m : Marker) (symbols : List Symbol) : Prop :=
  (symbols ++ [Symbol.marker m]).IsChain Signed

/-- No sign stands behind a multiplication or a sampling. -/
def SignsLead (symbols : List Symbol) : Prop :=
  symbols.IsChain fun a b => b = .constant (-1) → a ≠ .marker .mul ∧ a ≠ .marker .sampleSum

instance (symbols : List Symbol) : Decidable (SignsLead symbols) :=
  inferInstanceAs (Decidable (List.IsChain _ _))

/-! ## Parts of a sequence -/

section

variable {symbols rest : List Symbol} {m k : Marker}

theorem SignedBefore.of_append_marker (h : SignedBefore k (symbols ++ .marker m :: rest)) :
    SignedBefore m symbols ∧ SignedBefore k rest := by
  -- the chain is split at the marker, which both parts keep
  rw [SignedBefore, List.append_assoc, List.cons_append, List.isChain_split] at h
  exact ⟨h.1, (List.isChain_cons.1 h.2).2⟩

theorem SignedBefore.of_enclosed
    (h : SignedBefore k (.marker m :: symbols ++ [.marker .closing])) :
    SignedBefore .closing symbols :=
  (List.isChain_cons.1 h.of_append_marker.1).2

/-- A sign alone is followed by a multiplication. -/
theorem SignedBefore.eq_mul (h : SignedBefore m [.constant (-1)]) : m = .mul := by
  simpa [SignedBefore, Signed] using h

/-- A marker between two sequences is read with the second. -/
theorem signsLead_append_marker :
    SignsLead (symbols ++ .marker m :: rest)
      ↔ SignsLead symbols ∧ SignsLead (.marker m :: rest) := by
  rw [SignsLead, List.isChain_append]
  simp [SignsLead]

theorem signsLead_cons_marker (hmul : m ≠ .mul) (hsample : m ≠ .sampleSum) :
    SignsLead (.marker m :: symbols) ↔ SignsLead symbols := by
  rw [SignsLead, List.isChain_cons]
  simp [SignsLead, hmul, hsample]

theorem signsLead_enclosed (hmul : m ≠ .mul) (hsample : m ≠ .sampleSum) :
    SignsLead (.marker m :: symbols ++ [.marker .closing]) ↔ SignsLead symbols := by
  rw [signsLead_append_marker, signsLead_cons_marker hmul hsample]
  simp [SignsLead]

end

/-! ## Symbols that were read -/

/-- Symbols that were read from letters. A sign in the last place is ruled out by a marker put
there. -/
structure Read (symbols : List Symbol) : Prop where
  isRead : ∀ s ∈ symbols, s.IsRead
  signed : SignedBefore .closing symbols

namespace Read

variable {s : Symbol} {symbols : List Symbol}

theorem nil : Read [] := ⟨by simp, .singleton _⟩

theorem cons (hs : s.IsRead) (hsign : s ≠ .constant (-1)) (h : Read symbols) :
    Read (s :: symbols) := by
  constructor
  · intro k hk
    rcases List.mem_cons.1 hk with rfl | hk
    · exact hs
    · exact h.isRead k hk
  · exact List.isChain_cons.2 ⟨fun b _ hminus => absurd hminus hsign, h.signed⟩

/-- A sign comes with its multiplication. -/
theorem sign (h : Read symbols) : Read (.constant (-1) :: .marker .mul :: symbols) := by
  have hmul : Read (.marker .mul :: symbols) := h.cons trivial (by simp)
  constructor
  · intro k hk
    rcases List.mem_cons.1 hk with rfl | hk
    · exact .inr rfl
    · exact hmul.isRead k hk
  · exact List.isChain_cons.2 ⟨by simp [Signed], hmul.signed⟩

/-- What was read in front of something may be left out. -/
theorem tail (h : Read (s :: symbols)) : Read symbols :=
  ⟨fun k hk => h.isRead k (List.mem_cons_of_mem _ hk), (List.isChain_cons.1 h.signed).2⟩

/-- A sign is not the last symbol. -/
theorem exists_of_sign (h : Read (.constant (-1) :: symbols)) :
    ∃ rest, symbols = .marker .mul :: rest := by
  have hnext := (List.isChain_cons.1 h.signed).1
  cases symbols with
  | nil => simp [Signed] at hnext
  | cons b rest => exact ⟨rest, by rw [hnext b rfl rfl]⟩

theorem append_lexeme {front : List Token} {lexeme : List Symbol} (hlexeme : Lexeme front lexeme)
    (h : Read symbols) : Read (lexeme ++ symbols) := by
  cases hlexeme with
  | numeral digits =>
    refine h.cons (.inl (Int.natCast_nonneg _)) fun hsign => ?_
    have hn := Symbol.constant.inj hsign
    omega
  | die hsize => exact h.cons ⟨rfl, by omega⟩ (by simp)
  | minus => exact h.sign.cons trivial (by simp)
  | marker m => exact h.cons trivial (by simp)

end Read

/-- The symbols of lexemes were read. -/
theorem Lexed.read {tokens : List Token} {symbols : List Symbol} (h : Lexed tokens symbols) :
    Read symbols := by
  induction h with
  | nil => exact .nil
  | cons hfront _ ih => exact ih.append_lexeme hfront

/-- Dropping additions does not part a sign from its multiplication. -/
theorem Read.dropEmptyAddsAfter {symbols : List Symbol} (h : Read symbols) (afterOperand : Bool) :
    Read (Symbol.dropEmptyAddsAfter afterOperand symbols) := by
  induction hn : symbols.length using Nat.strongRecOn generalizing symbols afterOperand with
  | ind n ih =>
    cases symbols with
    | nil => exact .nil
    | cons s rest =>
      have hlen : rest.length < n := by simp at hn; omega
      rw [Symbol.dropEmptyAddsAfter]
      split
      · exact ih _ hlen h.tail false rfl
      · -- what follows a sign is no addition, and stays where it is
        by_cases hsign : s = .constant (-1)
        · subst hsign
          obtain ⟨rest, rfl⟩ := h.exists_of_sign
          rw [Symbol.dropEmptyAddsAfter, if_neg (by simp)]
          exact (ih _ (by simp at hlen; omega) h.tail.tail _ rfl).sign
        · exact .cons (h.isRead s List.mem_cons_self) hsign (ih _ hlen h.tail _ rfl)

/-- The symbols of a text were read. -/
theorem read_of_ofText {text : String} {symbols : List Symbol} (h : ofText text = .ok symbols) :
    Read symbols := by
  rw [ofText] at h
  obtain ⟨tokens, -, h⟩ := Except.bind_eq_ok.1 h
  obtain ⟨raw, hraw, h⟩ := Except.bind_eq_ok.1 h
  obtain rfl := Except.ok.inj h
  exact (lexed_of_ofTokens hraw).read.dropEmptyAddsAfter false

end Symbol

end DiceLaw
