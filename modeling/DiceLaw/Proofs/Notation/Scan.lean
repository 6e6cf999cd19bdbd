import DiceLaw.Except
import DiceLaw.Symbol.Reading

/-!
# Scanning letters one lexeme at a time

Letters are gathered into tokens, left-out operators are put in, tokens become symbols, and
additions with nothing to add are dropped. All that these steps need to know of what came before is
whether an operand has just ended, so that the symbols of letters can be found from left to right,
one lexeme at a time.

## Main definitions

* `Token.Marks`: the letters between and in front of parts
* `Symbol.scan`: the symbols of letters, after an operand or not
* `Follows`: the letters that may follow an operand
* `Symbol.Lexeme`, `Symbol.Lexed`: tokens with the symbols that they stand for

## Main results

* `Symbol.ofText_of_sifted`: the symbols of a text are those scanned from its letters
* `Symbol.scan_numeral`, `Symbol.scan_die`: scanning an operand
* `Symbol.scan_minus`, `Symbol.scan_minus_after`: a minus sign in front of a part, and after one
-/

namespace DiceLaw

open Number (digit? digitChar ofDigits numeral)

/-! ## Numerals -/

/-- A decimal digit is a character with a value. -/
theorem Number.isDigit_iff {c : Char} : c.isDigit = true ↔ ∃ d, digit? c = some d := by
  constructor
  · intro hc
    rw [Char.isDigit, Bool.and_eq_true, decide_eq_true_iff, decide_eq_true_iff] at hc
    have hlo : 48 ≤ c.toNat := hc.1
    have hhi : c.toNat ≤ 57 := hc.2
    exact ⟨⟨c.toNat - 48, by omega⟩, dif_pos ⟨hlo, by omega⟩⟩
  · rintro ⟨d, hd⟩
    have hdigits : ∀ d, (digitChar d).isDigit = true := by decide
    rw [Number.digit?_eq_some hd]
    exact hdigits d

/-- Decimal digits are characters of digits. -/
theorem Number.exists_digits_of_isDigit {cs : List Char} (h : ∀ c ∈ cs, c.isDigit = true) :
    ∃ ds : List (Fin 10), cs = ds.map digitChar := by
  induction cs with
  | nil => exact ⟨[], rfl⟩
  | cons c rest ih =>
    obtain ⟨ds, rfl⟩ := ih fun k hk => h k (List.mem_cons_of_mem _ hk)
    obtain ⟨d, hd⟩ := isDigit_iff.1 (h c List.mem_cons_self)
    exact ⟨d :: ds, by rw [List.map_cons, ← Number.digit?_eq_some hd]⟩

/-- A numeral is written in digits that give back its number. -/
theorem Number.exists_digits (n : Nat) :
    ∃ ds : List (Fin 10), ds ≠ [] ∧ numeral n = ds.map digitChar ∧ ofDigits ds = n := by
  have hdigits : ∀ c ∈ numeral n, c.isDigit = true := fun c hc =>
    Nat.isDigit_of_mem_toDigits (by decide) (by decide) hc
  obtain ⟨ds, hds⟩ := exists_digits_of_isDigit hdigits
  refine ⟨ds, ?_, hds, Number.ofDigits_numeral hds⟩
  rintro rfl
  exact Nat.toDigits_ne_nil hds

namespace Token

/-! ## Tokens of letters -/

/-- A letter that opens no word is put in front of the tokens behind it. -/
theorem ofLetters_eq_push {c : Char} {rest : List Char}
    (hmax : ∀ behind, c = 'm' → rest = 'a' :: 'x' :: '(' :: behind → False)
    (hmin : ∀ behind, c = 'm' → rest = 'i' :: 'n' :: '(' :: behind → False) :
    ofLetters (c :: rest) = push c (ofLetters rest) := by
  rw [ofLetters]
  · exact hmax
  · exact hmin

theorem ofLetters_cons {c : Char} (h : c ≠ 'm') (rest : List Char) :
    ofLetters (c :: rest) = push c (ofLetters rest) :=
  ofLetters_eq_push (fun _ hc => absurd hc h) (fun _ hc => absurd hc h)

theorem push_of_none {c : Char} (h : digit? c = none) (ts : List Token) :
    push c ts = ofLetter c :: ts := by
  unfold push
  rw [h]

/-- A letter that is no digit and opens no word is a token of its own. -/
theorem ofLetters_letter {c : Char} (hm : c ≠ 'm') (hd : digit? c = none) (rest : List Char) :
    ofLetters (c :: rest) = ofLetter c :: ofLetters rest := by
  rw [ofLetters_cons hm, push_of_none hd]

/-- Digits in front of something else are one numeral. -/
theorem ofLetters_digits {ds : List (Fin 10)} (hds : ds ≠ []) {rest : List Char}
    (h : ∀ digits, (ofLetters rest).head? ≠ some (.numeral digits)) :
    ofLetters (ds.map digitChar ++ rest) = .numeral ds :: ofLetters rest := by
  have hletter : ∀ d : Fin 10, digitChar d ≠ 'm' := by decide
  induction ds with
  | nil => exact absurd rfl hds
  | cons d ds ih =>
    rw [List.map_cons, List.cons_append, ofLetters_cons (hletter d)]
    unfold push
    rw [Number.digit?_digitChar]
    cases ds with
    | nil =>
      -- the last digit: the tokens of the rest do not start with a numeral
      rw [List.map_nil, List.nil_append]
      cases hrest : ofLetters rest with
      | nil => rfl
      | cons t ts =>
        rw [hrest] at h
        cases t with
        | numeral digits => exact absurd rfl (h digits)
        | _ => rfl
    | cons e ds => rw [ih (List.cons_ne_nil _ _)]

theorem push_ne_nil (c : Char) (ts : List Token) : push c ts ≠ [] := by
  unfold push
  split <;> exact List.cons_ne_nil _ _

theorem ofLetters_ne_nil {letters : List Char} (h : letters ≠ []) : ofLetters letters ≠ [] := by
  unfold ofLetters
  split
  · exact absurd rfl h
  · exact List.cons_ne_nil _ _
  · exact List.cons_ne_nil _ _
  · exact push_ne_nil _ _

/-! ## Operators left out -/

/-- In front of a token that it is not joined with, a token stays as it is. -/
theorem explicit_cons {t : Token} {ts : List Token} (h : ∀ u ∈ ts.head?, juxtaposed t u = false) :
    explicit (t :: ts) = t :: explicit ts := by
  cases ts with
  | nil => rfl
  | cons u ts => rw [explicit_cons_cons, if_neg (by simp [h u rfl])]

theorem explicit_ne_nil {ts : List Token} (h : ts ≠ []) : explicit ts ≠ [] := by
  match ts with
  | [t] => exact List.cons_ne_nil _ _
  | t :: u :: ts =>
    rw [explicit_cons_cons]
    split <;> exact List.cons_ne_nil _ _

/-! ## What may follow an operand -/

/-- The letter stands for a marker, which is neither an addition nor a closing bracket. -/
def Marks (c : Char) (m : Marker) : Prop :=
  c ≠ 'm' ∧ digit? c = none ∧ ofLetter c = .marker m ∧ m ≠ .add ∧ m ≠ .closing

instance (c : Char) (m : Marker) : Decidable (Marks c m) :=
  inferInstanceAs (Decidable (_ ∧ _))

/-- The tokens that may follow an operand: none is joined with it without an operator. -/
def follows : Token → Bool
  | .minus => true
  | .marker m => !m.opens
  | _ => false

theorem juxtaposed_of_follows {t u : Token} (h : u.follows = true) : juxtaposed t u = false := by
  rw [Bool.eq_false_iff]
  intro hj
  -- the second token of each pair would start an operand
  unfold juxtaposed at hj
  split at hj
  · cases h
  · cases h
  · cases h
  · simp [follows, hj] at h
  · cases hj

theorem juxtaposed_marker {m : Marker} (h : m ≠ .closing) (u : Token) :
    juxtaposed (.marker m) u = false := by
  rw [Bool.eq_false_iff]
  intro hj
  unfold juxtaposed at hj
  split at hj <;> simp_all

end Token

/-- The letters end, or go on with a letter that may follow an operand. -/
def Follows (letters : List Char) : Prop :=
  ∀ c ∈ letters.head?, c ∈ ['+', '-', '*', '/', 'x', ',', ')']

namespace Follows

variable {letters : List Char}

theorem nil : Follows [] := by simp [Follows]

theorem cons {c : Char} (h : c ∈ ['+', '-', '*', '/', 'x', ',', ')']) (rest : List Char) :
    Follows (c :: rest) := by
  simpa [Follows] using h

/-- The first token of letters that follow an operand may follow it. -/
theorem head_ofLetters (h : Follows letters) : ∀ t ∈ (Token.ofLetters letters).head?,
    t.follows = true := by
  cases letters with
  | nil => simp [Token.ofLetters]
  | cons c rest =>
    have hc := h c rfl
    have hletters : ['+', '-', '*', '/', 'x', ',', ')'].all (fun c =>
        decide (c ≠ 'm' ∧ digit? c = none ∧ (Token.ofLetter c).follows = true)) = true := by decide
    obtain ⟨hm, hd, hfollows⟩ := of_decide_eq_true (List.all_eq_true.1 hletters c hc)
    rw [Token.ofLetters_letter hm hd]
    simpa using hfollows

end Follows

/-! ## Scanning -/

namespace Symbol

/-- The symbols of tokens, after an operand or not. -/
def scanTokens (afterOperand : Bool) (tokens : List Token) : Except ReadError (List Symbol) :=
  (ofTokens (Token.explicit tokens)).map (dropEmptyAddsAfter afterOperand)

/-- The symbols of letters, after an operand or not. -/
def scan (afterOperand : Bool) (letters : List Char) : Except ReadError (List Symbol) :=
  scanTokens afterOperand (Token.ofLetters letters)

/-- The tokens that are read at once, and the symbols they stand for. A die takes its count of sides
along. -/
inductive Lexeme : List Token → List Symbol → Prop
  | numeral (digits : List (Fin 10)) : Lexeme [.numeral digits] [.constant (ofDigits digits)]
  | die {digits : List (Fin 10)} (h : 1 ≤ ofDigits digits) :
      Lexeme [.die, .numeral digits] [.die 1 (ofDigits digits)]
  | minus : Lexeme [.minus] [.marker .add, .constant (-1), .marker .mul]
  | marker (m : Marker) : Lexeme [.marker m] [.marker m]

/-- Tokens that are read as symbols, one lexeme after the other. -/
inductive Lexed : List Token → List Symbol → Prop
  | nil : Lexed [] []
  | cons {front tokens : List Token} {lexeme symbols : List Symbol} (hfront : Lexeme front lexeme)
      (htokens : Lexed tokens symbols) : Lexed (front ++ tokens) (lexeme ++ symbols)

theorem ofTokens_lexeme {front : List Token} {lexeme : List Symbol} (h : Lexeme front lexeme)
    (tokens : List Token) :
    ofTokens (front ++ tokens) = (ofTokens tokens).map (lexeme ++ ·) := by
  cases h with
  | die hsize =>
    show ofTokens (.die :: .numeral _ :: tokens) = _
    rw [ofTokens, if_neg (by omega)]
    rfl
  | _ => rfl

/-- Tokens that stand for symbols are lexemes, one after the other. -/
theorem lexed_of_ofTokens {tokens : List Token} {symbols : List Symbol}
    (h : ofTokens tokens = .ok symbols) : Lexed tokens symbols := by
  induction tokens using ofTokens.induct generalizing symbols with
  | case1 =>
    obtain rfl := Except.ok.inj h
    exact .nil
  | case2 digits rest hsize =>
    rw [ofTokens, if_pos hsize] at h
    cases h
  | case3 digits rest hsize ih =>
    rw [ofTokens, if_neg hsize] at h
    obtain ⟨tail, htail, rfl⟩ := Except.map_eq_ok.1 h
    exact .cons (.die (by omega)) (ih htail)
  | case4 rest hrest =>
    rw [ofTokens] at h
    · cases h
    · exact hrest
  | case5 digits rest ih =>
    obtain ⟨tail, htail, rfl⟩ := Except.map_eq_ok.1 h
    exact .cons (.numeral digits) (ih htail)
  | case6 rest ih =>
    obtain ⟨tail, htail, rfl⟩ := Except.map_eq_ok.1 h
    exact .cons .minus (ih htail)
  | case7 m rest ih =>
    obtain ⟨tail, htail, rfl⟩ := Except.map_eq_ok.1 h
    exact .cons (.marker m) (ih htail)
  | case8 letter rest => cases h

/-- No token is read as nothing. -/
theorem ofTokens_ne_nil {tokens : List Token} {symbols : List Symbol} (hne : tokens ≠ [])
    (h : ofTokens tokens = .ok symbols) : symbols ≠ [] := by
  cases lexed_of_ofTokens h with
  | nil => exact absurd rfl hne
  | cons hfront _ => cases hfront <;> exact List.cons_ne_nil _ _

section Tokens

variable {afterOperand : Bool} {tokens : List Token}

theorem scanTokens_marker {m : Marker} (hadd : m ≠ .add) (hclosing : m ≠ .closing) :
    scanTokens afterOperand (.marker m :: tokens)
      = (scanTokens false tokens).map (.marker m :: ·) := by
  have hends : endsOperand (.marker m) = false := by
    cases m with
    | closing => exact absurd rfl hclosing
    | _ => rfl
  rw [scanTokens, Token.explicit_cons fun u _ => Token.juxtaposed_marker hclosing u, ofTokens,
    scanTokens]
  cases ofTokens (Token.explicit tokens) with
  | error e => rfl
  | ok symbols => simp [Except.map, dropEmptyAddsAfter, hadd, hends]

theorem scanTokens_closing (h : ∀ t ∈ tokens.head?, t.follows = true) :
    scanTokens afterOperand (.marker .closing :: tokens)
      = (scanTokens true tokens).map (.marker .closing :: ·) := by
  rw [scanTokens, Token.explicit_cons fun u hu => Token.juxtaposed_of_follows (h u hu), ofTokens,
    scanTokens]
  cases ofTokens (Token.explicit tokens) with
  | error e => rfl
  | ok symbols => simp [Except.map, dropEmptyAddsAfter, endsOperand]

theorem scanTokens_numeral {digits : List (Fin 10)} (h : ∀ t ∈ tokens.head?, t.follows = true) :
    scanTokens afterOperand (.numeral digits :: tokens)
      = (scanTokens true tokens).map (.constant (ofDigits digits) :: ·) := by
  rw [scanTokens, Token.explicit_cons fun u hu => Token.juxtaposed_of_follows (h u hu), ofTokens,
    scanTokens]
  cases ofTokens (Token.explicit tokens) with
  | error e => rfl
  | ok symbols => simp [Except.map, dropEmptyAddsAfter, endsOperand]

theorem scanTokens_die {digits : List (Fin 10)} (hsize : 1 ≤ ofDigits digits)
    (h : ∀ t ∈ tokens.head?, t.follows = true) :
    scanTokens afterOperand (.die :: .numeral digits :: tokens)
      = (scanTokens true tokens).map (.die 1 (ofDigits digits) :: ·) := by
  -- a die and its count of sides stay together
  have hdie : Token.explicit (.die :: .numeral digits :: tokens)
      = .die :: .numeral digits :: Token.explicit tokens := by
    rw [Token.explicit_cons (by simp [Token.juxtaposed]),
      Token.explicit_cons fun u hu => Token.juxtaposed_of_follows (h u hu)]
  rw [scanTokens, hdie, ofTokens, if_neg (by omega), scanTokens]
  cases ofTokens (Token.explicit tokens) with
  | error e => rfl
  | ok symbols => simp [Except.map, dropEmptyAddsAfter, endsOperand]

/-- A minus sign in front of a part is minus one times the part. -/
theorem scanTokens_minus :
    scanTokens false (.minus :: tokens)
      = (scanTokens false tokens).map ([.constant (-1), .marker .mul] ++ ·) := by
  rw [scanTokens, Token.explicit_cons (by simp [Token.juxtaposed]), ofTokens, scanTokens]
  cases ofTokens (Token.explicit tokens) with
  | error e => rfl
  | ok symbols => simp [Except.map, dropEmptyAddsAfter, endsOperand]

/-- A minus sign after an operand adds what it stands for in front of a part. -/
theorem scanTokens_minus_after :
    scanTokens true (.minus :: tokens)
      = (scanTokens false (.minus :: tokens)).map (.marker .add :: ·) := by
  rw [scanTokens_minus, scanTokens, Token.explicit_cons (by simp [Token.juxtaposed]), ofTokens,
    scanTokens]
  cases ofTokens (Token.explicit tokens) with
  | error e => rfl
  | ok symbols => simp [Except.map, dropEmptyAddsAfter, endsOperand]

/-- An addition between an operand and something else stays. -/
theorem scanTokens_add (h : tokens ≠ []) :
    scanTokens true (.marker .add :: tokens)
      = (scanTokens false tokens).map (.marker .add :: ·) := by
  rw [scanTokens, Token.explicit_cons fun u _ => Token.juxtaposed_marker (by decide) u, ofTokens,
    scanTokens]
  cases hsymbols : ofTokens (Token.explicit tokens) with
  | error e => rfl
  | ok symbols =>
    -- the addition has something behind it
    have hne : symbols ≠ [] := ofTokens_ne_nil (Token.explicit_ne_nil h) hsymbols
    simp [Except.map, dropEmptyAddsAfter, endsOperand, hne]

end Tokens

section Letters

variable {afterOperand : Bool} {letters : List Char}

@[simp] theorem scan_nil : scan afterOperand [] = .ok [] := by
  cases afterOperand <;> rfl

/-- A letter that stands for a marker between or in front of parts. -/
theorem scan_marker {c : Char} {m : Marker} (h : Token.Marks c m) :
    scan afterOperand (c :: letters) = (scan false letters).map (.marker m :: ·) := by
  obtain ⟨hm, hd, hc, hadd, hclosing⟩ := h
  rw [scan, Token.ofLetters_letter hm hd, hc, scanTokens_marker hadd hclosing, scan]

theorem scan_maxOpening :
    scan afterOperand ("max(".toList ++ letters)
      = (scan false letters).map (.marker .maxOpening :: ·) :=
  scanTokens_marker (by decide) (by decide)

theorem scan_minOpening :
    scan afterOperand ("min(".toList ++ letters)
      = (scan false letters).map (.marker .minOpening :: ·) :=
  scanTokens_marker (by decide) (by decide)

theorem scan_closing (h : Follows letters) :
    scan afterOperand (')' :: letters) = (scan true letters).map (.marker .closing :: ·) := by
  rw [scan, Token.ofLetters_letter (by decide) (by decide)]
  exact scanTokens_closing h.head_ofLetters

/-- Digits that something else follows are not part of a longer numeral. -/
theorem ofLetters_numeral (h : Follows letters) {ds : List (Fin 10)} (hds : ds ≠ []) :
    Token.ofLetters (ds.map digitChar ++ letters) = .numeral ds :: Token.ofLetters letters :=
  Token.ofLetters_digits hds fun digits hhead => by
    have := h.head_ofLetters (.numeral digits) hhead
    cases this

theorem scan_numeral (h : Follows letters) (n : Nat) :
    scan afterOperand (numeral n ++ letters) = (scan true letters).map (.constant n :: ·) := by
  obtain ⟨ds, hne, hds, hn⟩ := Number.exists_digits n
  rw [hds, scan, ofLetters_numeral h hne, scanTokens_numeral h.head_ofLetters, hn, scan]

theorem scan_die (h : Follows letters) {n : Nat} (hsize : 1 ≤ n) :
    scan afterOperand ('d' :: numeral n ++ letters)
      = (scan true letters).map (.die 1 n :: ·) := by
  obtain ⟨ds, hne, hds, rfl⟩ := Number.exists_digits n
  rw [hds, scan, List.cons_append, Token.ofLetters_letter (by decide) (by decide),
    ofLetters_numeral h hne]
  exact scanTokens_die hsize h.head_ofLetters

theorem scan_minus :
    scan false ('-' :: letters)
      = (scan false letters).map ([.constant (-1), .marker .mul] ++ ·) := by
  rw [scan, Token.ofLetters_letter (by decide) (by decide)]
  exact scanTokens_minus

theorem scan_minus_after :
    scan true ('-' :: letters) = (scan false ('-' :: letters)).map (.marker .add :: ·) := by
  rw [scan, scan, Token.ofLetters_letter (by decide) (by decide)]
  exact scanTokens_minus_after

theorem scan_add (h : letters ≠ []) :
    scan true ('+' :: letters) = (scan false letters).map (.marker .add :: ·) := by
  rw [scan, Token.ofLetters_letter (by decide) (by decide)]
  exact scanTokens_add (Token.ofLetters_ne_nil h)

/-- The symbols of a text are those scanned from its letters. -/
theorem ofText_of_sifted {text : String}
    (h : sifted (Text.lowercase text.toList) = .ok letters) : ofText text = scan false letters := by
  rw [ofText, Token.ofText, h, scan, scanTokens]
  cases hsymbols : ofTokens (Token.explicit (Token.ofLetters letters)) <;>
    simp [Except.map, bind, Except.bind, pure, Except.pure, hsymbols, dropEmptyAdds]

end Letters

end Symbol

end DiceLaw
