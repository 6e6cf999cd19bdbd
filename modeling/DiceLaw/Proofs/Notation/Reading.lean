import DiceLaw.Formula.Reading
import DiceLaw.Proofs.Grammar.Recognition
import DiceLaw.Proofs.Notation.Normal
import DiceLaw.Proofs.Notation.Scan

/-!
# Reading what was written

The text of a formula is scanned to symbols that the grammar derives, and the derivation is that of
the normal form. Brackets are written where the grammar asks for them: each part of a joint is
derived in the category of the members.

## Main definitions

* `Symbol.Writes`: letters that are scanned as symbols in front of whatever may follow an operand
* `Formula.Reads`, `Formula.ReadsSeries`: letters that are read as a formula, or as several

## Main results

* `Formula.reads_asPart`: a part is read as its normal form, in the category of the members
* `Formula.Notated.reads`: so are all letters of a formula
-/

namespace DiceLaw

namespace Symbol

/-- In front of whatever may follow an operand, the letters are scanned as the symbols. -/
def Writes (letters : List Char) (symbols : List Symbol) : Prop :=
  ∀ rest, Follows rest → scan false (letters ++ rest) = (scan true rest).map (symbols ++ ·)

namespace Writes

variable {letters part : List Char} {symbols symbols' : List Symbol}

theorem scan_eq (h : Writes letters symbols) : scan false letters = .ok symbols := by
  have hnil := h [] Follows.nil
  rw [List.append_nil, scan_nil] at hnil
  simpa [Except.map] using hnil

theorem numeral (n : Nat) : Writes (Number.numeral n) [.constant n] :=
  fun _ hrest => scan_numeral hrest n

theorem die {n : Nat} (h : 1 ≤ n) : Writes ('d' :: Number.numeral n) [.die 1 n] :=
  fun _ hrest => scan_die hrest h

theorem negated (h : Writes letters symbols) :
    Writes ('-' :: letters) (.constant (-1) :: .marker .mul :: symbols) := by
  intro rest hrest
  rw [List.cons_append, scan_minus, h rest hrest, Except.map_comp]
  rfl

/-- Brackets around letters; `opening` is how the marker in front is written. -/
theorem enclosed {opening : List Char} {m : Marker} (h : Writes letters symbols)
    (hopening : ∀ cs, scan false (opening ++ cs) = (scan false cs).map (.marker m :: ·)) :
    Writes (opening ++ letters ++ [')']) (.marker m :: symbols ++ [.marker .closing]) := by
  intro rest hrest
  rw [List.append_assoc, List.append_assoc, hopening, List.singleton_append,
    h _ (Follows.cons (by decide) rest), scan_closing hrest, Except.map_comp, Except.map_comp]
  congr 1
  funext s
  simp

theorem brackets (h : Writes letters symbols) :
    Writes ('(' :: letters ++ [')']) (.marker .opening :: symbols ++ [.marker .closing]) := by
  have hmarks : Token.Marks '(' .opening := by decide
  have hopening : ∀ cs, scan false (['('] ++ cs) = (scan false cs).map (.marker .opening :: ·) :=
    fun cs => scan_marker hmarks
  exact h.enclosed hopening

end Writes

end Symbol

/-! ## Parts of a series -/

namespace Joint

/-- A part of a series other than the first, with what is written in front of it. In a sum, a minus
sign takes the place of the operator. -/
def glued (joint : Joint) (part : List Char) : List Char :=
  if joint = .sum ∧ part.head? = some '-' then part else joint.separator ++ part

/-- The text of a series. -/
def seriesText (joint : Joint) (first : List Char) (rest : List (List Char)) : List Char :=
  first ++ rest.flatMap joint.glued

/-- Behind an operand, all that parts are glued with may follow. -/
theorem follows_glued (joint : Joint) (part rest : List Char) :
    Follows (joint.glued part ++ rest) := by
  unfold glued
  split
  · rename_i h
    obtain ⟨tail, rfl⟩ := List.head?_eq_some_iff.1 h.2
    exact .cons (by decide) _
  · cases joint <;> exact .cons (by decide) _

theorem follows_separator (joint : Joint) (rest : List Char) :
    Follows (joint.separator ++ rest) := by
  cases joint <;> exact .cons (by decide) _

theorem exists_separator {joint : Joint} (h : joint ≠ .sum) :
    ∃ c, joint.separator = [c] ∧ Token.Marks c joint.marker := by
  cases joint with
  | sum => exact absurd rfl h
  | _ => exact ⟨_, rfl, by decide⟩

/-- After an operand, the operator of a series and a further part are scanned as its marker and the
part. -/
theorem scan_separator (joint : Joint) {part : List Char} {symbols : List Symbol} (hne : part ≠ [])
    (h : Symbol.Writes part symbols) {rest : List Char} (hrest : Follows rest) :
    Symbol.scan true (joint.separator ++ part ++ rest)
      = (Symbol.scan true rest).map (.marker joint.marker :: symbols ++ ·) := by
  by_cases hsum : joint = .sum
  · -- an addition stays, since the part behind it is not empty
    subst hsum
    show Symbol.scan true ('+' :: (part ++ rest)) = _
    rw [Symbol.scan_add (by simp [hne]), h rest hrest, Except.map_comp]
    rfl
  · -- any other operator is a letter of its own
    obtain ⟨c, hc, hmarks⟩ := exists_separator hsum
    rw [hc, List.singleton_append, List.cons_append, Symbol.scan_marker hmarks, h rest hrest,
      Except.map_comp]
    rfl

/-- After an operand, a further part is scanned as the marker of the series and the part. -/
theorem scan_glued (joint : Joint) {part : List Char} {symbols : List Symbol} (hne : part ≠ [])
    (h : Symbol.Writes part symbols) {rest : List Char} (hrest : Follows rest) :
    Symbol.scan true (joint.glued part ++ rest)
      = (Symbol.scan true rest).map (.marker joint.marker :: symbols ++ ·) := by
  unfold glued
  split
  · -- a minus sign after an operand is an addition in front of the sign
    rename_i hminus
    obtain ⟨tail, rfl⟩ := List.head?_eq_some_iff.1 hminus.2
    rw [List.cons_append, Symbol.scan_minus_after, ← List.cons_append, h rest hrest,
      Except.map_comp, hminus.1]
    rfl
  · exact scan_separator joint hne h hrest

theorem glued_append (joint : Joint) {part : List Char} (hne : part ≠ []) (tail : List Char) :
    joint.glued (part ++ tail) = joint.glued part ++ tail := by
  -- whether a minus sign comes first is seen from the first letter
  have hhead : (part ++ tail).head? = part.head? := by
    cases part with
    | nil => exact absurd rfl hne
    | cons c part => rfl
  unfold glued
  rw [hhead]
  split
  · rfl
  · rw [List.append_assoc]

@[simp] theorem seriesText_nil (joint : Joint) (first : List Char) :
    joint.seriesText first [] = first :=
  List.append_nil first

theorem seriesText_cons (joint : Joint) {first next : List Char} (hne : next ≠ [])
    (rest : List (List Char)) :
    joint.seriesText first (next :: rest) = first ++ joint.glued (joint.seriesText next rest) := by
  rw [seriesText, seriesText, List.flatMap_cons, glued_append joint hne]

end Joint

/-! ## Letters that are read as formulas -/

namespace Formula

/-- In the category, the letters are read as the formula. -/
def Reads (c : Category) (letters : List Char) (f : Formula) : Prop :=
  letters ≠ [] ∧ ∃ symbols g, Symbol.Writes letters symbols ∧ Derives c symbols g ∧
    ofGrouping g = .ok f

/-- The letters are read as a series of the formulas. -/
def ReadsSeries (joint : Joint) (letters : List Char) (fs : List Formula) : Prop :=
  letters ≠ [] ∧ ∃ d : Derivation (.series joint), Symbol.Writes letters d.symbols ∧
    ofGroupings d.groupings = .ok fs

namespace Reads

variable {c : Category} {joint : Joint} {letters : List Char} {f : Formula}

theorem widen_to {c' : Category} (hc' : c'.isArguments = false) (hc : c.isArguments = false)
    (hle : c'.rank ≤ c.rank) (h : Reads c letters f) : Reads c' letters f := by
  obtain ⟨hne, symbols, g, hwrites, hderives, hf⟩ := h
  exact ⟨hne, symbols, g, hwrites, hderives.widen_to hc' hc hle, hf⟩

/-- A unit may stand everywhere. -/
theorem widen_member (joint : Joint) (h : Reads .unit letters f) : Reads joint.member letters f :=
  h.widen_to joint.isArguments_member rfl joint.rank_member_le_unit

theorem brackets (hc : c.isArguments = false) (h : Reads c letters f) :
    Reads .unit ('(' :: letters ++ [')']) f := by
  obtain ⟨-, symbols, g, hwrites, hderives, hf⟩ := h
  obtain ⟨d, rfl, rfl⟩ := hderives.to_formula hc
  exact ⟨by simp, _, _, hwrites.brackets, ⟨.brackets d, rfl, rfl⟩, hf⟩

/-- A part is read in the category of the members, with the brackets that it is given. -/
theorem asPart {outer : Joint} (hc : c.isArguments = false)
    (hrank : needsBrackets outer f = false → outer.member.rank ≤ c.rank) {f' : Formula}
    (h : Reads c letters f') : Reads outer.member (asPart outer f letters) f' := by
  unfold Formula.asPart
  split
  · exact (h.brackets hc).widen_member outer
  · rename_i hneeds
    exact h.widen_to outer.isArguments_member hc (hrank (by simpa using hneeds))

end Reads

namespace ReadsSeries

variable {joint : Joint} {letters : List Char} {f g : Formula} {rest : List Formula}

/-- A part alone is read as a series. -/
theorem lone (h : Reads joint.member letters f) : ReadsSeries joint letters [f] := by
  obtain ⟨hne, symbols, g, hwrites, ⟨d, rfl, rfl⟩, hf⟩ := h
  refine ⟨hne, .lone d, hwrites, ?_⟩
  simp [Derivation.groupings, ofGroupings, hf, bind, Except.bind, pure, Except.pure]

/-- A part in front of a series, with letters in between that are scanned as the marker, is read as
a longer series. -/
theorem cons {first tail joined : List Char} (hfirst : Reads joint.member first f)
    (htail : ReadsSeries joint tail rest) (hfollows : ∀ after, Follows (joined ++ after))
    (hjoined : ∀ symbols, Symbol.Writes tail symbols → ∀ after, Follows after →
      Symbol.scan true (joined ++ after)
        = (Symbol.scan true after).map (.marker joint.marker :: symbols ++ ·)) :
    ReadsSeries joint (first ++ joined) (f :: rest) := by
  obtain ⟨hne, symbols, g, hwrites, ⟨d, rfl, rfl⟩, hf⟩ := hfirst
  obtain ⟨-, tail, hwritesTail, hrest⟩ := htail
  refine ⟨by simp [hne], .more d tail, ?_, ?_⟩
  · -- the part is scanned in front of the tail, and that as the series
    intro after hafter
    rw [List.append_assoc, hwrites _ (hfollows after), hjoined _ hwritesTail after hafter,
      Except.map_comp]
    congr 1
    funext s
    simp [Derivation.symbols]
  · simp [Derivation.groupings, ofGroupings, hf, hrest, bind, Except.bind, pure, Except.pure]

/-- A part in front of a series, glued to it, is read as a longer series. -/
theorem more {first tail : List Char} (hfirst : Reads joint.member first f)
    (htail : ReadsSeries joint tail rest) :
    ReadsSeries joint (first ++ joint.glued tail) (f :: rest) :=
  .cons hfirst htail (joint.follows_glued tail) fun _ hwrites _ =>
    joint.scan_glued htail.1 hwrites

/-- So is a part in front of a series with the operator in between, whatever the series starts
with. -/
theorem separated {first tail : List Char} (hfirst : Reads joint.member first f)
    (htail : ReadsSeries joint tail rest) :
    ReadsSeries joint (first ++ (joint.separator ++ tail)) (f :: rest) := by
  refine .cons hfirst htail (fun after => ?_) fun _ hwrites _ =>
    joint.scan_separator htail.1 hwrites
  rw [List.append_assoc]
  exact joint.follows_separator _

/-- Parts that are read each by itself are read as a series. -/
theorem of_parts {first : List Char} {parts : List (List Char × Formula)}
    (hfirst : Reads joint.member first f)
    (hparts : ∀ part ∈ parts, Reads joint.member part.1 part.2) :
    ReadsSeries joint (joint.seriesText first (parts.map Prod.fst)) (f :: parts.map Prod.snd) := by
  -- the text of the parts from the second on is again that of a series
  induction parts generalizing first f with
  | nil =>
    rw [List.map_nil, Joint.seriesText_nil]
    exact .lone hfirst
  | cons part parts ih =>
    have hpart := hparts part List.mem_cons_self
    rw [List.map_cons, Joint.seriesText_cons joint hpart.1]
    exact .more hfirst (ih hpart fun p hp => hparts p (List.mem_cons_of_mem _ hp))

/-- A series of two formulas or more is read as a formula. -/
theorem reads (h : ReadsSeries joint letters (f :: g :: rest)) :
    Reads (.series joint) letters (.join joint f (g :: rest)) := by
  obtain ⟨hne, d, hwrites, hfs⟩ := h
  have hlen := ofGroupings_length hfs
  rw [d.groupings_length] at hlen
  refine ⟨hne, d.symbols, d.grouping, hwrites, ⟨d, rfl, rfl⟩, ?_⟩
  -- two formulas come from two members, so that the series is a node
  rw [d.grouping_of_two_le (by simp [← hlen]), ofGrouping, hfs]
  rfl

/-- A minus sign in front of a product is minus one as its first part. -/
theorem signed (h : ReadsSeries .product letters rest) :
    ReadsSeries .product ('-' :: letters) (.constant (-1) :: rest) := by
  obtain ⟨-, d, hwrites, hfs⟩ := h
  -- the sign is scanned as a member of its own, with the marker of products behind it
  let sign : Derivation Joint.product.member := .lone (.constant (-1))
  refine ⟨List.cons_ne_nil _ _, .more sign d, hwrites.negated, ?_⟩
  show ofGroupings (.leaf (.constant (-1)) :: d.groupings) = _
  rw [ofGroupings, ofGrouping, hfs]
  rfl

theorem negated (h : ReadsSeries .product letters (f :: rest)) :
    Reads .factor ('-' :: letters) (.join .product (.constant (-1)) (f :: rest)) :=
  h.signed.reads

/-- The arguments of a selection are read inside its brackets. -/
theorem selection {opening : List Char} {m : Marker} (hj : joint.isSelection = true)
    (hopening : ∀ cs, Symbol.scan false (opening ++ cs)
      = (Symbol.scan false cs).map (.marker m :: ·))
    (hunit : ∀ d : Derivation (.series joint),
      Derives .unit (.marker m :: d.symbols ++ [.marker .closing]) d.grouping)
    (h : ReadsSeries joint letters (f :: rest)) :
    Reads .unit (opening ++ letters ++ [')']) (.join joint f rest) := by
  obtain ⟨-, d, hwrites, hfs⟩ := h
  refine ⟨by simp, _, _, hwrites.enclosed hopening, hunit d, ?_⟩
  rw [d.grouping_of_isSelection hj, ofGrouping, hfs]
  rfl

end ReadsSeries

/-- Two parts with the operator of a joint between them. -/
theorem Reads.joined (joint : Joint) {left right : List Char} {f g : Formula}
    (hleft : Reads joint.member left f) (hright : Reads joint.member right g) :
    Reads (.series joint) (left ++ (joint.separator ++ right)) (.join joint f [g]) :=
  (ReadsSeries.separated hleft (.lone hright)).reads

/-! ## The text of a formula -/

/-- The category that the text of a formula is read in. -/
def category : Formula → Category
  | .constant value => if value < 0 then .factor else .unit
  | .join joint _ _ => if joint.isSelection then .unit else .series joint
  | _ => .unit

theorem isArguments_category (f : Formula) : f.category.isArguments = false := by
  cases f with
  | constant value => simp only [category]; split <;> rfl
  | join joint first rest => cases joint <;> rfl
  | _ => rfl

/-- Brackets are left out only where the grammar needs none. -/
theorem rank_le_of_needsBrackets {outer : Joint} {f : Formula} (h : needsBrackets outer f = false) :
    outer.member.rank ≤ f.category.rank := by
  cases f with
  | constant value =>
    simp only [category]
    split
    · -- a negative number is read as a factor: too loose for the products and sample-sums, in which
      -- it is put in brackets
      rename_i hneg
      cases outer <;> simp [needsBrackets, hneg] at h <;> decide
    · exact outer.rank_member_le_unit
  | join inner first rest =>
    -- the strengths of the joints are in the order of the ranks of their series
    simp only [needsBrackets, category] at h ⊢
    revert h
    cases outer <;> cases inner <;> decide
  | _ => exact outer.rank_member_le_unit

/-- Parts with a separator between them, as the first part and what is put behind it. -/
theorem intercalate_cons (separator first : List Char) (rest : List (List Char)) :
    separator.intercalate (first :: rest) = first ++ rest.flatMap (separator ++ ·) := by
  induction rest generalizing first with
  | nil => simp
  | cons next rest ih =>
    rw [List.intercalate_cons_cons, ih, List.flatMap_cons, List.append_assoc, List.append_assoc]

/-- Parts are written as a series wherever nothing but a sum looks at minus signs. -/
theorem intercalate_separator {joint : Joint} (h : joint ≠ .sum) (first : List Char)
    (rest : List (List Char)) :
    joint.separator.intercalate (first :: rest) = joint.seriesText first rest := by
  have hglued : joint.glued = fun part => joint.separator ++ part := by
    funext part
    rw [Joint.glued, if_neg fun hminus => h hminus.1]
  rw [intercalate_cons, Joint.seriesText, hglued]

/-- An operator writes its parts as a series, but for minus one in front of a product. -/
theorem joinText_operator {joint : Joint} (hj : joint.isSelection = false) {head : Formula}
    {rest : List (List Char)} (hhead : ¬ (joint = .product ∧ head = .constant (-1) ∧ rest ≠ []))
    (first : List Char) : joinText joint head first rest = joint.seriesText first rest := by
  cases joint with
  | sum =>
    have hglued : Joint.sum.glued = fun part =>
        if part.head? = some '-' then part else '+' :: part := by
      funext part
      simp [Joint.glued, Joint.separator]
    show sumText first rest = _
    rw [sumText, Joint.seriesText, hglued]
  | product =>
    rw [joinText_product, if_neg fun h => hhead ⟨rfl, h⟩, intercalate_separator (by decide)]
  | quotient | sampleSum => exact intercalate_separator (by decide) first rest
  | max | min => cases hj

theorem joinText_negated (first next : List Char) (rest : List (List Char)) :
    joinText .product (.constant (-1)) first (next :: rest)
      = '-' :: Joint.product.seriesText next rest := by
  rw [joinText_product, if_pos ⟨rfl, List.cons_ne_nil _ _⟩, intercalate_separator (by decide)]

theorem joinText_max (head : Formula) (first : List Char) (rest : List (List Char)) :
    joinText .max head first rest
      = "max(".toList ++ Joint.max.seriesText first rest ++ [')'] := by
  show "max(".toList ++ Joint.max.separator.intercalate (first :: rest) ++ [')'] = _
  rw [intercalate_separator (by decide)]

theorem joinText_min (head : Formula) (first : List Char) (rest : List (List Char)) :
    joinText .min head first rest
      = "min(".toList ++ Joint.min.seriesText first rest ++ [')'] := by
  show "min(".toList ++ Joint.min.separator.intercalate (first :: rest) ++ [')'] = _
  rw [intercalate_separator (by decide)]

/-! ## Reading a formula from its text -/

theorem reads_numeral (n : Nat) : Reads .unit (Number.numeral n) (.constant n) :=
  ⟨Nat.toDigits_ne_nil, [.constant n], .leaf (.constant n), .numeral n, ⟨.constant n, rfl, rfl⟩, by
    rw [ofGrouping]⟩

theorem reads_constant (value : Int) :
    Reads (category (.constant value)) (chars (.constant value)) (normal (.constant value)) := by
  rw [category, normal, chars_constant, Number.signedNumeral]
  by_cases hneg : value < 0
  · -- a sign in front of a numeral is read as a product with minus one
    rw [if_pos hneg, if_pos hneg, if_pos hneg]
    obtain ⟨n, rfl⟩ : ∃ n : Nat, value = -(n : Int) := ⟨value.natAbs, by omega⟩
    rw [Int.natAbs_neg, Int.natAbs_natCast, Int.neg_neg]
    have hatom : Reads Joint.product.member (Number.numeral n) (.constant n) :=
      (reads_numeral n).widen_to rfl rfl (by decide)
    exact (ReadsSeries.lone hatom).negated
  · rw [if_neg hneg, if_neg hneg, if_neg hneg]
    obtain ⟨n, rfl⟩ := Int.eq_ofNat_of_zero_le (Int.not_lt.1 hneg)
    exact reads_numeral n

theorem reads_die {d : Die} (hlo : d.lo = 1) : Reads .unit (chars (.die d)) (.die d) := by
  obtain ⟨lo, hi, hle⟩ := d
  obtain rfl : lo = 1 := hlo
  obtain ⟨n, rfl⟩ := Int.eq_ofNat_of_zero_le (show 0 ≤ hi by omega)
  have hsize : 1 ≤ n := by omega
  have htext : chars (.die ⟨1, n, hle⟩) = 'd' :: Number.numeral n := by
    rw [chars_die rfl, Number.signedNumeral, if_neg (Int.not_lt.2 (Int.natCast_nonneg n)),
      Int.natAbs_natCast]
  rw [htext]
  refine ⟨List.cons_ne_nil _ _, [.die 1 n], .leaf (.die 1 n), .die hsize, ⟨.die 1 n, rfl, rfl⟩, ?_⟩
  rw [ofGrouping, die?, dif_pos hle]

section Joined

variable {joint : Joint} {first : Formula} {rest : List Formula}

theorem reads_asPart {f : Formula} (h : Reads f.category (chars f) (normal f)) (joint : Joint) :
    Reads joint.member (asPart joint f (chars f)) (normal f) :=
  h.asPart f.isArguments_category rank_le_of_needsBrackets

/-- The parts of a joint are read as a series. -/
theorem readsSeries_parts (joint : Joint)
    (hfirst : Reads first.category (chars first) (normal first))
    (hrest : ∀ part ∈ rest, Reads part.category (chars part) (normal part)) :
    ReadsSeries joint (joint.seriesText (asPart joint first (chars first)) (partChars joint rest))
      (normal first :: normals rest) := by
  have hparts : ∀ part ∈ rest.map fun part => (asPart joint part (chars part), normal part),
      Reads joint.member part.1 part.2 := by
    intro part hpart
    obtain ⟨p, hp, rfl⟩ := List.mem_map.1 hpart
    exact reads_asPart (hrest p hp) joint
  simpa [partChars_eq_map, normals_eq_map, Function.comp_def] using
    ReadsSeries.of_parts (reads_asPart hfirst joint) hparts

/-- A selection is read as the selection from the normal forms of its arguments. -/
theorem reads_selection (hj : joint.isSelection = true)
    (hfirst : Reads first.category (chars first) (normal first))
    (hrest : ∀ part ∈ rest, Reads part.category (chars part) (normal part)) :
    Reads (category (.join joint first rest))
      (joinText joint first (asPart joint first (chars first)) (partChars joint rest))
      (normal (.join joint first rest)) := by
  have hparts := readsSeries_parts joint hfirst hrest
  cases joint with
  | max =>
    rw [joinText_max, normal_join (by simp [Joint.isSelection]) (by simp)]
    exact hparts.selection rfl (fun _ => Symbol.scan_maxOpening) fun d => ⟨.maximum d, rfl, rfl⟩
  | min =>
    rw [joinText_min, normal_join (by simp [Joint.isSelection]) (by simp)]
    exact hparts.selection rfl (fun _ => Symbol.scan_minOpening) fun d => ⟨.minimum d, rfl, rfl⟩
  | _ => cases hj

/-- What is written for a joint is read as its normal form, if its parts are. -/
theorem reads_join (hfirst : Reads first.category (chars first) (normal first))
    (hrest : ∀ part ∈ rest, Reads part.category (chars part) (normal part)) :
    Reads (category (.join joint first rest)) (chars (.join joint first rest))
      (normal (.join joint first rest)) := by
  -- a selection has brackets of its own; an operator with one part is written as the part; minus
  -- one in front of a product is written as a sign
  rw [chars_join]
  cases hj : joint.isSelection with
  | true => exact reads_selection hj hfirst hrest
  | false =>
    have hcategory : category (.join joint first rest) = .series joint := by
      rw [category, hj]
      rfl
    rw [hcategory]
    cases rest with
    | nil =>
      -- one part: its brackets, if any, are read as nothing
      rw [partChars, joinText_operator hj (fun h => h.2.2 rfl), Joint.seriesText_nil,
        normal_lone hj]
      exact (reads_asPart hfirst joint).widen_to hj joint.isArguments_member joint.rank_le_member
    | cons next rest =>
      have hnext := hrest next List.mem_cons_self
      have hothers : ∀ part ∈ rest, Reads part.category (chars part) (normal part) :=
        fun part h => hrest part (List.mem_cons_of_mem _ h)
      by_cases hhead : joint = .product ∧ first = .constant (-1)
      · -- the other parts are a series, and the sign goes in front of it
        obtain ⟨rfl, rfl⟩ := hhead
        rw [partChars, joinText_negated, normal_negated (List.cons_ne_nil _ _)]
        exact (readsSeries_parts .product hnext hothers).negated
      · rw [joinText_operator hj (fun h => hhead ⟨h.1, h.2.1⟩),
          normal_join (fun _ => List.cons_ne_nil _ _) hhead]
        exact (readsSeries_parts joint hfirst hrest).reads

end Joined

/-- What is written for a formula is read as its normal form. -/
theorem Notated.reads {f : Formula} (h : Notated f) :
    Reads f.category (chars f) (normal f) := by
  induction h with
  | constant value => exact reads_constant value
  | die hlo => exact reads_die hlo
  | join joint hfirst hrest ihFirst ihRest => exact reads_join ihFirst ihRest

end Formula

end DiceLaw
