import DiceLaw.Except
import DiceLaw.Grouping.Level

/-!
# Paths through brackets

A sequence of symbols leads from one depth of brackets to another. What the search and the cut on
the outer level see of it depends only on where it leads and on which markers stand outside all
brackets; a path says both.

## Main definitions

* `Level.Path`: symbols lead from one depth to another without a barred marker on the outer level

## Main results

* `Level.Path.end_unique`: where a path leads does not depend on what is barred
* `Level.Path.cancel`: the first barred marker outside brackets is at one place only
* `Level.containsFrom_append`, `Level.segmentsFrom_append`: searching and cutting along a path
* `Level.exists_path_of_containsFrom`, `Level.exists_path_of_segmentsFrom`: the paths behind a
  search without success, and behind the segments of a cut
-/

namespace DiceLaw

namespace Level

/-! ## Single symbols -/

@[simp] theorem after_opening {m : Marker} (h : m.opens = true) (depth : Nat) :
    after depth (.marker m) = .ok (depth + 1) := by
  simp [after, Symbol.opens, h]

@[simp] theorem after_closing (depth : Nat) :
    after (depth + 1) (.marker .closing) = .ok depth := rfl

theorem after_of_neutral {s : Symbol} (ho : s.opens = false) (hc : s ≠ .marker .closing)
    (depth : Nat) : after depth s = .ok depth := by
  simp [after, ho, hc]

/-- A step that can be taken can be taken one level further in. -/
theorem after_succ {depth next : Nat} {s : Symbol} (h : after depth s = .ok next) :
    after (depth + 1) s = .ok (next + 1) := by
  by_cases ho : s.opens = true
  · simp only [after, if_pos ho, Except.ok.injEq] at h ⊢
    omega
  · by_cases hc : s = .marker .closing
    · subst hc
      cases depth with
      | zero => cases h
      | succ depth =>
        obtain rfl := Except.ok.inj h
        rfl
    · simp only [after, if_neg ho, if_neg hc, Except.ok.injEq] at h ⊢
      omega

/-! ## Paths -/

/-- The symbols lead from one depth of brackets to another, and none of the barred markers stands
outside all brackets. -/
inductive Path (barred : List Marker) : Nat → List Symbol → Nat → Prop
  | nil (depth : Nat) : Path barred depth [] depth
  | cons {depth next last : Nat} {s : Symbol} {rest : List Symbol}
      (free : depth = 0 → ∀ m ∈ barred, s ≠ .marker m) (step : after depth s = .ok next)
      (tail : Path barred next rest last) : Path barred depth (s :: rest) last

namespace Path

variable {barred barred' : List Marker} {depth middle last last' : Nat} {xs ys : List Symbol}

theorem append (h : Path barred depth xs middle) (h' : Path barred middle ys last) :
    Path barred depth (xs ++ ys) last := by
  induction h with
  | nil => exact h'
  | cons free step _ ih => exact .cons free step (ih h')

theorem of_append (h : Path barred depth (xs ++ ys) last) :
    ∃ middle, Path barred depth xs middle ∧ Path barred middle ys last := by
  induction xs generalizing depth with
  | nil => exact ⟨depth, .nil depth, h⟩
  | cons s rest ih =>
    cases h with
    | cons free step tail =>
      obtain ⟨middle, hxs, hys⟩ := ih tail
      exact ⟨middle, .cons free step hxs, hys⟩

/-- Where a path leads does not depend on what is barred. -/
theorem end_unique (h : Path barred depth xs last) (h' : Path barred' depth xs last') :
    last = last' := by
  -- the depth after a symbol is computed from the depth before it
  induction h with
  | nil => cases h'; rfl
  | cons _ step _ ih =>
    cases h' with
    | cons _ step' tail' =>
      obtain rfl := Except.ok.inj (step.symm.trans step')
      exact ih tail'

theorem mono (h : Path barred depth xs last) (hsub : ∀ m ∈ barred', m ∈ barred) :
    Path barred' depth xs last := by
  induction h with
  | nil => exact .nil _
  | cons free step _ ih => exact .cons (fun h0 m hm => free h0 m (hsub m hm)) step ih

/-- Inside a bracket nothing is barred. -/
theorem raise (h : Path barred depth xs last) : Path barred' (depth + 1) xs (last + 1) := by
  induction h with
  | nil => exact .nil _
  | cons _ step _ ih =>
    exact .cons (fun h0 => absurd h0 (Nat.succ_ne_zero _)) (after_succ step) ih

/-- One symbol that is neither a bracket nor barred. -/
theorem single {s : Symbol} (ho : s.opens = false) (hc : s ≠ .marker .closing)
    (free : ∀ m ∈ barred, s ≠ .marker m) : Path barred depth [s] depth :=
  .cons (fun _ => free) (after_of_neutral ho hc depth) (.nil depth)

/-- Brackets around a path that comes back make a path on which only brackets are met. -/
theorem enclosed {m : Marker} (hm : m.opens = true) (h : Path barred 0 xs 0)
    (hbarred : ∀ k ∈ barred', k.opens = false ∧ k ≠ .closing) :
    Path barred' 0 (.marker m :: xs ++ [.marker .closing]) 0 := by
  have hfree : ∀ k ∈ barred', m ≠ k := by
    rintro k hk rfl
    rw [(hbarred m hk).1] at hm
    cases hm
  -- only the opening stands outside brackets: what is enclosed and the closing are at depth one
  refine .cons (fun _ k hk => ?_) (after_opening hm 0) (h.raise.append ?_)
  · simpa using hfree k hk
  · exact .cons (fun h0 => absurd h0 (Nat.succ_ne_zero _)) (after_closing 0) (.nil 0)

/-- A barred marker does not stand where a path has come back to the outer level. -/
theorem not_append_marker {m : Marker} (hxs : Path barred 0 xs 0) :
    ¬ Path [m] 0 (xs ++ .marker m :: ys) last := by
  intro h
  obtain ⟨middle, hleft, hright⟩ := h.of_append
  -- the marker is met at depth zero, where the path has come back to
  obtain rfl := hleft.end_unique hxs
  cases hright with
  | cons free => exact free rfl m List.mem_cons_self rfl

/-- The first barred marker outside brackets is at one place only. -/
theorem cancel {m : Marker} {xs' ys' : List Symbol} (h : Path [m] depth xs 0)
    (h' : Path [m] depth xs' 0) (he : xs ++ .marker m :: ys = xs' ++ .marker m :: ys') :
    xs = xs' ∧ ys = ys' := by
  -- both paths are walked along together; the one that ends first is at the marker, on the outer
  -- level, where the other one may not pass
  induction xs generalizing depth xs' with
  | nil =>
    cases h
    cases h' with
    | nil => simpa using he
    | cons free _ _ =>
      obtain ⟨rfl, -⟩ := List.cons.inj he
      exact absurd rfl (free rfl m List.mem_cons_self)
  | cons s rest ih =>
    cases h with
    | cons free step tail =>
      cases h' with
      | nil =>
        obtain ⟨rfl, -⟩ := List.cons.inj he
        exact absurd rfl (free rfl m List.mem_cons_self)
      | cons free' step' tail' =>
        obtain ⟨rfl, hrest⟩ := List.cons.inj he
        obtain rfl := Except.ok.inj (step.symm.trans step')
        obtain ⟨rfl, hys⟩ := ih tail tail' hrest
        exact ⟨rfl, hys⟩

end Path

/-! ## Searching and cutting -/

section

variable {m : Marker} {barred : List Marker} {depth last : Nat} {xs : List Symbol}

/-- A search passes over a path on which its marker is barred. -/
theorem containsFrom_append (h : Path barred depth xs last) (hm : m ∈ barred)
    (ys : List Symbol) :
    containsFrom m depth (xs ++ ys) = containsFrom m last ys := by
  induction h with
  | nil => rfl
  | @cons depth next last s rest free step _ ih =>
    have hs : ¬ (depth = 0 ∧ s = .marker m) := fun hs => free hs.1 m hm hs.2
    rw [List.cons_append, containsFrom, if_neg hs, step]
    exact ih

/-- A cut leaves a path on which its marker is barred in one segment. -/
theorem segmentsFrom_append (h : Path barred depth xs last) (hm : m ∈ barred)
    (ys : List Symbol) :
    segmentsFrom m depth (xs ++ ys)
      = (segmentsFrom m last ys).map fun p => (xs ++ p.1, p.2) := by
  induction h with
  | nil depth => cases hys : segmentsFrom m depth ys <;> simp [hys, Except.map]
  | @cons depth next last s rest free step _ ih =>
    have hs : ¬ (depth = 0 ∧ s = .marker m) := fun hs => free hs.1 m hm hs.2
    rw [List.cons_append, segmentsFrom, if_neg hs, step]
    simp only [bind, Except.bind, ih]
    cases segmentsFrom m last ys <;> rfl

/-- A search without success has passed along a path. -/
theorem exists_path_of_containsFrom (h : containsFrom m depth xs = .ok false) :
    ∃ last, Path [m] depth xs last := by
  induction xs generalizing depth with
  | nil => exact ⟨depth, .nil depth⟩
  | cons s rest ih =>
    rw [containsFrom] at h
    split at h
    · cases h
    · rename_i hs
      obtain ⟨next, hstep, h⟩ := Except.bind_eq_ok.1 h
      obtain ⟨last, hpath⟩ := ih h
      refine ⟨last, .cons (fun h0 k hk => ?_) hstep hpath⟩
      obtain rfl := List.mem_singleton.1 hk
      exact fun he => hs ⟨h0, he⟩

/-- The segments of a cut, put together again with the marker, are the symbols that were cut, and
no segment has the marker outside brackets. -/
theorem exists_path_of_segmentsFrom {first : List Symbol} {others : List (List Symbol)}
    (h : segmentsFrom m depth xs = .ok (first, others)) :
    xs = first ++ others.flatMap (.marker m :: ·) ∧ (∃ last, Path [m] depth first last) ∧
      ∀ segment ∈ others, ∃ last, Path [m] 0 segment last := by
  induction xs generalizing depth first others with
  | nil =>
    obtain ⟨rfl, rfl⟩ : [] = first ∧ [] = others := by simpa [segmentsFrom] using h
    exact ⟨rfl, ⟨depth, .nil depth⟩, by simp⟩
  | cons s rest ih =>
    rw [segmentsFrom] at h
    split at h
    · -- a cut: the segment at hand ends, and what the rest is cut into follows
      rename_i hs
      obtain ⟨p, hr, h⟩ := Except.bind_eq_ok.1 h
      obtain ⟨rfl, rfl⟩ := Prod.mk.inj (Except.ok.inj h)
      obtain ⟨hrest, hfirst, hothers⟩ := ih hr
      refine ⟨by simp [hs.2, ← hrest], ⟨depth, .nil depth⟩, ?_⟩
      intro segment hmem
      rcases List.mem_cons.1 hmem with rfl | hmem
      · exact hfirst
      · exact hothers segment hmem
    · -- no cut: the symbol goes in front of the first segment of the rest
      rename_i hs
      obtain ⟨next, hstep, h⟩ := Except.bind_eq_ok.1 h
      obtain ⟨p, hr, h⟩ := Except.bind_eq_ok.1 h
      obtain ⟨rfl, rfl⟩ := Prod.mk.inj (Except.ok.inj h)
      obtain ⟨hrest, ⟨last, hfirst⟩, hothers⟩ := ih hr
      refine ⟨by rw [List.cons_append, ← hrest], ⟨last, .cons (fun h0 k hk => ?_) hstep hfirst⟩,
        hothers⟩
      obtain rfl := List.mem_singleton.1 hk
      exact fun he => hs ⟨h0, he⟩

end

end Level

end DiceLaw
