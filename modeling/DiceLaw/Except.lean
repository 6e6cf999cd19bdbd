/-!
# Steps that may fail

How a sequence of steps came to its end: with a result if each of them had one, and with an error if
one of them failed.

## Main results

* `Except.bind_eq_ok`, `Except.bind_eq_error`: two steps, one after the other
* `Except.map_eq_ok`, `Except.map_eq_error`, `Except.map_comp`: a step whose result is carried over
* `Except.mapM_cons_eq_ok`, `Except.mapM_pair_eq_ok`, `Except.mapM_eq_error`: one step for each
  element of a list
-/

namespace DiceLaw

namespace Except

variable {ε α β γ : Type} {x : Except ε α}

theorem bind_eq_ok {f : α → Except ε β} {b : β} :
    (x >>= f) = .ok b ↔ ∃ a, x = .ok a ∧ f a = .ok b := by
  cases x <;> simp [bind, Except.bind]

theorem bind_eq_error {f : α → Except ε β} {e : ε} :
    (x >>= f) = .error e ↔ x = .error e ∨ ∃ a, x = .ok a ∧ f a = .error e := by
  cases x <;> simp [bind, Except.bind]

theorem map_eq_ok {f : α → β} {b : β} : x.map f = .ok b ↔ ∃ a, x = .ok a ∧ f a = b := by
  cases x <;> simp [Except.map]

theorem map_eq_error {f : α → β} {e : ε} : x.map f = .error e ↔ x = .error e := by
  cases x <;> simp [Except.map]

theorem map_comp (x : Except ε α) (f : α → β) (g : β → γ) :
    (x.map f).map g = x.map fun a => g (f a) := by
  cases x <;> rfl

theorem mapM_cons_eq_ok {f : α → Except ε β} {a : α} {as : List α} {bs : List β} :
    (a :: as).mapM f = .ok bs ↔
      ∃ b rest, f a = .ok b ∧ as.mapM f = .ok rest ∧ bs = b :: rest := by
  rw [List.mapM_cons, bind_eq_ok]
  constructor
  · rintro ⟨b, hb, h⟩
    obtain ⟨rest, hrest, h⟩ := bind_eq_ok.1 h
    exact ⟨b, rest, hb, hrest, (Except.ok.inj h).symm⟩
  · rintro ⟨b, rest, hb, hrest, rfl⟩
    exact ⟨b, hb, bind_eq_ok.2 ⟨rest, hrest, rfl⟩⟩

theorem mapM_pair_eq_ok {f : α → Except ε β} {a c : α} {bs : List β} :
    [a, c].mapM f = .ok bs ↔ ∃ b d, f a = .ok b ∧ f c = .ok d ∧ bs = [b, d] := by
  rw [mapM_cons_eq_ok]
  constructor
  · rintro ⟨b, ds, hb, hds, rfl⟩
    obtain ⟨d, rest, hd, hrest, rfl⟩ := mapM_cons_eq_ok.1 hds
    obtain rfl := Except.ok.inj hrest
    exact ⟨b, d, hb, hd, rfl⟩
  · rintro ⟨b, d, hb, hd, rfl⟩
    exact ⟨b, [d], hb, mapM_cons_eq_ok.2 ⟨d, [], hd, rfl, rfl⟩, rfl⟩

/-- Steps that are taken one after the other fail with the first that fails. -/
theorem mapM_eq_error {f : α → Except ε β} {as : List α} {e : ε} :
    as.mapM f = .error e ↔ ∃ before a after, as = before ++ a :: after ∧
      (∀ b ∈ before, ∃ c, f b = .ok c) ∧ f a = .error e := by
  induction as with
  | nil =>
    refine ⟨nofun, ?_⟩
    rintro ⟨before, a, after, h, -⟩
    cases before <;> cases h
  | cons first rest ih =>
    rw [List.mapM_cons, bind_eq_error]
    constructor
    · rintro (hfirst | ⟨c, hc, h⟩)
      · exact ⟨[], first, rest, rfl, nofun, hfirst⟩
      · rcases bind_eq_error.1 h with h | ⟨cs, -, h⟩
        · obtain ⟨before, a, after, rfl, hbefore, ha⟩ := ih.1 h
          refine ⟨first :: before, a, after, rfl, fun b hb => ?_, ha⟩
          rcases List.mem_cons.1 hb with rfl | hb
          · exact ⟨c, hc⟩
          · exact hbefore b hb
        · cases h
    · rintro ⟨_ | ⟨b, before⟩, a, after, h, hbefore, ha⟩
      · obtain ⟨rfl, rfl⟩ := List.cons.inj h
        exact .inl ha
      · obtain ⟨rfl, rfl⟩ := List.cons.inj h
        obtain ⟨c, hc⟩ := hbefore first List.mem_cons_self
        have hothers : ∀ b ∈ before, ∃ c, f b = .ok c := fun b hb =>
          hbefore b (List.mem_cons_of_mem _ hb)
        have hrest := ih.2 ⟨before, a, after, rfl, hothers, ha⟩
        exact .inr ⟨c, hc, bind_eq_error.2 (.inl hrest)⟩

end Except

end DiceLaw
