import DiceLaw.Settings.Store

/-!
# Settings laid over settings

A path of keys leads into nested mappings. What is found at a path after one mapping is laid over
another is what the upper one has there, if it has something; two mappings at one place are laid
over one another in turn, and where the upper one says nothing the lower one stays. A value that is
no mapping ends all paths that go on behind it.

## Main definitions

* `Value.at?`, `Fields.at?`: the value at a path
* `Value.EndsBefore`: a path goes on behind a value that is no mapping
* `Fields.Distinct`: no key stands twice in a mapping, however far in

## Main results

* `Fields.get?_overlay_of_some`, `Fields.get?_overlay_of_none`: what is found under a key
* `Value.at?_overlay_of_some`, `Value.at?_overlay_of_none`: what is found at a path
* `Fields.overlay_overlay`: laying the same over it once more changes nothing
* `Fields.Distinct.overlay`: no key stands twice afterwards
* `Fields.overlay_by_path`: the law of laying settings over settings
-/

namespace DiceLaw

/-! ## Values at paths -/

namespace Value

/-- Only mappings have values further in. -/
def isMapping : Value → Bool
  | .mapping _ => true
  | _ => false

/-- The value at a path of keys. -/
def at? : List String → Value → Option Value
  | [], value => some value
  | key :: path, .mapping fields => (Keyed.get? key fields).bind (at? path)
  | _ :: _, _ => none

/-- The path goes on behind a value that is no mapping. -/
def EndsBefore (value : Value) (path : List String) : Prop :=
  ∃ front, front <+: path ∧ front ≠ path ∧
    ∃ last, value.at? front = some last ∧ last.isMapping = false

variable {value : Value} {key : String} {path : List String} {fields : Fields}

@[simp] theorem at?_nil : value.at? [] = some value := by
  rw [at?]

@[simp] theorem at?_mapping_cons :
    (mapping fields).at? (key :: path) = (Keyed.get? key fields).bind (at? path) := rfl

theorem at?_cons_of_not_isMapping (h : value.isMapping = false) :
    value.at? (key :: path) = none := by
  cases value with
  | mapping fields => cases h
  | _ => rfl

/-- A path in two parts is followed part by part. -/
theorem at?_append (front back : List String) :
    value.at? (front ++ back) = (value.at? front).bind (at? back) := by
  induction front generalizing value with
  | nil => rw [List.nil_append, at?_nil, Option.bind_some]
  | cons key front ih =>
    cases value with
    | mapping fields =>
      rw [List.cons_append, at?_mapping_cons, at?_mapping_cons, Option.bind_assoc]
      exact Option.bind_congr fun inner _ => ih
    | _ => rfl

theorem EndsBefore.at?_eq_none (h : value.EndsBefore path) : value.at? path = none := by
  obtain ⟨front, ⟨back, rfl⟩, hne, last, hlast, hmapping⟩ := h
  have hback : back ≠ [] := by
    rintro rfl
    exact hne (List.append_nil front).symm
  obtain ⟨key, back, rfl⟩ := List.exists_cons_of_ne_nil hback
  rw [at?_append, hlast]
  exact at?_cons_of_not_isMapping hmapping

theorem endsBefore_cons_of_not_isMapping (h : value.isMapping = false) :
    value.EndsBefore (key :: path) :=
  ⟨[], List.nil_prefix, (List.cons_ne_nil _ _).symm, value, at?_nil, h⟩

theorem endsBefore_mapping_cons :
    (mapping fields).EndsBefore (key :: path) ↔
      ∃ inner, Keyed.get? key fields = some inner ∧ inner.EndsBefore path := by
  constructor
  · rintro ⟨front, hfront, hne, last, hat, hlast⟩
    cases front with
    | nil =>
      obtain rfl := Option.some.inj (at?_nil.symm.trans hat)
      cases hlast
    | cons k front =>
      obtain ⟨rfl, hprefix⟩ := List.cons_prefix_cons.1 hfront
      obtain ⟨inner, hget, hinner⟩ := Option.bind_eq_some_iff.1 hat
      exact ⟨inner, hget, front, hprefix, fun h => hne (h ▸ rfl), last, hinner, hlast⟩
  · rintro ⟨inner, hget, front, hfront, hne, last, hat, hlast⟩
    refine ⟨key :: front, List.cons_prefix_cons.2 ⟨rfl, hfront⟩,
      fun h => hne (List.cons.inj h).2, last, ?_, hlast⟩
    rw [at?_mapping_cons, hget]
    exact hat

end Value

namespace Fields

/-- The value at a path of keys. -/
def at? (path : List String) (fields : Fields) : Option Value := (Value.mapping fields).at? path

/-- No key stands twice, neither here nor in a mapping further in. -/
inductive Distinct : Fields → Prop
  | intro {fields : Fields} (keys : (Keyed.keys fields).Nodup)
      (inner : ∀ key lower, (key, .mapping lower) ∈ fields → Distinct lower) : Distinct fields

theorem Distinct.keys {fields : Fields} (h : Distinct fields) : (Keyed.keys fields).Nodup := by
  cases h
  assumption

theorem Distinct.inner {fields lower : Fields} {key : String} (h : Distinct fields)
    (hget : Keyed.get? key fields = some (.mapping lower)) : Distinct lower := by
  cases h with
  | intro keys inner => exact inner key lower (Keyed.mem_of_get? hget)

end Fields

/-- If the value is a mapping, no key stands twice in it. -/
def Value.Distinct (value : Value) : Prop :=
  ∀ fields, value = .mapping fields → Fields.Distinct fields

/-! ## Laying over -/

section Overlay

variable {key : String} {path : List String} {value last : Value} {lower : Option Value}
  {upper base fields : Fields}

/-- Where two mappings do not meet, the upper value is kept. -/
theorem Value.overlay_eq_self
    (h : ∀ upper base, value = .mapping upper → lower ≠ some (.mapping base)) :
    value.overlay lower = value := by
  cases value with
  | mapping upper =>
    rw [overlay]
    exact fun base => h upper base rfl
  | _ => simp [overlay]

theorem Value.overlay_none (value : Value) : value.overlay none = value :=
  overlay_eq_self fun _ _ _ => nofun

theorem Value.overlay_of_not_isMapping (h : value.isMapping = false) :
    value.overlay lower = value := by
  refine overlay_eq_self fun upper base hvalue => ?_
  rw [hvalue] at h
  cases h

theorem Value.overlay_mapping_mapping (upper base : Fields) :
    (Value.mapping upper).overlay (some (.mapping base))
      = .mapping (Fields.overlay upper base) := by
  rw [overlay]

/-- A mapping comes from the upper value, or from two mappings that meet. -/
theorem Value.of_overlay_eq_mapping {found : Fields} (h : value.overlay lower = .mapping found) :
    value = .mapping found ∨ ∃ upper base, value = .mapping upper ∧ lower = some (.mapping base) ∧
      found = Fields.overlay upper base := by
  by_cases hmeet : ∃ upper base, value = .mapping upper ∧ lower = some (.mapping base)
  · obtain ⟨upper, base, rfl, rfl⟩ := hmeet
    rw [overlay_mapping_mapping] at h
    exact .inr ⟨upper, base, rfl, rfl, (Value.mapping.inj h).symm⟩
  · have hself := overlay_eq_self fun upper base hvalue hlower =>
      hmeet ⟨upper, base, hvalue, hlower⟩
    exact .inl (hself.symm.trans h)

/-- Nothing is found further in where there is no mapping. -/
theorem Value.bind_at?_cons_eq_none (h : ∀ base, lower ≠ some (.mapping base)) :
    lower.bind (at? (key :: path)) = none := by
  cases lower with
  | none => rfl
  | some value =>
    cases value with
    | mapping base => exact absurd rfl (h base)
    | _ => rfl

namespace Fields

theorem overlay_cons (key : String) (value : Value) (rest base : Fields) :
    overlay ((key, value) :: rest) base
      = overlay rest (Keyed.put key (value.overlay (Keyed.get? key base)) base) := by
  rw [overlay]

/-- A key that is not laid over stays as it is. -/
theorem get?_overlay_of_none (h : Keyed.get? key upper = none) (base : Fields) :
    Keyed.get? key (overlay upper base) = Keyed.get? key base := by
  induction upper generalizing base with
  | nil => rw [overlay_nil]
  | cons e rest ih =>
    rw [Keyed.get?] at h
    split at h
    · cases h
    · rename_i hkey
      rw [overlay_cons, ih h, Keyed.get?_put_of_ne (Ne.symm hkey)]

/-- Under a key of the upper fields is their value, laid over what was there. -/
theorem get?_overlay_of_some (hkeys : (Keyed.keys upper).Nodup)
    (h : Keyed.get? key upper = some value) (base : Fields) :
    Keyed.get? key (overlay upper base) = some (value.overlay (Keyed.get? key base)) := by
  induction upper generalizing base with
  | nil => cases h
  | cons e rest ih =>
    obtain ⟨hfresh, hrest⟩ := List.nodup_cons.1 hkeys
    rw [Keyed.get?] at h
    rw [overlay_cons]
    split at h
    · -- the key is put now, and not again by the rest
      rename_i hkey
      obtain rfl := Option.some.inj h
      rw [← hkey, get?_overlay_of_none (Keyed.get?_eq_none_iff.2 hfresh), Keyed.get?_put_self]
    · rename_i hkey
      rw [ih hrest h, Keyed.get?_put_of_ne (Ne.symm hkey)]

theorem mem_keys_overlay :
    key ∈ Keyed.keys (overlay upper base) ↔ key ∈ Keyed.keys upper ∨ key ∈ Keyed.keys base := by
  induction upper generalizing base with
  | nil => simp [Keyed.keys]
  | cons e rest ih =>
    rw [overlay_cons, ih, Keyed.mem_keys_put, or_left_comm, ← or_assoc]
    exact or_congr_left List.mem_cons.symm

end Fields

/-- A mapping stays one, with its keys and those of the mapping that it meets. -/
theorem Value.exists_overlay_mapping (inner : Fields) (lower : Option Value) :
    ∃ found, (Value.mapping inner).overlay lower = .mapping found ∧
      ∀ key, key ∈ Keyed.keys found ↔
        key ∈ Keyed.keys inner ∨ ∃ base, lower = some (.mapping base) ∧ key ∈ Keyed.keys base := by
  by_cases hlower : ∃ base, lower = some (.mapping base)
  · obtain ⟨base, rfl⟩ := hlower
    exact ⟨_, overlay_mapping_mapping inner base, fun key => by simp [Fields.mem_keys_overlay]⟩
  · refine ⟨inner, overlay_eq_self fun _ base _ h => hlower ⟨base, h⟩, fun key => ⟨.inl, ?_⟩⟩
    rintro (hkey | ⟨base, hbase, -⟩)
    · exact hkey
    · exact absurd ⟨base, hbase⟩ hlower

/-! ### At a path -/

/-- What the upper value has at a path is laid over what was there. -/
theorem Value.at?_overlay_of_some (hvalue : value.Distinct) (h : value.at? path = some last) :
    (value.overlay lower).at? path = some (last.overlay (lower.bind (at? path))) := by
  induction path generalizing value lower with
  | nil =>
    obtain rfl := Option.some.inj (at?_nil.symm.trans h)
    cases lower <;> simp
  | cons key path ih =>
    cases value with
    | mapping fields =>
      by_cases hlower : ∃ base, lower = some (.mapping base)
      · obtain ⟨base, rfl⟩ := hlower
        obtain ⟨inner, hget, hinner⟩ := Option.bind_eq_some_iff.1 h
        have hdistinct := hvalue fields rfl
        rw [overlay_mapping_mapping, at?_mapping_cons,
          Fields.get?_overlay_of_some hdistinct.keys hget]
        exact ih (fun lower hinner => hdistinct.inner (hinner ▸ hget)) hinner
      · have hnone : ∀ base, lower ≠ some (.mapping base) := fun base h => hlower ⟨base, h⟩
        rw [overlay_eq_self fun _ base _ => hnone base, h, bind_at?_cons_eq_none hnone,
          overlay_none]
    | _ => cases h

/-- Where the upper value has nothing, and does not end before, is what was there. -/
theorem Value.at?_overlay_of_none (hvalue : value.Distinct) (h : value.at? path = none)
    (hends : ¬ value.EndsBefore path) :
    (value.overlay lower).at? path = lower.bind (at? path) := by
  induction path generalizing value lower with
  | nil => cases at?_nil.symm.trans h
  | cons key path ih =>
    cases value with
    | mapping fields =>
      by_cases hlower : ∃ base, lower = some (.mapping base)
      · obtain ⟨base, rfl⟩ := hlower
        have hdistinct := hvalue fields rfl
        rw [overlay_mapping_mapping, at?_mapping_cons]
        cases hget : Keyed.get? key fields with
        | none =>
          rw [Fields.get?_overlay_of_none hget]
          rfl
        | some inner =>
          rw [at?_mapping_cons, hget] at h
          rw [endsBefore_mapping_cons, hget] at hends
          rw [Fields.get?_overlay_of_some hdistinct.keys hget]
          exact ih (fun lower hinner => hdistinct.inner (hinner ▸ hget)) h
            fun hinner => hends ⟨inner, rfl, hinner⟩
      · have hnone : ∀ base, lower ≠ some (.mapping base) := fun base h => hlower ⟨base, h⟩
        rw [overlay_eq_self fun _ base _ => hnone base, h, bind_at?_cons_eq_none hnone]
    | _ => exact absurd (endsBefore_cons_of_not_isMapping rfl) hends

/-- What ends before a path does ends before it when it is laid over something. -/
theorem Value.EndsBefore.overlay (hvalue : value.Distinct) (h : value.EndsBefore path) :
    (value.overlay lower).EndsBefore path := by
  obtain ⟨front, hfront, hne, last, hlast, hmapping⟩ := h
  refine ⟨front, hfront, hne, last, ?_, hmapping⟩
  rw [at?_overlay_of_some hvalue hlast, overlay_of_not_isMapping hmapping]

/-! ### Once more -/

namespace Fields

/-- Fields that are there already, each laid over what is there without a change, change nothing. -/
theorem overlay_eq_base
    (h : ∀ key value, (key, value) ∈ upper →
      ∃ there, Keyed.get? key base = some there ∧ value.overlay (some there) = there) :
    overlay upper base = base := by
  induction upper with
  | nil => exact overlay_nil base
  | cons e rest ih =>
    obtain ⟨there, hget, hthere⟩ := h e.1 e.2 List.mem_cons_self
    rw [overlay_cons, hget, hthere, Keyed.put_of_get? hget]
    exact ih fun key value hmem => h key value (List.mem_cons_of_mem _ hmem)

end Fields

/-- A value that was laid over something is laid over that once more without a change. -/
theorem Value.overlay_overlay (hvalue : value.Distinct) (lower : Option Value) :
    value.overlay (some (value.overlay lower)) = value.overlay lower := by
  cases value with
  | mapping fields =>
    have hfields : Fields.Distinct fields := hvalue fields rfl
    clear hvalue
    induction hfields generalizing lower with
    | @intro fields keys inner ih =>
      -- each value of the fields is a mapping further in, or is kept as it is
      have hentry (key : String) (value : Value) (hmem : (key, value) ∈ fields)
          (lower : Option Value) :
          value.overlay (some (value.overlay lower)) = value.overlay lower := by
        cases value with
        | mapping lower => exact ih key lower hmem _
        | _ => rw [overlay_of_not_isMapping rfl, overlay_of_not_isMapping rfl]
      by_cases hlower : ∃ base, lower = some (.mapping base)
      · obtain ⟨base, rfl⟩ := hlower
        rw [overlay_mapping_mapping, overlay_mapping_mapping]
        congr 1
        refine Fields.overlay_eq_base fun key value hmem => ?_
        exact ⟨_, Fields.get?_overlay_of_some keys (Keyed.get?_of_mem keys hmem) base,
          hentry key value hmem _⟩
      · have hself : (mapping fields).overlay lower = mapping fields :=
          overlay_eq_self fun _ base _ h => hlower ⟨base, h⟩
        rw [hself, overlay_mapping_mapping]
        congr 1
        refine Fields.overlay_eq_base fun key value hmem => ⟨value, Keyed.get?_of_mem keys hmem, ?_⟩
        simpa only [overlay_none] using hentry key value hmem none
  | _ => rw [overlay_of_not_isMapping rfl, overlay_of_not_isMapping rfl]

namespace Fields

/-- Laying the same over it once more changes nothing. -/
theorem overlay_overlay (h : upper.Distinct) (base : Fields) :
    overlay upper (overlay upper base) = overlay upper base := by
  have hvalue : (Value.mapping upper).Distinct := by
    rintro _ ⟨⟩
    exact h
  have htwice := Value.overlay_overlay hvalue (some (.mapping base))
  rw [Value.overlay_mapping_mapping, Value.overlay_mapping_mapping] at htwice
  exact Value.mapping.inj htwice

theorem nodup_keys_overlay (h : (Keyed.keys base).Nodup) :
    (Keyed.keys (overlay upper base)).Nodup := by
  induction upper generalizing base with
  | nil => rwa [overlay_nil]
  | cons e rest ih =>
    rw [overlay_cons]
    exact ih (Keyed.nodup_keys_put h)

/-- No key stands twice in what is laid over one another. -/
theorem Distinct.overlay (hupper : upper.Distinct) (hbase : base.Distinct) :
    (Fields.overlay upper base).Distinct := by
  induction hupper generalizing base with
  | @intro upper keys inner ih =>
    have hkeys : (Keyed.keys (Fields.overlay upper base)).Nodup := nodup_keys_overlay hbase.keys
    refine .intro hkeys fun key lower hmem => ?_
    have hget := Keyed.get?_of_mem hkeys hmem
    cases hupper : Keyed.get? key upper with
    | none =>
      rw [get?_overlay_of_none hupper] at hget
      exact hbase.inner hget
    | some value =>
      rw [get?_overlay_of_some keys hupper] at hget
      have hentry := Keyed.mem_of_get? hupper
      -- a mapping of the overlay is one of the upper fields, or is laid over a lower one
      rcases Value.of_overlay_eq_mapping (Option.some.inj hget) with
        rfl | ⟨fields, under, rfl, hunder, rfl⟩
      · exact inner key lower hentry
      · exact ih key fields hentry (hbase.inner hunder)

/-- Laying settings over settings, path by path. A value of the upper settings that is no mapping is
found at its path. At the path of a mapping is a mapping that has its keys, and those of the lower
mapping if there is one. Where the upper settings end before the path, there is nothing; where they
have nothing otherwise, there is what the lower settings have. Laying the same over it once more
changes nothing, and no key stands twice if none did. -/
theorem overlay_by_path (h : upper.Distinct) (base : Fields) :
    (∀ path value, upper.at? path = some value → value.isMapping = false →
      (overlay upper base).at? path = some value) ∧
    (∀ path inner, upper.at? path = some (.mapping inner) →
      ∃ found, (overlay upper base).at? path = some (.mapping found) ∧
        ∀ key, key ∈ Keyed.keys found ↔ key ∈ Keyed.keys inner ∨
          ∃ lower, base.at? path = some (.mapping lower) ∧ key ∈ Keyed.keys lower) ∧
    (∀ path, (Value.mapping upper).EndsBefore path →
      upper.at? path = none ∧ (overlay upper base).at? path = none) ∧
    (∀ path, upper.at? path = none → ¬ (Value.mapping upper).EndsBefore path →
      (overlay upper base).at? path = base.at? path) ∧
    overlay upper (overlay upper base) = overlay upper base ∧
    (base.Distinct → (overlay upper base).Distinct) := by
  have hvalue : (Value.mapping upper).Distinct := by
    rintro _ ⟨⟩
    exact h
  have hoverlay := (Value.overlay_mapping_mapping upper base).symm
  refine ⟨fun path value hat hmapping => ?_, fun path inner hat => ?_, fun path hends => ⟨?_, ?_⟩,
    fun path hat hends => ?_, overlay_overlay h base, h.overlay⟩
  · rw [at?, hoverlay, Value.at?_overlay_of_some hvalue hat,
      Value.overlay_of_not_isMapping hmapping]
  · rw [at?, hoverlay, Value.at?_overlay_of_some hvalue hat]
    obtain ⟨found, hfound, hkeys⟩ :=
      Value.exists_overlay_mapping inner ((some (Value.mapping base)).bind (Value.at? path))
    exact ⟨found, congrArg some hfound, hkeys⟩
  · exact hends.at?_eq_none
  · rw [at?, hoverlay, (hends.overlay hvalue).at?_eq_none]
  · rw [at?, hoverlay, Value.at?_overlay_of_none hvalue hat hends]
    rfl

/-- A part of a mapping is replaced, a mapping that is empty replaces a text, and what is null ends
the path behind it. -/
theorem overlay_by_path_of_defaults :
    ∃ upper : Fields, upper = [("plot", .mapping [("width", .int 100), ("format", .null)]),
        ("log_level", .mapping [])] ∧ upper.Distinct ∧
      (overlay upper Settings.defaults).at? ["plot", "width"] = some (.int 100) ∧
      (∃ found, (overlay upper Settings.defaults).at? ["log_level"] = some (.mapping found) ∧
        Keyed.keys found = []) ∧
      (overlay upper Settings.defaults).at? ["plot", "format", "name"] = none ∧
      (overlay upper Settings.defaults).at? ["plot", "height"] = some (.int 500) ∧
      overlay upper (overlay upper Settings.defaults) = overlay upper Settings.defaults := by
  have hdistinct : Fields.Distinct [("plot", .mapping [("width", .int 100), ("format", .null)]),
      ("log_level", .mapping [])] := by
    refine .intro (by decide) fun key lower hmem => ?_
    simp only [List.mem_cons, Prod.mk.injEq, Value.mapping.injEq, List.not_mem_nil, or_false]
      at hmem
    rcases hmem with ⟨-, rfl⟩ | ⟨-, rfl⟩
    · exact .intro (by decide) (by simp)
    · exact .intro (by decide) (by simp)
  obtain ⟨hvalue, hmapping, hends, hbase, htwice, -⟩ := overlay_by_path hdistinct Settings.defaults
  refine ⟨_, rfl, hdistinct, hvalue _ _ rfl rfl, ?_, (hends _ ?_).2, ?_, htwice⟩
  · obtain ⟨found, hfound, hkeys⟩ := hmapping ["log_level"] [] rfl
    refine ⟨found, hfound, List.eq_nil_iff_forall_not_mem.2 fun key hkey => ?_⟩
    rcases (hkeys key).1 hkey with hkey | ⟨lower, hlower, -⟩
    · cases hkey
    · cases hlower
  · exact ⟨["plot", "format"], by decide, by decide, .null, rfl, rfl⟩
  · refine (hbase ["plot", "height"] rfl ?_).trans rfl
    rw [Value.endsBefore_mapping_cons]
    rintro ⟨inner, hinner, hends⟩
    obtain rfl := Option.some.inj hinner
    obtain ⟨last, hlast, -⟩ := Value.endsBefore_mapping_cons.1 hends
    cases hlast

end Fields

end Overlay

end DiceLaw
