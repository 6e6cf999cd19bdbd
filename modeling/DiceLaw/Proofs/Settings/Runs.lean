import DiceLaw.Settings.Store

/-!
# Runs of a store

A run is a row of actions, each on the store that the one before leaves. The files and the variable
are outside of what is kept: they change by writing, removing and setting the variable alone, and
they alone decide what loading answers. What is kept starts with the first action that finds
settings, and changes by puts alone until it is dropped.

## Main definitions

* `Store.after`: the store after a run
* `Store.forget`: the store with nothing kept
* `Store.Action.isOutside`, `Store.Action.looksUp`: actions on files and variable, and actions that
  need the settings in force
* `Store.Action.assign`, `Store.assigned`: what puts make of settings

## Main results

* `Store.perform_of_found`, `Store.perform_of_failure`: actions that need settings
* `Store.forget_perform_of_outside`, `Store.forget_perform_of_inside`, `Store.kept_perform`: what
  one action does outside, and to what is kept
* `Store.forget_after`, `Store.kept_after`, `Store.kept_after_of_failures`: what a run does
* `Store.settings_through_runs`: the settings in force at any moment
-/

namespace DiceLaw

namespace Store

variable {s : Store} {a : Action} {run : List Action} {fields : Fields} {e : SettingsError}

/-! ## Runs -/

/-- The store after a run of actions. -/
def after (s : Store) (run : List Action) : Store := run.foldl (fun s a => (s.perform a).2) s

@[simp] theorem after_nil (s : Store) : s.after [] = s := rfl

@[simp] theorem after_cons (s : Store) (a : Action) (run : List Action) :
    s.after (a :: run) = (s.perform a).2.after run := rfl

@[simp] theorem after_append (s : Store) (run more : List Action) :
    s.after (run ++ more) = (s.after run).after more := List.foldl_append

/-- The store with nothing kept. -/
def forget (s : Store) : Store := { s with kept := none }

namespace Action

/-- Actions on the files and on the variable. -/
def isOutside : Action → Bool
  | .write _ _ | .remove _ | .setVariable _ => true
  | _ => false

/-- Actions that need the settings in force. -/
def looksUp : Action → Bool
  | .get | .put _ _ => true
  | _ => false

/-- What an action makes of the settings that are kept. -/
def assign : Action → Fields → Fields
  | .put key value, fields => Keyed.put key value fields
  | _, fields => fields

end Action

/-- What the puts of a run make of settings. -/
def assigned (run : List Action) (fields : Fields) : Fields :=
  run.foldl (fun fields a => a.assign fields) fields

/-! ## Actions that need settings -/

/-- Settings are found, and kept; or they are not, which leaves everything as it was. -/
theorem get_cases (s : Store) :
    (∃ fields, s.get = (.ok fields, { s with kept := some fields })) ∨
      s.kept = none ∧ ∃ e, s.get = (.error e, s) := by
  cases hkept : s.kept with
  | some fields =>
    refine .inl ⟨fields, ?_⟩
    rw [get_of_kept hkept, ← hkept]
  | none =>
    cases hload : s.load s.chosen? with
    | error e => exact .inr ⟨rfl, e, get_of_failure hkept hload⟩
    | ok fields => exact .inl ⟨fields, get_of_load hkept hload⟩

theorem get_eq_of_ok (h : s.get.1 = .ok fields) :
    s.get = (.ok fields, { s with kept := some fields }) := by
  rcases s.get_cases with ⟨found, hget⟩ | ⟨-, e, hget⟩
  · rw [hget] at h
    obtain rfl := Except.ok.inj h
    exact hget
  · rw [hget] at h
    cases h

theorem get_eq_of_error (h : s.get.1 = .error e) : s.kept = none ∧ s.get = (.error e, s) := by
  rcases s.get_cases with ⟨found, hget⟩ | ⟨hkept, e, hget⟩
  · rw [hget] at h
    cases h
  · rw [hget] at h
    obtain rfl := Except.error.inj h
    exact ⟨hkept, hget⟩

/-- If there are settings, the action answers with what it makes of them, and this is kept. -/
theorem perform_of_found (ha : a.looksUp) (h : s.get.1 = .ok fields) :
    s.perform a = (.ok (some (a.assign fields)), { s with kept := some (a.assign fields) }) := by
  cases a with
  | get => simp [perform, get_eq_of_ok h, Action.assign, Except.map]
  | put key value => simp [perform, get_eq_of_ok h, Action.assign]
  | _ => cases ha

/-- If there are none, the action fails, and leaves the store as it was, with nothing kept. -/
theorem perform_of_failure (ha : a.looksUp) (h : s.get.1 = .error e) :
    s.perform a = (.error e, s) := by
  obtain ⟨-, hget⟩ := get_eq_of_error h
  cases a with
  | get => simp [perform, hget, Except.map]
  | put key value => simp [perform, hget]
  | _ => cases ha

theorem get_of_perform_error (ha : a.looksUp) (h : (s.perform a).1 = .error e) :
    s.get.1 = .error e := by
  cases hget : s.get.1 with
  | error e' =>
    rw [perform_of_failure ha hget] at h
    exact congrArg _ (Except.error.inj h)
  | ok fields =>
    rw [perform_of_found ha hget] at h
    cases h

/-! ## Outside and inside -/

/-- An action outside neither looks at what is kept nor changes it. -/
theorem perform_with_kept (ha : a.isOutside) (s : Store) (kept : Option Fields) :
    { s with kept := kept }.perform a
      = ((s.perform a).1, { (s.perform a).2 with kept := kept }) := by
  have hfind (path : String) : { s with kept := kept }.find path = s.find path := rfl
  have htarget (path : String) : { s with kept := kept }.target path = s.target path := rfl
  cases a with
  | write path value =>
    rw [perform, perform, htarget]
    cases s.target path <;> rfl
  | remove path =>
    rw [perform, perform, hfind]
    cases s.find path <;> rfl
  | setVariable path =>
    cases path with
    | none => rfl
    | some path =>
      rw [perform, perform]
      split <;> rfl
  | _ => cases ha

theorem forget_perform_of_outside (ha : a.isOutside) :
    (s.perform a).2.forget = (s.forget.perform a).2 :=
  (congrArg Prod.snd (perform_with_kept ha s none)).symm

/-- Any other action leaves files and variable alone. -/
theorem forget_perform_of_inside (ha : a.isOutside = false) :
    (s.perform a).2.forget = s.forget := by
  -- an action that needs settings changes what is kept or nothing
  have hlookup (ha : a.looksUp) : (s.perform a).2.forget = s.forget := by
    cases hget : s.get.1 with
    | error e => rw [perform_of_failure ha hget]
    | ok fields => rw [perform_of_found ha hget, forget, forget]
  cases a with
  | get => exact hlookup rfl
  | put key value => exact hlookup rfl
  | reset => rfl
  | load path => rfl
  | merge base overrides => rfl
  | _ => cases ha

theorem kept_perform_of_outside (ha : a.isOutside) : (s.perform a).2.kept = s.kept :=
  congrArg (fun p => p.2.kept) (perform_with_kept ha s s.kept)

/-- What is kept becomes what the action makes of it, unless it is dropped. -/
theorem kept_perform (h : s.kept = some fields) (ha : a ≠ .reset) :
    (s.perform a).2.kept = some (a.assign fields) := by
  have hget : s.get.1 = .ok fields := congrArg Prod.fst (get_of_kept h)
  cases a with
  | get => rw [perform_of_found rfl hget]
  | put key value => rw [perform_of_found rfl hget]
  | reset => exact absurd rfl ha
  | load path => exact h
  | merge base overrides => exact h
  | _ => exact (kept_perform_of_outside rfl).trans h

/-- Nothing is kept after an action that needs settings in vain, nor after one that needs none. -/
theorem kept_perform_of_missing (h : s.kept = none)
    (ha : a.looksUp → ∃ e, (s.perform a).1 = .error e) : (s.perform a).2.kept = none := by
  have hlookup (hlooks : a.looksUp) : (s.perform a).2.kept = none := by
    obtain ⟨e, he⟩ := ha hlooks
    rw [perform_of_failure hlooks (get_of_perform_error hlooks he)]
    exact h
  cases a with
  | get => exact hlookup rfl
  | put key value => exact hlookup rfl
  | reset => rfl
  | load path => exact h
  | merge base overrides => exact h
  | _ => exact (kept_perform_of_outside rfl).trans h

/-! ## What a run does -/

/-- Files and variable after a run are those after its actions outside. -/
theorem forget_after (s : Store) (run : List Action) :
    (s.after run).forget = s.forget.after (run.filter Action.isOutside) := by
  induction run generalizing s with
  | nil => rfl
  | cons a rest ih =>
    -- the rest starts at the store after the first action, so the induction is on all stores
    rw [after_cons, ih, List.filter_cons]
    split
    · rw [after_cons, forget_perform_of_outside ‹_›]
    · rw [forget_perform_of_inside (Bool.eq_false_iff.2 ‹_›)]

/-- What is kept becomes what the puts of a run make of it. -/
theorem kept_after (h : s.kept = some fields) (hreset : .reset ∉ run) :
    (s.after run).kept = some (assigned run fields) := by
  induction run generalizing s fields with
  | nil => exact h
  | cons a rest ih =>
    obtain ⟨ha, hrest⟩ := not_or.1 (mt List.mem_cons.2 hreset)
    exact ih (kept_perform h (Ne.symm ha)) hrest

/-- Nothing is kept as long as settings are needed in vain. -/
theorem kept_after_of_failures (h : s.kept = none)
    (hfail : ∀ pre a post, run = pre ++ a :: post → a.looksUp →
      ∃ e, ((s.after pre).perform a).1 = .error e) : (s.after run).kept = none := by
  induction run generalizing s with
  | nil => exact h
  | cons a rest ih =>
    refine ih (kept_perform_of_missing h (hfail [] a rest rfl)) fun pre b post hsplit => ?_
    exact hfail (a :: pre) b post (congrArg (a :: ·) hsplit)

/-! ## The settings in force -/

theorem isSome_localPath (s : Store) :
    (Keyed.get? Settings.localPath s.files).isSome = (s.find Settings.localPath).isOk := by
  have hplace : Path.place Settings.localPath = .named 0 Settings.localPath .plain := by decide
  have hlong : ¬ Path.longestName < Path.bytes Settings.localPath.toList := by decide
  rw [find, hplace]
  simp only [if_neg hlong, Path.key]
  cases Keyed.get? Settings.localPath s.files <;> rfl

/-- If nothing is kept, the settings in force are those of the path that the variable holds, else
those of the local file if there is one, else the defaults. -/
theorem get_of_missing (h : s.kept = none) :
    (∀ path, s.variablePath = some path → s.get.1 = s.load (some path)) ∧
    (∀ found, s.variablePath = none → s.find Settings.localPath = .ok found →
      s.get.1 = s.load (some Settings.localPath)) ∧
    ∀ e, s.variablePath = none → s.find Settings.localPath = .error e →
      s.get.1 = .ok Settings.defaults := by
  have hget : s.get.1 = s.load s.chosen? := by
    cases hload : s.load s.chosen? with
    | error e => rw [get_of_failure h hload]
    | ok fields => rw [get_of_load h hload]
  rw [hget]
  refine ⟨fun path hpath => ?_, fun found hnone hfind => ?_, fun e hnone hfind => ?_⟩
  · rw [chosen?, hpath]
  · rw [chosen?, hnone, isSome_localPath, hfind]
    rfl
  · rw [chosen?, hnone, isSome_localPath, hfind]
    rfl

/-- At the start and after a reset, as long as settings are needed in vain, the settings in force
are those that the variable and the files tell at that moment. An action that finds settings keeps
them, and from then on until the next reset the settings in force are those with all puts since
laid over them. An action that needs settings in vain leaves the store as it was, with nothing kept.
Files and variable after a run, and so all that loading answers, come from the actions outside
alone. -/
theorem settings_through_runs :
    (∀ before between : List Action, before = [] ∨ (∃ earlier, before = earlier ++ [.reset]) →
      (∀ pre a post, between = pre ++ a :: post → a.looksUp →
        ∃ e, ((initial.after (before ++ pre)).perform a).1 = .error e) →
      ∀ s, s = initial.after (before ++ between) →
        (∀ path, s.variablePath = some path → s.get.1 = s.load (some path)) ∧
        (∀ found, s.variablePath = none → s.find Settings.localPath = .ok found →
          s.get.1 = s.load (some Settings.localPath)) ∧
        ∀ e, s.variablePath = none → s.find Settings.localPath = .error e →
          s.get.1 = .ok Settings.defaults) ∧
    (∀ (s : Store) (a : Action) (fields : Fields), a.looksUp → s.get.1 = .ok fields →
      (s.perform a).1 = .ok (some (a.assign fields)) ∧
      ∀ during, .reset ∉ during →
        (s.after (a :: during)).get.1 = .ok (assigned (a :: during) fields)) ∧
    (∀ (s : Store) (a : Action) (e : SettingsError), a.looksUp → (s.perform a).1 = .error e →
      s.kept = none ∧ (s.perform a).2 = s) ∧
    ∀ (s : Store) (run : List Action),
      (s.after run).forget = s.forget.after (run.filter Action.isOutside) ∧
      ∀ path, ((s.after run).perform (.load path)).1
        = ((s.forget.after (run.filter Action.isOutside)).perform (.load path)).1 := by
  refine ⟨fun before between hbefore hfail s hs => ?_, fun s a fields ha h => ⟨?_, ?_⟩,
    fun s a e ha h => ?_, fun s run => ⟨forget_after s run, fun path => ?_⟩⟩
  · have hstart : (initial.after before).kept = none := by
      rcases hbefore with rfl | ⟨earlier, rfl⟩
      · rfl
      · rw [after_append]
        rfl
    rw [hs, after_append]
    refine get_of_missing (kept_after_of_failures hstart fun pre a post hsplit ha => ?_)
    rw [← after_append]
    exact hfail pre a post hsplit ha
  · rw [perform_of_found ha h]
  · intro during hreset
    have hkept : (s.perform a).2.kept = some (a.assign fields) := by
      rw [perform_of_found ha h]
    exact congrArg Prod.fst (get_of_kept (kept_after hkept hreset))
  · have hget := get_of_perform_error ha h
    exact ⟨(get_eq_of_error hget).1, by rw [perform_of_failure ha hget]⟩
  · rw [← forget_after]
    rfl

/-- As long as the variable names a file that is not there, settings are needed in vain. Without the
variable the local file is found, and what is found stays when file and variable change. -/
theorem settings_through_runs_of_local_file :
    ∃ missing found : Store,
      missing = initial.after [.get, .reset, .setVariable (some "a.yaml")] ∧
      found = missing.after [.get, .setVariable none,
        .write "settings.yaml" (.mapping [("plot", .null)])] ∧
      (missing.kept = none ∧ (missing.perform .get).2 = missing) ∧
      found.get.1 = found.load (some "settings.yaml") ∧
      (found.after [.get, .put "log_level" (.text "info"), .remove "settings.yaml",
          .setVariable (some "a.yaml"), .load none, .merge [] []]).get.1
        = .ok [("explode_max_iterations", .int 2), ("log_level", .text "info"), ("plot", .null)] ∧
      ((found.after [.put "log_level" (.text "info")]).perform (.load none)).1
        = .ok (some Settings.defaults) := by
  obtain ⟨hsearch, hkeep, hfail, hload⟩ := settings_through_runs
  refine ⟨_, _, rfl, rfl, hfail _ .get _ rfl rfl, ?_, ?_, ?_⟩
  · refine (hsearch [.get, .reset] [.setVariable (some "a.yaml"), .get, .setVariable none,
      .write "settings.yaml" (.mapping [("plot", .null)])] (.inr ⟨[.get], rfl⟩)
      (fun pre a post hsplit ha => ?_) _ rfl).2.1 _ rfl rfl
    rcases pre with _ | ⟨_, _ | ⟨_, _ | ⟨_, _ | ⟨_, pre⟩⟩⟩⟩
    · cases hsplit
      cases ha
    · cases hsplit
      exact ⟨_, rfl⟩
    · cases hsplit
      cases ha
    · cases hsplit
      cases ha
    · simp at hsplit
  · exact ((hkeep _ .get _ rfl rfl).2 _ (by simp)).trans rfl
  · exact (hload _ _).2 none

end Store

end DiceLaw
