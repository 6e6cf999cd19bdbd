import DiceLaw.Settings.Path
import DiceLaw.Settings.Value

/-!
# The store of settings

Settings are the defaults with a file laid over them. The file is named by a variable, or is the
local settings file if there is one. Settings that were found are kept until they are dropped; a
failure is not kept.

## Main definitions

* `SettingsError`, `SettingsError.message?`: why settings cannot be had, and what is said about it
* `Settings.defaults`: the settings without a file
* `Store`: files, variable and kept settings
* `Store.find`, `Store.target`: the file at a path, and where one is written
* `Store.load`, `Store.chosen?`, `Store.get`: the settings of a path, and those in force
* `Store.Action`, `Store.perform`: what can be done with a store

## Main results

* `Store.get_of_kept`: kept settings are given back
* `Store.get_of_load`: settings that were found are kept
* `Store.get_of_failure`: after a failure the store is as before
* `Store.find_of_missing`, `Store.perform_remove_of_error`: a file that is not there is not found,
  and what is not found is not removed
-/

namespace DiceLaw

/-- The causes for which settings cannot be had, or a file cannot be changed. -/
inductive SettingsError where
  /-- There is no file at a path. -/
  | noFile (path : String)
  /-- A path leads to a folder. -/
  | isFolder (path : String)
  /-- A path goes on after a file as if that were a folder. -/
  | notFolder (path : String)
  /-- A path, or a name in it, is too long. -/
  | tooLong (path : String)
  /-- A text cannot be a path. -/
  | noPath (text : String)
  /-- A file holds something other than a mapping. -/
  | notMapping (path : String)
  deriving DecidableEq, Repr

/-- What is said about a cause. All but one are noticed where files are opened and removed, and
nothing is said about them here. -/
def SettingsError.message? : SettingsError → Option String
  | .notMapping path => some (path ++ " does not contain a mapping")
  | .noFile _ | .isFolder _ | .notFolder _ | .tooLong _ | .noPath _ => none

/-- The settings without a file. -/
def Settings.defaults : Fields :=
  [("explode_max_iterations", .int 2), ("log_level", .text "warning"),
    ("plot", .mapping [("width", .int 800), ("height", .int 500), ("format", .text "png")])]

/-- The path of the local settings file. -/
def Settings.localPath : String := "settings.yaml"

/-- The files under the keys of their paths, the path that the variable holds, and the settings that
are kept. -/
structure Store where
  files : Keyed Value
  variablePath : Option String
  kept : Option Fields
  deriving Inhabited

namespace Store

/-- No file, no variable, nothing kept. -/
def initial : Store := ⟨[], none, none⟩

/-- The file at a path: the key under which it is kept, and what it holds. A name is looked up
before what comes after it. -/
def find (s : Store) (path : String) : Except SettingsError (String × Value) :=
  match Path.place path with
  | .folder => .error (.isFolder path)
  | .nowhere => .error (.noFile path)
  | .tooFar => .error (.tooLong path)
  | .noPath => .error (.noPath path)
  | .named above name ending =>
    if Path.longestName < Path.bytes name.toList then .error (.tooLong path)
    else
      match Keyed.get? (Path.key above name) s.files with
      | none => .error (.noFile path)
      | some value =>
        if ending = .plain then .ok (Path.key above name, value) else .error (.notFolder path)

/-- The key under which a file is kept that is written to a path. The file need not be there, and a
path that ends in a slash is taken for a folder whether or not there is one. -/
def target (s : Store) (path : String) : Except SettingsError String :=
  match Path.place path with
  | .named above name .plain =>
    if Path.longestName < Path.bytes name.toList then .error (.tooLong path)
    else .ok (Path.key above name)
  | .named _ _ .slash => .error (.isFolder path)
  | _ => (s.find path).map (·.1)

/-- What a file lays over the defaults. A file that says nothing lays nothing over them. -/
def content (path : String) (value : Value) : Except SettingsError Fields :=
  if value.isVoid then .ok []
  else
    match value with
    | .mapping fields => .ok fields
    | _ => .error (.notMapping path)

/-- The defaults with the file at a path laid over them, if a path is given. -/
def load (s : Store) : Option String → Except SettingsError Fields
  | none => .ok Settings.defaults
  | some path =>
    match s.find path with
    | .error e => .error e
    | .ok (_, value) =>
      match content path value with
      | .error e => .error e
      | .ok fields => .ok (Fields.overlay fields Settings.defaults)

/-- The path of the settings: that of the variable, else that of the local file if it exists. -/
def chosen? (s : Store) : Option String :=
  match s.variablePath with
  | some path => some path
  | none => if (Keyed.get? Settings.localPath s.files).isSome then some Settings.localPath else none

/-- The settings that are kept; else those that are found, which are kept from then on. -/
def get (s : Store) : Except SettingsError Fields × Store :=
  match s.kept with
  | some fields => (.ok fields, s)
  | none =>
    match s.load s.chosen? with
    | .error e => (.error e, s)
    | .ok fields => (.ok fields, { s with kept := some fields })

/-! ## Actions -/

/-- What can be done with a store. -/
inductive Action where
  | write (path : String) (value : Value)
  | remove (path : String)
  | setVariable (path : Option String)
  | reset
  | load (path : Option String)
  | get
  /-- A value is put at a key of the settings, not at a path into them: to change what is nested,
  the whole mapping is put. -/
  | put (key : String) (value : Value)
  | merge (base overrides : Fields)

/-- The settings that an action answers with, if any, and the store after it. -/
def perform (s : Store) : Action → Except SettingsError (Option Fields) × Store
  | .write path value =>
    match s.target path with
    | .error e => (.error e, s)
    | .ok key => (.ok none, { s with files := Keyed.put key value s.files })
  | .remove path =>
    match s.find path with
    | .error e => (.error e, s)
    | .ok (key, _) => (.ok none, { s with files := Keyed.erase key s.files })
  | .setVariable none => (.ok none, { s with variablePath := none })
  | .setVariable (some path) =>
    if Path.place path = .noPath then (.error (.noPath path), s)
    else (.ok none, { s with variablePath := some path })
  | .reset => (.ok none, { s with kept := none })
  | .load path => ((s.load path).map some, s)
  | .get => let (answer, s) := s.get; (answer.map some, s)
  | .put key value =>
    match s.get with
    | (.error e, s) => (.error e, s)
    | (.ok fields, s) =>
      let fields := Keyed.put key value fields
      (.ok (some fields), { s with kept := some fields })
  | .merge base overrides => (.ok (some (Fields.overlay overrides base)), s)

/-! ## Lemmas -/

theorem find_of_missing {s : Store} {path name : String} {above : Nat} {ending : Ending}
    (hplace : Path.place path = .named above name ending)
    (hlong : Path.bytes name.toList ≤ Path.longestName)
    (h : Keyed.get? (Path.key above name) s.files = none) :
    s.find path = .error (.noFile path) := by
  have hlong : ¬ Path.longestName < Path.bytes name.toList := Nat.not_lt.mpr hlong
  simp [find, hplace, hlong, h]

theorem perform_remove_of_error {s : Store} {path : String} {e : SettingsError}
    (h : s.find path = .error e) : s.perform (.remove path) = (.error e, s) := by
  simp [perform, h]

theorem get_of_kept {s : Store} {fields : Fields} (h : s.kept = some fields) :
    s.get = (.ok fields, s) := by
  simp [get, h]

theorem get_of_load {s : Store} {fields : Fields} (hkept : s.kept = none)
    (h : s.load s.chosen? = .ok fields) :
    s.get = (.ok fields, { s with kept := some fields }) := by
  simp [get, hkept, h]

theorem get_of_failure {s : Store} {e : SettingsError} (hkept : s.kept = none)
    (h : s.load s.chosen? = .error e) : s.get = (.error e, s) := by
  simp [get, hkept, h]

end Store

/-- A computation that may look at the settings; what it keeps stays kept when it fails. -/
abbrev WithSettings (ε α : Type) := ExceptT ε (StateM Store) α

/-- The settings, with a failure as a cause of its own. -/
def WithSettings.get {ε : Type} (cause : SettingsError → ε) : WithSettings ε Fields :=
  fun s =>
    match s.get with
    | (.error e, s) => (.error (cause e), s)
    | (.ok fields, s) => (.ok fields, s)

end DiceLaw
