/-!
# Paths

Files lie in one folder and are found by paths. A path is a row of segments with slashes between
them; one dot is the folder reached so far, two dots are the folder above it. Every name in a path
is that of a file, never that of a folder, so the first name of a path decides where the path
leads, and anything after that name leads no further.

## Main definitions

* `Place`, `Ending`: what a path leads to, and how it goes on after the first name in it
* `Path.segments`: the segments of a path
* `Path.place`: the place that a path leads to
* `Path.key`: one text for all paths that lead to one file

## Main results

* `Path.place_of_plain`: a name without slashes leads to the file of that name
-/

namespace DiceLaw

/-- How a path goes on after the first name in it. -/
inductive Ending where
  /-- The name is the end. -/
  | plain
  /-- Only slashes follow, so the name should be that of a folder. -/
  | slash
  /-- There are further segments, so the name should be that of a folder that holds something. -/
  | further
  deriving DecidableEq, Repr

/-- What a path leads to. -/
inductive Place where
  /-- The folder of the files, or one above it. -/
  | folder
  /-- What has a name, in the folder that lies so many steps above that of the files. -/
  | named (above : Nat) (name : String) (ending : Ending)
  /-- Nothing. -/
  | nowhere
  /-- The path is too long to be followed. -/
  | tooFar
  /-- The text is no path. -/
  | noPath
  deriving DecidableEq, Repr

namespace Path

/-- The most bytes that a name has. -/
def longestName : Nat := 255

/-- The most bytes that a path has. -/
def longestPath : Nat := 4095

/-- The number of bytes that characters take. -/
def bytes : List Char → Nat
  | [] => 0
  | c :: rest => c.utf8Size + bytes rest

/-- What stands between the slashes. -/
def segments : List Char → List (List Char)
  | [] => [[]]
  | c :: rest =>
    if c = '/' then [] :: segments rest
    else
      match segments rest with
      | [] => [[c]]
      | first :: others => (c :: first) :: others

/-- How a path ends that has these segments after a name. -/
def endingOf (rest : List (List Char)) : Ending :=
  if rest = [] then .plain else if rest.all List.isEmpty then .slash else .further

/-- The place that segments lead to from a folder that lies so many steps above that of the
files. -/
def placeFrom (above : Nat) : List (List Char) → Place
  | [] => .folder
  | segment :: rest =>
    if segment = [] ∨ segment = ['.'] then placeFrom above rest
    else if segment = ['.', '.'] then placeFrom (above + 1) rest
    else .named above (String.ofList segment) (endingOf rest)

/-- The place that a path leads to. An empty path leads nowhere. A path that starts with a slash
starts at a folder in which no file is known. -/
def place (path : String) : Place :=
  if '\x00' ∈ path.toList then .noPath
  else if longestPath < bytes path.toList then .tooFar
  else
    match segments path.toList with
    | [[]] => .nowhere
    | [] :: rest => if placeFrom 0 rest = .folder then .folder else .nowhere
    | segments => placeFrom 0 segments

/-- The text under which a file is kept: its name, after as many double dots as lead to its
folder. -/
def key : Nat → String → String
  | 0, name => name
  | above + 1, name => "../" ++ key above name

theorem segments_of_plain {cs : List Char} (h : '/' ∉ cs) : segments cs = [cs] := by
  induction cs with
  | nil => rfl
  | cons c rest ih =>
    have hc : c ≠ '/' := fun hc => h (by simp [hc])
    have hrest : '/' ∉ rest := fun hr => h (by simp [hr])
    simp [segments, hc, ih hrest]

/-- A name without slashes leads to the file of that name. -/
theorem place_of_plain {name : String} (hnul : '\x00' ∉ name.toList)
    (hlong : bytes name.toList ≤ longestPath) (hslash : '/' ∉ name.toList)
    (hempty : name.toList ≠ []) (hdot : name.toList ≠ ['.']) (hdots : name.toList ≠ ['.', '.']) :
    place name = .named 0 name .plain := by
  unfold place
  rw [if_neg hnul, if_neg (Nat.not_lt.mpr hlong), segments_of_plain hslash]
  split
  · rename_i heq
    exact absurd (List.cons.inj heq).1 hempty
  · rename_i heq
    exact absurd (List.cons.inj heq).1 hempty
  · simp [placeFrom, endingOf, hempty, hdot, hdots]

end Path

end DiceLaw
