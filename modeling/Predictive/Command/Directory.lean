import Predictive.Command.Basic

/-!
# Directories

The files that are given along with a command, in place of those of the system, and how the path of
a file leads to its text. A path is a list of names between slashes, followed
from the working directory or, if it begins with a slash, from the root. Every name but the
last has to lead to a directory, and a slash at the end asks for one too; only a file has a
text. Of the world outside the working directory nothing is known but the customary
directories below the root, and the file that is always empty.

## Main definitions

* `Directory` — the files below the working directory
* `Directory.read` — the text of the file that a path leads to

## Main results

* `pathNames_of_no_slash`, `eq_of_pathNames` — a path without a slash is one name
-/

namespace Predictive

/-- The names of a path: what stands between its slashes, be it empty. -/
def pathNames : List Char → List (List Char)
  | [] => [[]]
  | c :: rest =>
    match pathNames rest with
    | name :: others => if c = '/' then [] :: name :: others else (c :: name) :: others
    | [] => [[]]

/-- A path without a slash is one name. -/
theorem pathNames_of_no_slash {name : List Char} (plain : '/' ∉ name) :
    pathNames name = [name] := by
  induction name with
  | nil => rfl
  | cons c rest ih =>
    have here : c ≠ '/' := fun equal => plain (equal ▸ List.mem_cons_self)
    have later : '/' ∉ rest := fun member => plain (List.mem_cons_of_mem c member)
    simp [pathNames, ih later, here]

/-- A path of one name is that name. -/
theorem eq_of_pathNames {path name : List Char} (single : pathNames path = [name]) :
    path = name := by
  have long : ∀ path, pathNames path ≠ [] := by
    intro path
    cases path with
    | nil => simp [pathNames]
    | cons c rest =>
      unfold pathNames
      split
      · split <;> simp
      · simp
  induction path generalizing name with
  | nil => simpa [pathNames] using single
  | cons c rest ih =>
    unfold pathNames at single
    split at single
    · next first others names =>
      split at single
      · simp at single
      · obtain ⟨rfl, rfl⟩ := List.cons.inj single
        rw [ih names]
    · next none => exact absurd none (long rest)

/-- A place that a path can lead to. The names on the way to a directory come innermost
first. -/
inductive Place where
  /-- A directory below the working directory. -/
  | inside (way : List String)
  /-- A directory below the root. -/
  | outside (way : List String)
  /-- A file with its text. -/
  | file (text : String)

/-- The files below the working directory. -/
structure Directory where
  /-- The path of each file, and its text. -/
  files : List (String × String)

namespace Directory

/-- The number of bytes that a name may have. -/
def nameLimit : Nat := 255

/-- The number of bytes that a path has to stay below. -/
def pathLimit : Nat := 4096

/-- The files below the root: there is one that is always empty. -/
def outsideFiles : List (List String × String) := [(["dev", "null"], "")]

/-- The customary directories below the root. -/
def outsideFolders : List (List String) :=
  [["bin"], ["dev"], ["etc"], ["home"], ["lib"], ["opt"], ["proc"], ["run"], ["sbin"], ["srv"],
   ["sys"], ["tmp"], ["usr"], ["var"]]

/-- The files below the working directory, by the names of their paths. -/
def insideFiles (directory : Directory) : List (List String × String) :=
  directory.files.map fun (path, text) => ((pathNames path.toList).map String.ofList, text)

/-- What a way leads to among files and directories: a directory if it is the front of the way
to another place. -/
def find (files : List (List String × String)) (folders : List (List String))
    (folder : List String → Place) (way : List String) : Except ReadError Place :=
  match files.lookup way.reverse with
  | some text => .ok (.file text)
  | none =>
    if (files.map Prod.fst ++ folders).any way.reverse.isPrefixOf then .ok (folder way)
    else .error .missing

/-- Follow one name. A name that is empty or a dot stays, two dots go back. -/
def enter (directory : Directory) (place : Place) (name : String) : Except ReadError Place :=
  match place with
  | .file _ => .error .notDirectory
  | .inside way =>
    if name = "" ∨ name = "." then .ok place
    else if name = ".." then
      match way with
      | [] => .ok (.outside [])
      | _ :: way => .ok (.inside way)
    else if nameLimit < name.utf8ByteSize then .error .nameTooLong
    else find directory.insideFiles [] .inside (name :: way)
  | .outside way =>
    if name = "" ∨ name = "." then .ok place
    else if name = ".." then .ok (.outside way.tail)
    else if nameLimit < name.utf8ByteSize then .error .nameTooLong
    else find outsideFiles outsideFolders .outside (name :: way)

/-- The text of the file that a path leads to. -/
def read (directory : Directory) (path : String) : Except ReadError String := do
  if pathLimit ≤ path.utf8ByteSize then .error .nameTooLong
  else
    let start := if path.toList.head? = some '/' then Place.outside [] else Place.inside []
    match ← ((pathNames path.toList).map String.ofList).foldlM directory.enter start with
    | .file text => .ok text
    | _ => .error .isDirectory

end Directory

end Predictive
