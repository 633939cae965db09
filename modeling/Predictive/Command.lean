import Predictive.Command.Basic
import Predictive.Command.Directory

/-!
# The files of a command

A command is executed on the files of the system, or on a directory that is given along with it.
Either way it reads the files that it names and no others, so that their texts can be taken in
before it is executed; and for the plain names of files that are there, a directory is a table of
texts.

## Main definitions

* `Command.executeIn` — execute a command in a directory

## Main results

* `Command.execute_congr` — a command reads the files that it names
* `Directory.read_eq_ok_iff` — a plain name leads to the file of that name
* `Command.executeIn_eq` — a command whose files have plain names
-/

namespace Predictive

namespace Directory

variable {directory : Directory} {name : String}

/-- A name that means a file of the working directory. -/
structure IsPlain (name : String) : Prop where
  /-- The name is no path. -/
  unslashed : '/' ∉ name.toList
  /-- The name is none of those that stay or go back. -/
  proper : name ≠ "" ∧ name ≠ "." ∧ name ≠ ".."
  /-- The name is not too long. -/
  short : name.utf8ByteSize ≤ nameLimit

/-- The file of a plain name is found under the names of its path. -/
theorem lookup_insideFiles (plain : IsPlain name) :
    directory.insideFiles.lookup [name] = directory.files.lookup name := by
  rw [insideFiles]
  induction directory.files with
  | nil => rfl
  | cons file rest ih =>
    obtain ⟨path, text⟩ := file
    rw [List.map_cons, List.lookup_cons, List.lookup_cons, ih]
    by_cases same : name = path
    · subst same
      simp [pathNames_of_no_slash plain.unslashed]
    · have differs : [name] ≠ (pathNames path.toList).map String.ofList := by
        intro alike
        obtain ⟨only, names, spelled⟩ := List.map_eq_singleton_iff.mp alike.symm
        rw [← spelled, ← eq_of_pathNames names, String.ofList_toList] at same
        exact same rfl
      rw [beq_false_of_ne same, beq_false_of_ne differs]

/-- A plain name leads to the file of that name. -/
theorem read_eq_ok_iff (plain : IsPlain name) {text : String} :
    directory.read name = .ok text ↔ directory.files.lookup name = some text := by
  obtain ⟨nonempty, stays, back⟩ := plain.proper
  have fits : ¬ pathLimit ≤ name.utf8ByteSize := by
    have short := plain.short
    unfold nameLimit at short
    unfold pathLimit
    omega
  have relative : name.toList.head? ≠ some '/' := fun head =>
    plain.unslashed (List.mem_of_head? head)
  have names : (pathNames name.toList).map String.ofList = [name] := by
    rw [pathNames_of_no_slash plain.unslashed, List.map_singleton, String.ofList_toList]
  have entered : directory.enter (.inside []) name =
      find directory.insideFiles [] .inside [name] := by
    simp [enter, nonempty, stays, back, Nat.not_lt.mpr plain.short]
  have found : [name].foldlM directory.enter (.inside []) =
      find directory.insideFiles [] .inside [name] := by
    rw [List.foldlM_cons, entered]
    exact bind_pure _
  rw [read, if_neg fits, if_neg relative, names]
  dsimp only
  rw [found, find, List.reverse_singleton, lookup_insideFiles plain]
  cases directory.files.lookup name with
  | some other =>
    constructor
    · intro given
      cases given
      rfl
    · intro there
      cases there
      rfl
  | none =>
    -- the name may still be that of a directory, which has no text
    dsimp only
    split
    · exact iff_of_false nofun nofun
    · exact iff_of_false nofun nofun

end Directory

namespace Command

variable {read other : String → Except ReadError String} {command : Command}

/-- What a command prints on the files of a directory, and its exit code. -/
def executeIn (directory : Directory) (command : Command) : Except Fault (Option Report) :=
  command.execute directory.read

/-- A command reads the files that it names, and no others. -/
theorem execute_congr (same : ∀ path ∈ command.files, read path = other path) :
    command.execute read = command.execute other := by
  have grammars : ∀ path leftFactor, path ∈ command.files →
      loadGrammar read path leftFactor = loadGrammar other path leftFactor := by
    intro path leftFactor named
    rw [loadGrammar, loadGrammar, same path named]
  have performed : perform read command = perform other command := by
    cases command with
    | analyze grammar leftFactor =>
      rw [perform, perform, grammars grammar leftFactor (by simp [files])]
    | parse grammar lexer leftFactor strict input =>
      rw [perform, perform, grammars grammar leftFactor (by simp [files]), loadScanner, loadScanner,
        same lexer (by simp [files])]
  rw [execute, execute, performed]

/-- A command whose files are there, under plain names, is executed on their texts. -/
theorem executeIn_eq {directory : Directory}
    (plain : ∀ path ∈ command.files, Directory.IsPlain path)
    (present : ∀ path ∈ command.files, ∃ text, directory.files.lookup path = some text) :
    command.executeIn directory = command.execute fun path =>
      ((directory.files.lookup path).map .ok).getD (.error .missing) := by
  refine execute_congr fun path named => ?_
  obtain ⟨text, found⟩ := present path named
  rw [(Directory.read_eq_ok_iff (plain path named)).mpr found, found]
  rfl

end Command

end Predictive
