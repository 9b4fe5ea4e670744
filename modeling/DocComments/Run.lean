import DocComments.Discovery
import DocComments.Refresh

/-! A run over the source files of a file system. Files are refreshed one after the other, and the
first that cannot be read or written ends the run; what was written before it stays. -/

namespace DocComments

structure Outcome where
  path : Text
  written : Option Text
  deriving DecidableEq, Repr

structure Course where
  outcomes : List Outcome
  failure : Option Failure

def Course.changes (course : Course) : Nat :=
  (course.outcomes.filter (·.written.isSome)).length

namespace FileSystem

variable {m : Type → Type} [Monad m] (system : FileSystem m) (table : Curated.Table)

def refreshFile (path : Text) : m (Except Failure Outcome) := do
  match ← system.read path with
  | .error cause => return .error (.unreadable path cause)
  | .ok text =>
    let after := refreshed table path text
    if after = text then return .ok ⟨path, none⟩
    else
      match ← system.write path after with
      | .error cause => return .error (.unwritable path cause)
      | .ok () => return .ok ⟨path, some after⟩

def refreshAll : List Text → m Course
  | [] => return ⟨[], none⟩
  | path :: rest => do
    match ← system.refreshFile table path with
    | .error failure => return ⟨[], some failure⟩
    | .ok outcome =>
      let course ← refreshAll rest
      return { course with outcomes := outcome :: course.outcomes }

def run (root : Text) : m (Except Failure Course) := do
  match ← system.discover root with
  | .error failure => return .error failure
  | .ok paths => return .ok (← system.refreshAll table paths)

end FileSystem

def FileTree.refreshFile (tree : FileTree) (table : Curated.Table) (path : Text) :
    Except Failure (Outcome × FileTree) :=
  let (answer, after) := (FileTree.system.refreshFile table path).run tree
  answer.map fun outcome => (outcome, after)

structure Report extends Course where
  tree : FileTree

def refreshAll (table : Curated.Table) (tree : FileTree) (paths : List Text) : Report :=
  let (course, after) := (FileTree.system.refreshAll table paths).run tree
  ⟨course, after⟩

def run (table : Curated.Table) (tree : FileTree) (root : Text) : Except Failure Report :=
  let (answer, after) := (FileTree.system.run table root).run tree
  answer.map fun course => ⟨course, after⟩

end DocComments
