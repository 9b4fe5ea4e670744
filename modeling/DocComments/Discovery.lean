import DocComments.Glob

/-! The source files below a root folder, in a fixed order: by their names from folder to folder,
so that what is in a folder stands together. -/

namespace DocComments

inductive Failure where
  | notFolder (root : Text)
  | unreadable (path : Text) (cause : Fault)
  | unwritable (path : Text) (cause : Fault)
  deriving DecidableEq, Repr

namespace Failure

def chain : Failure → List Text
  | notFolder root => ["not a directory: ".toList ++ root]
  | unreadable path cause => ["failed to read ".toList ++ path, cause.message]
  | unwritable path cause => ["failed to write ".toList ++ path, cause.message]

def message (failure : Failure) : Text := List.intercalate ": ".toList failure.chain

end Failure

namespace Discovery

def nameBefore (left right : Text) : Bool :=
  List.lex left right fun first second => first.toNat < second.toNat

def before (left right : List Text) : Bool := List.lex left right nameBefore

def inOrder (paths : List Text) : List Text :=
  let sorted := paths.mergeSort fun left right =>
    !before (FilePath.components right) (FilePath.components left)
  sorted.eraseRepsBy fun left right => FilePath.components left = FilePath.components right

variable {m : Type → Type} [Monad m]

def filesAmong (system : FileSystem m) : List Text → m (List Text)
  | [] => return []
  | path :: rest => do
    let listed := (← system.isFile path) && !FilePath.isGenerated path
    let files ← filesAmong system rest
    return if listed then path :: files else files

end Discovery

def FileSystem.discover {m : Type → Type} [Monad m] (system : FileSystem m) (root : Text) :
    m (Except Failure (List Text)) := do
  if ← system.isFolder root then
    let entries ← Glob.entries system (.below root ".cs".toList)
    return .ok (Discovery.inOrder (← Discovery.filesAmong system entries))
  else return .error (.notFolder root)

def discover (tree : FileTree) (root : Text) : Except Failure (List Text) :=
  ((FileTree.system.discover root).run tree).1

end DocComments
