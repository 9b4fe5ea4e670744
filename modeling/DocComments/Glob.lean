import DocComments.FileSystem

/-! Patterns for entries below a root, however deep. The names in front stand for themselves and
are taken one after the other, with the slashes of the pattern between them: an empty one puts a
slash behind the path. -/

namespace DocComments

namespace Glob

structure Pattern where
  scope : Text
  names : List Text
  ending : Text

def Pattern.below (root ending : Text) : Pattern :=
  if FilePath.isAbsolute root then ⟨['/'], (FilePath.pieces root).tail, ending⟩
  else ⟨['.'], FilePath.pieces root, ending⟩

/-- The path one name further. The dot that stands for the folder itself is not written. -/
def next (path name : Text) : Text := if path = ['.'] then name else FilePath.append path name

variable {m : Type → Type} [Monad m]

def follow (system : FileSystem m) (path : Text) : List Text → m (Option Text)
  | [] => return some path
  | name :: rest => do
    let further := next path name
    let found ←
      if FilePath.steps.contains name then system.isFolder path else system.isPresent further
    if found then follow system further rest else return none

def hasEnding (ending : Text) (location : FileTree.Location) : Bool :=
  location.getLast?.any fun name => ending.isSuffixOf name

def entries (system : FileSystem m) (pattern : Pattern) : m (List Text) := do
  match ← follow system pattern.scope pattern.names with
  | none => return []
  | some folder =>
    let below := (← system.entriesBelow folder).filter (hasEnding pattern.ending)
    return below.map fun location => location.foldl next folder

end Glob

end DocComments
