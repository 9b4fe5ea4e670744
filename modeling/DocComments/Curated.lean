import DocComments.Declaration
import DocComments.FilePath

/-! Curated documentation: texts written by hand for single members, found by file, kind and name.
-/

namespace DocComments

namespace Curated

structure Doc where
  summary : Text
  params : List (Text × Text) := []
  returns : Option Text := none
  deriving DecidableEq, Repr

structure Entry where
  key : Text
  kind : MemberKind
  name : Text
  doc : Doc
  deriving DecidableEq, Repr

abbrev Table := List Entry

namespace Entry

def isAbout (entry : Entry) (name : Text) (kind : MemberKind) : Bool :=
  entry.kind = kind.filed && entry.name == name

end Entry

namespace Table

def add (table : Table) (entry : Entry) : Table := table ++ [entry]

/-- The documentation for a member of the file at `path`. Keys that equal the last two components
come first, then keys that equal the file name, then keys that end in it. -/
def lookup? (table : Table) (path name : Text) (kind : MemberKind) : Option Doc := do
  let fileName ← FilePath.fileName? path
  let entries := table.filter fun entry => entry.isAbout name kind
  let entry ← entries.find? (fun entry => entry.key == FilePath.join (FilePath.lastTwo path)) <|>
    entries.find? (fun entry => entry.key == fileName) <|>
    entries.find? (fun entry => fileName.isSuffixOf entry.key)
  return entry.doc

end Table

end Curated

end DocComments
