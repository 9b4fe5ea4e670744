import DocComments.Text.LowerCase

/-! File paths as written, and their components. Slashes separate components; what does not change
the file meant by a path (repeated slashes, a dot that is not the first component) leaves no
component. -/

namespace DocComments

namespace FilePath

def pieces (path : Text) : List Text := path.splitOnP (· = '/')

def longestPath : Nat := 4095

def longestName : Nat := 255

def isAbsolute (path : Text) : Bool := path.head? = some '/'

/-- The components of a path. The root counts as the component `/`, and parent steps are kept. -/
def components (path : Text) : List Text :=
  match pieces path with
  | [] => []
  | first :: rest =>
    (if first ≠ [] then [first] else if rest ≠ [] then [['/']] else []) ++
      rest.filter fun piece => piece ≠ [] ∧ piece ≠ ['.']

def steps : List Text := [['.'], ['.', '.']]

def fileName? (path : Text) : Option Text :=
  (components path).getLast?.filter fun last =>
    !(['/'] :: steps).contains last

def lastTwo (path : Text) : List Text :=
  (components path).drop ((components path).length - 2)

def join (components : List Text) : Text := List.intercalate ['/'] components

def append (path name : Text) : Text :=
  if path.getLast?.any (· ≠ '/') then path ++ '/' :: name else path ++ name

def generatedEndings : List Text := [".designer.cs".toList, ".g.cs".toList, ".g.i.cs".toList]

def isGenerated (path : Text) : Bool :=
  generatedEndings.any fun ending => ending.isSuffixOf path.lower

end FilePath

end DocComments
