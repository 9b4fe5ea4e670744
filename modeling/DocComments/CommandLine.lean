import DocComments.Curated.Shipped
import DocComments.Run

/-! The command line: what its arguments ask for, and what it answers. -/

namespace DocComments

namespace CommandLine

inductive Misuse where
  | unexpected (argument : Text)
  | emptyRoot
  deriving DecidableEq, Repr

inductive Request where
  | refresh (root : Text)
  | help
  | misuse (misuse : Misuse)
  deriving DecidableEq, Repr

def isPositional (argument : Text) : Bool := argument = ['-'] || argument.head? ≠ some '-'

def isHelp (argument : Text) : Bool :=
  argument = "--help".toList || "-h".toList.isPrefixOf argument

def readFrom (onlyRoots : Bool) (root : Option Text) : List Text → Request
  | [] =>
    match root with
    | none => .refresh ['.']
    | some [] => .misuse .emptyRoot
    | some (first :: rest) => .refresh (first :: rest)
  | argument :: rest =>
    if onlyRoots || isPositional argument then
      if root.isSome then .misuse (.unexpected argument)
      else readFrom onlyRoots (some argument) rest
    else if argument = ['-', '-'] then readFrom true root rest
    else if isHelp argument then
      if root = some [] then .misuse .emptyRoot else .help
    else .misuse (.unexpected argument)

def read (arguments : List Text) : Request := readFrom false none arguments

structure Answer where
  exit : Nat
  stdout : Text
  stderr : Text
  deriving DecidableEq, Repr

def helpText : Text :=
  ("Insert or refresh XML doc comments above C# declarations\n\n" ++
    "Usage: csdoc [ROOT]\n\n" ++
    "Arguments:\n" ++
    "  [ROOT]  Root directory to scan for .cs files [default: .]\n\n" ++
    "Options:\n" ++
    "  -h, --help  Print help\n").toList

def Misuse.message : Misuse → Text
  | unexpected argument => "unexpected argument '".toList ++ argument ++ "' found".toList
  | emptyRoot => "a value is required for '[ROOT]' but none was supplied".toList

def Answer.ofHelp : Answer := ⟨0, helpText, []⟩

def Answer.ofMisuse (misuse : Misuse) : Answer where
  exit := 2
  stdout := []
  stderr := "error: ".toList ++ misuse.message ++
    "\n\nUsage: csdoc [ROOT]\n\nFor more information, try '--help'.\n".toList

def Answer.ofFailure (failure : Failure) : Answer where
  exit := 1
  stdout := []
  stderr :=
    match failure.chain with
    | [] => []
    | [only] => "Error: ".toList ++ only ++ "\n".toList
    | first :: causes =>
      "Error: ".toList ++ first ++ "\n\nCaused by:\n".toList ++
        (causes.map fun cause => "    ".toList ++ cause ++ "\n".toList).flatten

def Answer.ofCounts (files changes : Nat) : Answer where
  exit := 0
  stdout := "Processed ".toList ++ (toString files).toList ++ " files, changed ".toList ++
    (toString changes).toList ++ " files.\n".toList
  stderr := []

def Answer.ofCourse (course : Course) : Answer :=
  match course.failure with
  | some failure => .ofFailure failure
  | none => .ofCounts course.outcomes.length course.changes

def answer {m : Type → Type} [Monad m] (system : FileSystem m) (arguments : List Text) :
    m Answer := do
  match read arguments with
  | .help => return .ofHelp
  | .misuse misuse => return .ofMisuse misuse
  | .refresh root =>
    match ← system.run Curated.shipped root with
    | .error failure => return .ofFailure failure
    | .ok course => return .ofCourse course

def execute (tree : FileTree) (arguments : List Text) : Answer × FileTree :=
  (answer FileTree.system arguments).run tree

end CommandLine

end DocComments
