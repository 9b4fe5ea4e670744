import DocComments.CommandLine

/-! The program. It answers from the files of the system; what is read, written and answered is
decided elsewhere. -/

namespace DocComments

namespace Main

def entryAt (path : Text) : IO.FS.DirEntry := ⟨String.ofList path, ""⟩

def entriesWithin (folder : IO.FS.DirEntry) (location : FileTree.Location) :
    Nat → IO (Array FileTree.Location)
  | 0 => return #[]
  | depth + 1 => do
    match ← folder.root.readDir.toBaseIO with
    | .error _ => return #[]
    | .ok entries =>
      let mut found := #[]
      for entry in entries do
        let below := location ++ [entry.fileName.toList]
        found := found.push below
        if ← entry.path.isDir then
          found := found ++ (← entriesWithin ⟨entry.path, ""⟩ below depth)
      return found

def faultOf : IO.Error → Fault
  | .alreadyExists _ code details
  | .otherError code details
  | .resourceBusy code details
  | .resourceVanished code details
  | .unsupportedOperation code details
  | .hardwareFault code details
  | .unsatisfiedConstraints code details
  | .illegalOperation code details
  | .protocolError code details
  | .timeExpired code details
  | .interrupted _ code details
  | .noFileOrDirectory _ code details
  | .invalidArgument _ code details
  | .permissionDenied _ code details
  | .resourceExhausted _ code details
  | .inappropriateType _ code details
  | .noSuchThing _ code details => .system (details ++ " (os error " ++ toString code ++ ")").toList
  | error => .system (toString error).toList

def readText (path : Text) : IO (Except Fault Text) := do
  match ← (IO.FS.readBinFile (entryAt path).root).toBaseIO with
  | .error error => return .error (faultOf error)
  | .ok bytes =>
    match Content.ofBytes bytes with
    | .binary _ => return .error .notText
    | .text text => return .ok text

def writeText (path text : Text) : IO (Except Fault Unit) := do
  match ← (IO.FS.writeFile (entryAt path).root (String.ofList text)).toBaseIO with
  | .error error => return .error (faultOf error)
  | .ok () => return .ok ()

def isFile (path : Text) : IO Bool := do
  match ← (entryAt path).root.metadata.toBaseIO with
  | .error _ => return false
  | .ok data => return data.type == .file

/-- No path has more names than bytes, which bounds the depth of what is below a folder. -/
def system : FileSystem IO where
  isFolder path := (entryAt path).root.isDir
  isFile := isFile
  isPresent path := (entryAt path).root.pathExists
  entriesBelow path := do
    return (← entriesWithin (entryAt path) [] FilePath.longestPath).toList
  read := readText
  write := writeText

end Main

end DocComments

def main (arguments : List String) : IO UInt32 := do
  let answer ← DocComments.CommandLine.answer DocComments.Main.system (arguments.map String.toList)
  IO.print (String.ofList answer.stdout)
  IO.eprint (String.ofList answer.stderr)
  return answer.exit.toUInt32
