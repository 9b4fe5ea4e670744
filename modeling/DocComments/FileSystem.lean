import DocComments.FileTree

/-! What a run asks of a file system. A file tree answers it from its entries; when the program
runs, the system itself does. -/

namespace DocComments

structure FileSystem (m : Type → Type) where
  isFolder : Text → m Bool
  isFile : Text → m Bool
  isPresent : Text → m Bool
  /-- What stands below the folder that a path leads to, by the names on the way from there. -/
  entriesBelow : Text → m (List FileTree.Location)
  read : Text → m (Except Fault Text)
  write : Text → Text → m (Except Fault Unit)

namespace FileTree

def system : FileSystem (StateM FileTree) where
  isFolder path := do return (← get).isFolderAt path
  isFile path := do return (← get).isFileAt path
  isPresent path := do return (← get).isPresentAt path
  entriesBelow path := do return (← get).entriesAt path
  read path := do return ((← get).textAt path).map Prod.snd
  write path text := modifyGet fun tree => tree.rewrite path text

section Answers

variable (tree : FileTree) (path : Text)

@[simp] theorem run_isFolder :
    (system.isFolder path).run tree = pure (tree.isFolderAt path, tree) := rfl

@[simp] theorem run_isFile : (system.isFile path).run tree = pure (tree.isFileAt path, tree) := rfl

@[simp] theorem run_isPresent :
    (system.isPresent path).run tree = pure (tree.isPresentAt path, tree) := rfl

@[simp] theorem run_entriesBelow :
    (system.entriesBelow path).run tree = pure (tree.entriesAt path, tree) := rfl

@[simp] theorem run_read :
    (system.read path).run tree = pure ((tree.textAt path).map Prod.snd, tree) := rfl

@[simp] theorem run_write (text : Text) :
    (system.write path text).run tree = pure (tree.rewrite path text) := rfl

end Answers

end FileTree

end DocComments
