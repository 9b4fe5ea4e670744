import DocComments.FilePath

/-! File trees: folders and files below the top folder, and the folder that paths are read from.
Paths are followed as a file system follows them. Every entry stands in a folder of the tree, and
no two entries have the same place. -/

namespace DocComments

inductive Content where
  | text (text : Text)
  | binary (bytes : ByteArray)

namespace Content

def ofBytes (bytes : ByteArray) : Content :=
  match String.fromUTF8? bytes with
  | some string => text string.toList
  | none => binary bytes

end Content

inductive Fault where
  | missing
  | notFolder
  | isFolder
  | tooLong
  | zeroInside
  | notText
  | denied
  | system (description : Text)
  deriving DecidableEq, Repr

namespace Fault

def message : Fault → Text
  | missing => "No such file or directory (os error 2)".toList
  | notFolder => "Not a directory (os error 20)".toList
  | isFolder => "Is a directory (os error 21)".toList
  | tooLong => "File name too long (os error 36)".toList
  | zeroInside => "file name contained an unexpected NUL byte".toList
  | notText => "stream did not contain valid UTF-8".toList
  | denied => "Permission denied (os error 13)".toList
  | system description => description

end Fault

namespace FileTree

abbrev Location := List Text

/-- What stands at a location. A file goes with what the system says to those who write it, unless it
lets them. -/
inductive Entry where
  | folder
  | file (content : Content) (refusal : Option Fault)

def isEntryName (name : Text) : Bool :=
  !name.contains '/' && !name.contains '\x00' && name.byteLength ≤ FilePath.longestName &&
    !([] :: FilePath.steps).contains name

def IsFolderOf (entries : List (Location × Entry)) (location : Location) : Prop :=
  location = [] ∨ (location, Entry.folder) ∈ entries

def IsPlaced (entries : List (Location × Entry)) (location : Location) : Prop :=
  ∃ parent name, location = parent ++ [name] ∧ isEntryName name ∧ IsFolderOf entries parent

end FileTree

open FileTree in
structure FileTree where
  working : Location
  entries : List (Location × Entry)
  distinct : (entries.map Prod.fst).Nodup
  placed : ∀ item ∈ entries, IsPlaced entries item.1
  inside : IsFolderOf entries working

namespace FileTree

def empty : FileTree where
  working := ["work".toList]
  entries := [(["work".toList], .folder)]
  distinct := by simp
  placed := by
    intro item member
    rw [List.mem_singleton.mp member]
    exact ⟨[], "work".toList, rfl, by decide, .inl rfl⟩
  inside := .inr (by simp)

def lookup? (tree : FileTree) (location : Location) : Option Entry :=
  if location = [] then some .folder
  else (tree.entries.find? fun item => item.1 == location).map Prod.snd

def isFolder (tree : FileTree) (location : Location) : Bool :=
  match tree.lookup? location with
  | some .folder => true
  | _ => false

theorem isFolder_iff (tree : FileTree) (location : Location) :
    tree.isFolder location = true ↔ tree.lookup? location = some .folder := by
  unfold isFolder
  split
  · next found => simp [found]
  · next other =>
    constructor
    · intro impossible
      cases impossible
    · intro found
      exact absurd found other

theorem lookup?_eq_none_iff (tree : FileTree) (location : Location) :
    tree.lookup? location = none ↔ location ≠ [] ∧ location ∉ tree.entries.map Prod.fst := by
  unfold lookup?
  split
  · next top => simp [top]
  · next below =>
    simp only [Option.map_eq_none_iff, List.find?_eq_none, beq_iff_eq, ne_eq, below,
      not_false_eq_true, true_and, List.mem_map, not_exists, not_and]

theorem mem_of_lookup? {tree : FileTree} {location : Location} {entry : Entry}
    (below : location ≠ []) (found : tree.lookup? location = some entry) :
    (location, entry) ∈ tree.entries := by
  rw [lookup?, if_neg below, Option.map_eq_some_iff] at found
  obtain ⟨item, seen, rfl⟩ := found
  have same : item.1 = location := by simpa using List.find?_some seen
  exact same ▸ List.mem_of_find?_eq_some seen

theorem lookup?_eq_some_of_mem {tree : FileTree} {location : Location} {entry : Entry}
    (member : (location, entry) ∈ tree.entries) : tree.lookup? location = some entry := by
  have below : location ≠ [] := by
    obtain ⟨parent, name, same, _⟩ := tree.placed _ member
    simp only at same
    simp [same]
  have distinct := tree.distinct
  rw [lookup?, if_neg below, Option.map_eq_some_iff]
  refine ⟨(location, entry), ?_, rfl⟩
  generalize tree.entries = items at member distinct
  induction items with
  | nil => simp at member
  | cons first rest ih =>
      rw [List.map_cons, List.nodup_cons] at distinct
      by_cases here : first.1 = location
      · rcases List.mem_cons.mp member with rfl | later
        · simp
        · exact absurd (List.mem_map_of_mem (f := Prod.fst) later) (here ▸ distinct.1)
      · rcases List.mem_cons.mp member with rfl | later
        · exact absurd rfl here
        · rw [List.find?_cons_of_neg (by simpa using here)]
          exact ih later distinct.2

theorem IsFolderOf.mono {entries more : List (Location × Entry)} {location : Location}
    (folder : IsFolderOf entries location)
    (kept : ∀ parent, (parent, Entry.folder) ∈ entries → (parent, Entry.folder) ∈ more) :
    IsFolderOf more location :=
  folder.imp_right (kept location)

theorem IsPlaced.mono {entries more : List (Location × Entry)} {location : Location}
    (placed : IsPlaced entries location)
    (kept : ∀ parent, (parent, Entry.folder) ∈ entries → (parent, Entry.folder) ∈ more) :
    IsPlaced more location := by
  obtain ⟨parent, name, same, proper, above⟩ := placed
  exact ⟨parent, name, same, proper, above.mono kept⟩

theorem isFolderOf_iff (tree : FileTree) (location : Location) :
    IsFolderOf tree.entries location ↔ tree.lookup? location = some .folder := by
  constructor
  · rintro (rfl | inside)
    · exact if_pos rfl
    · exact lookup?_eq_some_of_mem inside
  · intro found
    by_cases top : location = []
    · exact .inl top
    · exact .inr (mem_of_lookup? top found)

def add (tree : FileTree) (parent : Location) (name : Text) (entry : Entry) : FileTree :=
  if free : tree.lookup? (parent ++ [name]) = none ∧ tree.isFolder parent = true ∧
      isEntryName name = true then
    have kept : ∀ outer, (outer, Entry.folder) ∈ tree.entries →
        (outer, Entry.folder) ∈ tree.entries ++ [(parent ++ [name], entry)] :=
      fun outer inside => List.mem_append_left _ inside
    { working := tree.working
      entries := tree.entries ++ [(parent ++ [name], entry)]
      distinct := by
        have absent := ((lookup?_eq_none_iff tree _).mp free.1).2
        rw [List.map_append, List.nodup_append]
        refine ⟨tree.distinct, by simp, ?_⟩
        intro old member new isNew same
        simp only [List.map_cons, List.map_nil, List.mem_singleton] at isNew
        exact absent (isNew ▸ same ▸ member)
      placed := by
        intro item member
        rcases List.mem_append.mp member with old | new
        · exact (tree.placed item old).mono kept
        · have folder := (isFolderOf_iff ..).mpr ((tree.isFolder_iff parent).mp free.2.1)
          rw [List.mem_singleton.mp new]
          exact ⟨parent, name, rfl, free.2.2, folder.mono kept⟩
      inside := tree.inside.mono kept }
  else tree

def Entry.withContent (content : Content) : Entry → Entry
  | .folder => .folder
  | .file _ refusal => .file content refusal

def setContent (tree : FileTree) (location : Location) (content : Content) : FileTree :=
  let change := fun item : Location × Entry =>
    (item.1, if item.1 = location then item.2.withContent content else item.2)
  have kept : ∀ outer, (outer, Entry.folder) ∈ tree.entries →
      (outer, Entry.folder) ∈ tree.entries.map change := by
    intro outer folder
    refine List.mem_map.mpr ⟨(outer, .folder), folder, ?_⟩
    by_cases same : outer = location <;> simp [change, same, Entry.withContent]
  { working := tree.working
    entries := tree.entries.map change
    distinct := by
      rw [List.map_map]
      exact tree.distinct
    placed := by
      intro item member
      obtain ⟨old, inside, rfl⟩ := List.mem_map.mp member
      exact (tree.placed old inside).mono kept
    inside := tree.inside.mono kept }

def removeFile? (tree : FileTree) (location : Location) : Option FileTree :=
  match found : tree.lookup? location with
  | some (.file ..) =>
    have kept : ∀ outer, (outer, Entry.folder) ∈ tree.entries →
        (outer, Entry.folder) ∈ tree.entries.filter fun item => item.1 ≠ location := by
      intro outer folder
      refine List.mem_filter.mpr ⟨folder, ?_⟩
      rw [decide_eq_true_eq]
      rintro rfl
      rw [lookup?_eq_some_of_mem folder] at found
      cases found
    some
      { working := tree.working
        entries := tree.entries.filter fun item => item.1 ≠ location
        distinct := tree.distinct.sublist (List.filter_sublist.map Prod.fst)
        placed := fun item member => (tree.placed item (List.mem_filter.mp member).1).mono kept
        inside := tree.inside.mono kept }
  | _ => none

/-- One step from a location: to itself, to the folder around it or to a name below. Only folders can
be left, and a name has to be short enough even where there is no such entry. Around the top folder
there is the top folder. -/
def step (tree : FileTree) (here : Location) (piece : Text) : Except Fault Location :=
  match tree.lookup? here with
  | none => .error .missing
  | some (.file ..) => .error .notFolder
  | some .folder =>
    if piece = [] ∨ piece = ['.'] then .ok here
    else if piece = ['.', '.'] then .ok here.dropLast
    else if FilePath.longestName < piece.byteLength then .error .tooLong
    else .ok (here ++ [piece])

def origin (tree : FileTree) (path : Text) : Location :=
  if FilePath.isAbsolute path then [] else tree.working

/-- The location a path leads to, whether there is an entry or not. The empty path leads nowhere. The
path is looked at as a whole before the first step is taken. -/
def locate (tree : FileTree) (path : Text) : Except Fault Location :=
  if path.contains '\x00' then .error .zeroInside
  else if path = [] then .error .missing
  else if FilePath.longestPath < path.byteLength then .error .tooLong
  else (FilePath.pieces path).foldlM tree.step (tree.origin path)

def fileAt (tree : FileTree) (path : Text) : Except Fault (Location × Content) := do
  let location ← tree.locate path
  match tree.lookup? location with
  | none => .error .missing
  | some .folder => .error .isFolder
  | some (.file content _) => .ok (location, content)

def textAt (tree : FileTree) (path : Text) : Except Fault (Location × Text) := do
  match ← tree.fileAt path with
  | (_, .binary _) => .error .notText
  | (location, .text text) => .ok (location, text)

def isFolderAt (tree : FileTree) (path : Text) : Bool :=
  match tree.locate path with
  | .ok location => tree.isFolder location
  | .error _ => false

def isFileAt (tree : FileTree) (path : Text) : Bool := (tree.fileAt path).isOk

def isPresentAt (tree : FileTree) (path : Text) : Bool :=
  match tree.locate path with
  | .ok location => (tree.lookup? location).isSome
  | .error _ => false

def refusal? (tree : FileTree) (location : Location) : Option Fault :=
  match tree.lookup? location with
  | some (.file _ refusal) => refusal
  | _ => none

def rewrite (tree : FileTree) (path text : Text) : Except Fault Unit × FileTree :=
  match tree.fileAt path with
  | .error fault => (.error fault, tree)
  | .ok (location, _) =>
    match tree.refusal? location with
    | some fault => (.error fault, tree)
    | none => (.ok (), tree.setContent location (.text text))

def entriesBelow (tree : FileTree) (folder : Location) : List Location :=
  (tree.entries.map Prod.fst).filterMap fun location =>
    if folder.isPrefixOf location && location ≠ folder then some (location.drop folder.length)
    else none

def entriesAt (tree : FileTree) (path : Text) : List Location :=
  match tree.locate path with
  | .ok location => tree.entriesBelow location
  | .error _ => []

def makeFoldersFrom (tree : FileTree) (here : Location) : List Text → FileTree × Location
  | [] => (tree, here)
  | piece :: rest =>
    if piece = [] ∨ piece = ['.'] then makeFoldersFrom tree here rest
    else if piece = ['.', '.'] then makeFoldersFrom tree here.dropLast rest
    else makeFoldersFrom (tree.add here piece .folder) (here ++ [piece]) rest

def makeFolder (tree : FileTree) (path : Text) : FileTree :=
  (tree.makeFoldersFrom (tree.origin path) (FilePath.pieces path)).1

def write (tree : FileTree) (path : Text) (content : Content) : FileTree :=
  let pieces := FilePath.pieces path
  let (around, folder) := tree.makeFoldersFrom (tree.origin path) pieces.dropLast
  let name := pieces.getLast?.getD []
  (around.add folder name (.file content none)).setContent (folder ++ [name]) content

def remove? (tree : FileTree) (path : Text) : Option FileTree := do
  let (location, _) ← (tree.fileAt path).toOption
  tree.removeFile? location

end FileTree

end DocComments
