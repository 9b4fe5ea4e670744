import DocComments.Proofs.Paths
import DocComments.FileTree
import Mathlib.Data.List.Basic
import Mathlib.Data.List.Induction

/-! Where paths lead. The names on the way to an entry lead there from any folder on that way
(`walk_names`). New content for a file changes the entry at one location and leaves all paths as
they are (`lookup?_setContent`, `locate_setContent`). -/

namespace DocComments

theorem Text.byteLength_append (left right : Text) :
    (left ++ right).byteLength = left.byteLength + right.byteLength := by
  induction left with
  | nil => simp [byteLength]
  | cons first rest ih => simp [byteLength, ih, Nat.add_assoc]

theorem Text.byteLength_le_of_sublist {part whole : Text} (inside : part.Sublist whole) :
    part.byteLength ≤ whole.byteLength := by
  induction inside with
  | slnil => exact Nat.le_refl _
  | cons character _ ih => exact Nat.le_add_left_of_le ih
  | cons_cons character _ ih => exact Nat.add_le_add_left ih _

def FilePath.IsTaken (path : Text) : Prop := '\x00' ∉ path ∧ path.byteLength ≤ longestPath

theorem FilePath.IsTaken.sublist {part whole : Text} (taken : IsTaken whole)
    (inside : part.Sublist whole) : IsTaken part :=
  ⟨fun zero => taken.1 (inside.subset zero),
    (Text.byteLength_le_of_sublist inside).trans taken.2⟩

namespace FileTree

theorem eq_of_entries {left right : FileTree} (working : left.working = right.working)
    (same : left.entries = right.entries) : left = right := by
  cases left
  cases right
  cases working
  cases same
  rfl

/-- A tree is known by its working folder, the locations of its entries, in order, and what stands
there. -/
theorem eq_of_lookup? {left right : FileTree} (working : left.working = right.working)
    (locations : left.entries.map Prod.fst = right.entries.map Prod.fst)
    (found : ∀ location, left.lookup? location = right.lookup? location) : left = right := by
  have listed (tree : FileTree) : tree.entries.map (fun item => (item.1, some item.2)) =
      (tree.entries.map Prod.fst).map fun location => (location, tree.lookup? location) := by
    rw [List.map_map]
    apply List.map_congr_left
    intro item member
    have found : tree.lookup? item.1 = some item.2 := lookup?_eq_some_of_mem member
    rw [Function.comp_apply, found]
  have known : Function.Injective fun item : Location × Entry => (item.1, some item.2) := by
    intro first second same
    obtain ⟨location, entry⟩ := Prod.mk.inj same
    exact Prod.ext location (Option.some.inj entry)
  apply eq_of_entries working
  apply known.list_map
  rw [listed, listed, locations, funext found]

theorem lookup?_nil (tree : FileTree) : tree.lookup? [] = some .folder := if_pos rfl

theorem lookup?_working (tree : FileTree) : tree.lookup? tree.working = some .folder :=
  (isFolderOf_iff ..).mp tree.inside

theorem isEntryName_iff (name : Text) :
    isEntryName name = true ↔ '/' ∉ name ∧ '\x00' ∉ name ∧
      name.byteLength ≤ FilePath.longestName ∧ name ≠ [] ∧ name ∉ FilePath.steps := by
  simp [isEntryName, and_assoc]

theorem isName_of_isEntryName {name : Text} (proper : isEntryName name = true) :
    FilePath.IsName name := by
  obtain ⟨plain, _, _, nonempty, noStep⟩ := (isEntryName_iff name).mp proper
  exact ⟨nonempty, plain, noStep⟩

theorem lookup?_above {tree : FileTree} {above : Location} {name : Text}
    (found : tree.lookup? (above ++ [name]) ≠ none) :
    tree.lookup? above = some .folder ∧ isEntryName name = true := by
  obtain ⟨entry, here⟩ := Option.ne_none_iff_exists'.mp found
  have member := mem_of_lookup? (by simp) here
  obtain ⟨parent, own, same, proper, folder⟩ := tree.placed _ member
  obtain ⟨rfl, last⟩ := List.append_inj' same rfl
  obtain rfl : name = own := by simpa using last
  exact ⟨(isFolderOf_iff ..).mp folder, proper⟩

def walk (tree : FileTree) (here : Location) (pieces : List Text) : Except Fault Location :=
  pieces.foldlM tree.step here

theorem walk_cons_eq_ok_iff (tree : FileTree) (here : Location) (piece : Text) (rest : List Text)
    (place : Location) :
    tree.walk here (piece :: rest) = .ok place ↔
      ∃ next, tree.step here piece = .ok next ∧ tree.walk next rest = .ok place := by
  rw [walk, List.foldlM_cons]
  cases tree.step here piece with
  | error fault => simp [bind, Except.bind]
  | ok next => simp [bind, Except.bind, walk]

def destination (tree : FileTree) (path : Text) : Except Fault Location :=
  tree.walk (tree.origin path) (FilePath.pieces path)

theorem locate_eq_ok_iff (tree : FileTree) (path : Text) (place : Location) :
    tree.locate path = .ok place ↔
      FilePath.IsTaken path ∧ path ≠ [] ∧ tree.destination path = .ok place := by
  unfold locate destination walk FilePath.IsTaken
  by_cases zero : '\x00' ∈ path
  · simp [zero]
  · by_cases empty : path = []
    · simp [empty]
    · by_cases long : FilePath.longestPath < path.byteLength
      · simp [zero, empty, long, Nat.not_le.mpr long]
      · simp [zero, empty, long, Nat.le_of_not_lt long]

theorem fileAt_eq_ok_iff (tree : FileTree) (path : Text) (location : Location) (content : Content) :
    tree.fileAt path = .ok (location, content) ↔
      tree.locate path = .ok location ∧
        ∃ refusal, tree.lookup? location = some (.file content refusal) := by
  unfold fileAt
  cases tree.locate path with
  | error fault => simp [bind, Except.bind]
  | ok other =>
      simp only [bind, Except.bind, Except.ok.injEq]
      constructor
      · intro read
        split at read <;> cases read
        next found => exact ⟨rfl, _, found⟩
      · rintro ⟨rfl, refusal, found⟩
        rw [found]

theorem isFolderAt_eq_true_iff (tree : FileTree) (path : Text) :
    tree.isFolderAt path = true ↔
      ∃ location, tree.locate path = .ok location ∧ tree.lookup? location = some .folder := by
  unfold isFolderAt
  cases tree.locate path with
  | error fault => simp
  | ok location => simp [isFolder_iff]

theorem isPresentAt_eq_true_iff (tree : FileTree) (path : Text) :
    tree.isPresentAt path = true ↔
      ∃ location, tree.locate path = .ok location ∧ tree.lookup? location ≠ none := by
  unfold isPresentAt
  cases tree.locate path with
  | error fault => simp
  | ok location => simp [Option.isSome_iff_ne_none]

theorem isFileAt_eq_true_iff (tree : FileTree) (path : Text) :
    tree.isFileAt path = true ↔ ∃ location content, tree.fileAt path = .ok (location, content) := by
  unfold isFileAt
  cases tree.fileAt path with
  | error fault => simp [Except.isOk, Except.toBool]
  | ok found =>
      obtain ⟨location, content⟩ := found
      simp [Except.isOk, Except.toBool]

theorem step_eq_ok_iff (tree : FileTree) (here : Location) (piece : Text) (next : Location) :
    tree.step here piece = .ok next ↔
      tree.lookup? here = some .folder ∧
        if piece = [] ∨ piece = ['.'] then next = here
        else if piece = ['.', '.'] then next = here.dropLast
        else piece.byteLength ≤ FilePath.longestName ∧ next = here ++ [piece] := by
  unfold step
  rcases tree.lookup? here with _ | (_ | _)
  · simp
  · simp only [true_and]
    by_cases idle : piece = [] ∨ piece = ['.']
    · rw [if_pos idle, if_pos idle, Except.ok.injEq, eq_comm]
    · rw [if_neg idle, if_neg idle]
      by_cases up : piece = ['.', '.']
      · rw [if_pos up, if_pos up, Except.ok.injEq, eq_comm]
      · rw [if_neg up, if_neg up]
        by_cases long : FilePath.longestName < piece.byteLength
        · simp [long, Nat.not_le.mpr long]
        · rw [if_neg long, Except.ok.injEq, eq_comm]
          simp [Nat.le_of_not_lt long]
  · simp

theorem step_nil_eq_ok_iff (tree : FileTree) (here next : Location) :
    tree.step here [] = .ok next ↔ tree.lookup? here = some .folder ∧ next = here := by
  rw [step_eq_ok_iff, if_pos (.inl rfl)]

theorem step_name {tree : FileTree} {here : Location} {name : Text}
    (folder : tree.lookup? here = some .folder) (proper : isEntryName name = true) :
    tree.step here name = .ok (here ++ [name]) := by
  obtain ⟨_, _, short, nonempty, unstepped⟩ := (isEntryName_iff name).mp proper
  simp only [FilePath.steps, List.mem_cons, List.not_mem_nil, or_false, not_or] at unstepped
  rw [step_eq_ok_iff, if_neg (by simp [nonempty, unstepped.1]), if_neg unstepped.2]
  exact ⟨folder, short, rfl⟩

theorem walk_append (tree : FileTree) (here : Location) (above below : List Text)
    (place : Location) :
    tree.walk here (above ++ below) = .ok place ↔
      ∃ next, tree.walk here above = .ok next ∧ tree.walk next below = .ok place := by
  induction above generalizing here with
  | nil =>
      constructor
      · exact fun walked => ⟨here, rfl, walked⟩
      · rintro ⟨next, stayed, walked⟩
        obtain rfl := Except.ok.inj stayed
        exact walked
  | cons piece rest ih =>
      rw [List.cons_append, walk_cons_eq_ok_iff]
      constructor
      · rintro ⟨middle, stepped, walked⟩
        obtain ⟨next, first, second⟩ := (ih middle).mp walked
        exact ⟨next, (walk_cons_eq_ok_iff ..).mpr ⟨middle, stepped, first⟩, second⟩
      · rintro ⟨next, first, second⟩
        obtain ⟨middle, stepped, first⟩ := (walk_cons_eq_ok_iff ..).mp first
        exact ⟨middle, stepped, (ih middle).mpr ⟨next, first, second⟩⟩

theorem walk_concat (tree : FileTree) (here : Location) (above : List Text) (piece : Text)
    (place : Location) :
    tree.walk here (above ++ [piece]) = .ok place ↔
      ∃ next, tree.walk here above = .ok next ∧ tree.step next piece = .ok place := by
  rw [walk_append]
  refine exists_congr fun next => and_congr_right fun _ => ?_
  rw [walk_cons_eq_ok_iff]
  constructor
  · rintro ⟨last, stepped, stayed⟩
    rwa [← Except.ok.inj stayed]
  · exact fun stepped => ⟨place, stepped, rfl⟩

theorem lookup?_of_walk {tree : FileTree} {here place : Location} {pieces : List Text}
    (walked : tree.walk here pieces = .ok place) (folder : tree.lookup? place = some .folder) :
    tree.lookup? here = some .folder := by
  cases pieces with
  | nil => exact Except.ok.inj walked ▸ folder
  | cons piece rest =>
      obtain ⟨next, stepped, _⟩ := (walk_cons_eq_ok_iff ..).mp walked
      exact ((step_eq_ok_iff ..).mp stepped).1

theorem eq_of_walk_names {tree : FileTree} {here : Location} {names : List Text} {place : Location}
    (proper : ∀ name ∈ names, FilePath.IsName name)
    (walked : tree.walk here names = .ok place) : place = here ++ names := by
  induction names generalizing here with
  | nil =>
      rw [List.append_nil]
      exact (Except.ok.inj walked).symm
  | cons name rest ih =>
      obtain ⟨⟨nonempty, _, noStep⟩, proper⟩ := List.forall_mem_cons.mp proper
      simp only [FilePath.steps, List.mem_cons, List.not_mem_nil, or_false, not_or] at noStep
      obtain ⟨next, stepped, walked⟩ := (walk_cons_eq_ok_iff ..).mp walked
      have moved := ((step_eq_ok_iff ..).mp stepped).2
      rw [if_neg (by simp [nonempty, noStep.1]), if_neg noStep.2] at moved
      rw [moved.2] at walked
      rw [ih proper walked, List.append_assoc, List.singleton_append]

theorem walk_names {tree : FileTree} {here : Location} {names : List Text}
    (found : tree.lookup? (here ++ names) ≠ none) : tree.walk here names = .ok (here ++ names) := by
  -- From the last name back: an entry tells of the folder it stands in, not of what it holds.
  induction names using List.reverseRecOn with
  | nil => rw [List.append_nil]; rfl
  | append_singleton above name ih =>
      rw [← List.append_assoc] at found
      obtain ⟨parent, proper⟩ := lookup?_above found
      rw [← List.append_assoc, walk_concat]
      exact ⟨here ++ above, ih (by simp [parent]), step_name parent proper⟩

theorem isEntryName_of_mem {tree : FileTree} {here : Location} {names : List Text}
    (found : tree.lookup? (here ++ names) ≠ none) : ∀ name ∈ names, isEntryName name = true := by
  induction names using List.reverseRecOn with
  | nil => simp
  | append_singleton above name ih =>
      rw [← List.append_assoc] at found
      obtain ⟨parent, proper⟩ := lookup?_above found
      intro other member
      rcases List.mem_append.mp member with before | last
      · exact ih (by simp [parent]) other before
      · rwa [List.mem_singleton.mp last]

theorem lookup?_setContent (tree : FileTree) (location : Location) (content : Content)
    (other : Location) :
    (tree.setContent location content).lookup? other =
      if other = location then (tree.lookup? other).map (Entry.withContent content)
      else tree.lookup? other := by
  unfold lookup? setContent
  by_cases top : other = []
  · simp [top, Entry.withContent]
  · simp only [if_neg top, List.find?_map, Function.comp_def, Option.map_map]
    cases found : tree.entries.find? fun item => item.1 == other with
    | none => simp
    | some item =>
        have same : item.1 = other := by simpa using List.find?_some found
        by_cases here : other = location <;> simp [same, here]

/-- New content for a file moves nothing. -/
theorem locate_setContent (tree : FileTree) (location : Location) (content : Content)
    (path : Text) : (tree.setContent location content).locate path = tree.locate path := by
  have steps : (tree.setContent location content).step = tree.step := by
    funext here piece
    unfold step
    rw [lookup?_setContent]
    by_cases same : here = location
    · rw [if_pos same]
      rcases tree.lookup? here with _ | (_ | _) <;> rfl
    · rw [if_neg same]
  unfold locate
  rw [steps]
  rfl

end FileTree

end DocComments
