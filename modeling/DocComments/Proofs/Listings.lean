import DocComments.Proofs.RootNames
import DocComments.Proofs.SourceFiles
import Mathlib.Data.List.Nodup

/-! The files that discovery lists. A listed path goes to a folder by the spelling of the root and
on to a file below it (`leadsTo_of_discover`), and no two listed paths lead to one file
(`separate_of_discover`). -/

namespace DocComments

namespace Glob

def shown (path : Text) : List Text := if path = ['.'] then [] else FilePath.components path

theorem shown_next {path name : Text} (nonempty : path ≠ []) (proper : FilePath.IsName name) :
    shown (next path name) = shown path ++ [name] := by
  obtain ⟨named, plain, noStep⟩ := proper
  simp only [FilePath.steps, List.mem_cons, List.not_mem_nil, or_false, not_or] at noStep
  by_cases dot : path = ['.']
  · have alone : FilePath.components (FilePath.join [name]) = [name] := FilePath.components_join
      (by simp) (by simpa [FilePath.IsName, FilePath.steps, noStep] using ⟨named, plain⟩)
    rw [FilePath.join_singleton] at alone
    rw [dot, next, if_pos rfl, shown, if_neg noStep.1, alone, shown, if_pos rfl, List.nil_append]
  · obtain ⟨above, trail, cut, empty, further⟩ := FilePath.pieces_append path nonempty plain
    have other : FilePath.append path name ≠ ['.'] := by
      intro dot
      rw [dot] at further
      have last := (List.append_inj' (show [] ++ [['.']] = above ++ [name] from further) rfl).2
      exact noStep.1 (by simpa using last.symm)
    rw [next, if_neg dot, shown, if_neg other, shown, if_neg dot]
    cases above with
    | nil =>
        rcases empty with rfl | rfl
        · exact absurd cut (List.splitOnP_ne_nil _ _)
        · rw [← FilePath.join_pieces path, cut] at nonempty
          exact absurd rfl nonempty
    | cons first rest =>
        have whole : first = [] → rest ++ trail ≠ [] := by
          rintro rfl nothing
          rw [← FilePath.join_pieces path, cut, List.cons_append, nothing] at nonempty
          exact nonempty rfl
        -- A slash at the end of the path leaves an empty piece, which is no component.
        have trailing : trail.filter (fun piece => piece ≠ [] ∧ piece ≠ ['.']) = [] := by
          rcases empty with rfl | rfl <;> simp
        unfold FilePath.components
        rw [cut, further]
        simp only [List.cons_append, List.filter_append, trailing]
        by_cases root : first = []
        · rw [if_neg (not_not_intro root), if_neg (not_not_intro root), if_pos (whole root),
            if_pos (by simp)]
          simp [named, noStep]
        · simp [named, noStep, root]

theorem components_foldl_next {path : Text} {below : List Text} (nonempty : path ≠ [])
    (more : below ≠ []) (proper : ∀ name ∈ below, FilePath.IsName name) :
    FilePath.components (below.foldl next path) = shown path ++ below := by
  have whole : shown (below.foldl next path) = shown path ++ below := by
    clear more
    induction below generalizing path with
    | nil => simp
    | cons name rest ih =>
        rw [List.forall_mem_cons] at proper
        rw [List.foldl_cons, ih (next_ne_nil proper.1.1) proper.2, shown_next nonempty proper.1,
          List.append_assoc, List.singleton_append]
  rw [← whole, shown, if_neg]
  intro dot
  rw [dot, shown, if_pos rfl] at whole
  exact more (List.append_eq_nil_iff.mp whole.symm).2

end Glob

namespace FileTree

def LeadsTo (tree : FileTree) (path : Text) (location : Location) : Prop :=
  ∃ content, tree.fileAt path = .ok (location, content)

theorem LeadsTo.unique {tree : FileTree} {path : Text} {first second : Location}
    (one : tree.LeadsTo path first) (other : tree.LeadsTo path second) : first = second := by
  obtain ⟨_, one⟩ := one
  obtain ⟨_, other⟩ := other
  rw [one] at other
  exact (Prod.mk.inj (Except.ok.inj other)).1

def AreSeparate (tree : FileTree) (first second : Text) : Prop :=
  ∀ location, tree.LeadsTo first location → ¬tree.LeadsTo second location

theorem AreSeparate.symm {tree : FileTree} {first second : Text}
    (apart : tree.AreSeparate first second) : tree.AreSeparate second first :=
  fun location other one => apart location one other

def below? (folder location : Location) : Option Location :=
  if folder.isPrefixOf location && location ≠ folder then some (location.drop folder.length)
  else none

theorem entriesBelow_eq (tree : FileTree) (folder : Location) :
    tree.entriesBelow folder = (tree.entries.map Prod.fst).filterMap (below? folder) := rfl

theorem below?_eq_some_iff (folder below location : Location) :
    below? folder location = some below ↔ below ≠ [] ∧ location = folder ++ below := by
  simp only [below?, Option.ite_none_right_eq_some, Bool.and_eq_true, List.isPrefixOf_iff_prefix,
    decide_eq_true_eq, Option.some.injEq]
  constructor
  · rintro ⟨⟨⟨rest, rfl⟩, other⟩, rfl⟩
    rw [List.drop_left]
    exact ⟨by rintro rfl; simp at other, rfl⟩
  · rintro ⟨more, rfl⟩
    exact ⟨⟨List.prefix_append _ _, by simp [more]⟩, List.drop_left⟩

theorem mem_entriesBelow_iff (tree : FileTree) (folder below : Location) :
    below ∈ tree.entriesBelow folder ↔ below ≠ [] ∧ tree.lookup? (folder ++ below) ≠ none := by
  rw [entriesBelow_eq, List.mem_filterMap, ne_eq (tree.lookup? _), lookup?_eq_none_iff]
  constructor
  · rintro ⟨location, member, found⟩
    obtain ⟨more, rfl⟩ := (below?_eq_some_iff ..).mp found
    exact ⟨more, fun absent => absent.2 member⟩
  · rintro ⟨more, present⟩
    rw [not_and_not_right] at present
    exact ⟨folder ++ below, present (by simp [more]), (below?_eq_some_iff ..).mpr ⟨more, rfl⟩⟩

theorem nodup_entriesBelow (tree : FileTree) (folder : Location) :
    (tree.entriesBelow folder).Nodup := by
  rw [entriesBelow_eq, List.Nodup, List.pairwise_filterMap]
  refine tree.distinct.imp fun {first second} apart left leftFound right rightFound => ?_
  obtain ⟨_, rfl⟩ := (below?_eq_some_iff ..).mp leftFound
  obtain ⟨_, rfl⟩ := (below?_eq_some_iff ..).mp rightFound
  rintro rfl
  exact apart rfl

theorem isName_of_mem_entriesBelow {tree : FileTree} {folder below : Location}
    (member : below ∈ tree.entriesBelow folder) : ∀ name ∈ below, FilePath.IsName name := by
  intro name inside
  have present := ((mem_entriesBelow_iff ..).mp member).2
  exact isName_of_isEntryName (isEntryName_of_mem present name inside)

theorem locate_foldl_next {tree : FileTree} {path : Text} {folder below place : Location}
    (start : tree.locate path = .ok folder) (member : below ∈ tree.entriesBelow folder)
    (located : tree.locate (below.foldl Glob.next path) = .ok place) : place = folder ++ below := by
  obtain ⟨_, nonempty, start⟩ := (locate_eq_ok_iff ..).mp start
  obtain ⟨_, _, walked⟩ := (locate_eq_ok_iff ..).mp located
  have proper := isName_of_mem_entriesBelow member
  have spelled := Glob.spelled?_eq_some path fun name member => (proper name member).1
  obtain ⟨here, reached, walked⟩ := (destination_of_spelled? nonempty
    (fun name member => (proper name member).2.1) spelled place).mp walked
  rw [start] at reached
  obtain rfl := Except.ok.inj reached
  exact eq_of_walk_names proper walked

def rootPath? (tree : FileTree) (root : Text) : Option Text :=
  let pattern := Glob.Pattern.below root ".cs".toList
  tree.follow? pattern.scope pattern.names

def sourcesAt (tree : FileTree) (path : Text) : List Text :=
  let below := (tree.entriesAt path).filter (Glob.hasEnding ".cs".toList)
  (below.map fun location => location.foldl Glob.next path).filter fun path =>
    tree.isFileAt path && !FilePath.isGenerated path

theorem run_filesAmong (tree : FileTree) (paths : List Text) :
    (Discovery.filesAmong system paths).run tree =
      pure (paths.filter fun path => tree.isFileAt path && !FilePath.isGenerated path, tree) := by
  induction paths with
  | nil => rfl
  | cons path rest ih =>
      cases file : tree.isFileAt path <;> cases generated : FilePath.isGenerated path <;>
        simp [Discovery.filesAmong, ih, file, generated]

theorem run_entries (tree : FileTree) (root : Text) :
    (Glob.entries system (.below root ".cs".toList)).run tree =
      pure ((tree.rootPath? root).elim [] fun path =>
        ((tree.entriesAt path).filter (Glob.hasEnding ".cs".toList)).map
          fun location => location.foldl Glob.next path, tree) := by
  have names : (Glob.Pattern.below root ".cs".toList).ending = ".cs".toList := by
    unfold Glob.Pattern.below
    split <;> rfl
  simp only [Glob.entries, StateT.run_bind, run_follow, pure_bind, names]
  unfold rootPath?
  cases tree.follow? _ _ <;> simp

theorem run_discover (tree : FileTree) (root : Text) :
    (system.discover root).run tree =
      pure (if tree.isFolderAt root then
        .ok (Discovery.inOrder ((tree.rootPath? root).elim [] tree.sourcesAt))
      else .error (.notFolder root), tree) := by
  cases folder : tree.isFolderAt root
  · simp [FileSystem.discover, folder]
  · simp only [FileSystem.discover, StateT.run_bind, run_isFolder, pure_bind, folder, ↓reduceIte,
      run_entries, run_filesAmong, StateT.run_pure]
    cases tree.rootPath? root <;> rfl

theorem discover_eq (tree : FileTree) (root : Text) :
    discover tree root =
      if tree.isFolderAt root then
        .ok (Discovery.inOrder ((tree.rootPath? root).elim [] tree.sourcesAt))
      else .error (.notFolder root) := by
  rw [discover, run_discover]
  rfl

section Sources

variable {tree : FileTree} {path : Text} {folder : Location}
  (located : tree.locate path = .ok folder)

include located

theorem entriesAt_eq : tree.entriesAt path = tree.entriesBelow folder := by
  rw [entriesAt, located]

theorem mem_sourcesAt_iff (file : Text) :
    file ∈ tree.sourcesAt path ↔
      (∃ below ∈ tree.entriesBelow folder, Glob.hasEnding ".cs".toList below = true ∧
        below.foldl Glob.next path = file) ∧
      tree.isFileAt file = true ∧ ¬FilePath.isGenerated file = true := by
  simp only [sourcesAt, entriesAt_eq located, List.mem_filter, List.mem_map, Bool.and_eq_true,
    Bool.not_eq_true', Bool.not_eq_true, and_assoc]

theorem leadsTo_of_isFileAt {below : Location} (inside : below ∈ tree.entriesBelow folder)
    (isFile : tree.isFileAt (below.foldl Glob.next path) = true) :
    tree.LeadsTo (below.foldl Glob.next path) (folder ++ below) := by
  obtain ⟨location, content, read⟩ := (isFileAt_eq_true_iff ..).mp isFile
  obtain rfl := locate_foldl_next located inside ((fileAt_eq_ok_iff ..).mp read).1
  exact ⟨content, read⟩

theorem nodup_components_sourcesAt :
    ((tree.sourcesAt path).map FilePath.components).Nodup := by
  have nonempty := ((locate_eq_ok_iff ..).mp located).2.1
  refine List.Nodup.sublist (List.filter_sublist.map _) ?_
  rw [List.map_map, entriesAt_eq located]
  refine ((tree.nodup_entriesBelow folder).filter _).map_on fun left inLeft right inRight same => ?_
  have components {below : Location} (member : below ∈ tree.entriesBelow folder) :=
    Glob.components_foldl_next nonempty ((mem_entriesBelow_iff ..).mp member).1
      (isName_of_mem_entriesBelow member)
  rw [Function.comp_apply, Function.comp_apply, components (List.mem_filter.mp inLeft).1,
    components (List.mem_filter.mp inRight).1] at same
  exact List.append_cancel_left same

end Sources

theorem sourcesAt_of_error {tree : FileTree} {path : Text} {fault : Fault}
    (lost : tree.locate path = .error fault) : tree.sourcesAt path = [] := by
  rw [sourcesAt, entriesAt, lost]
  rfl

/-- Only the files below the folder where the spelling of the root leads are listed. -/
theorem sourcesAt_of_discover {tree : FileTree} {root : Text} {paths : List Text}
    (listed : discover tree root = .ok paths) (nonempty : paths ≠ []) :
    ∃ path folder, tree.locate path = .ok folder ∧
      paths = Discovery.inOrder (tree.sourcesAt path) := by
  rw [discover_eq] at listed
  split at listed
  · obtain rfl := Except.ok.inj listed
    cases ended : tree.rootPath? root with
    | none =>
        rw [ended] at nonempty
        exact absurd Discovery.inOrder_nil nonempty
    | some path =>
        cases located : tree.locate path with
        | ok folder => exact ⟨path, folder, located, rfl⟩
        | error fault =>
            rw [ended, Option.elim_some, sourcesAt_of_error located] at nonempty
            exact absurd Discovery.inOrder_nil nonempty
  · cases listed

theorem leadsTo_of_discover {tree : FileTree} {root : Text} {paths : List Text}
    (listed : discover tree root = .ok paths) : ∃ path folder, ∀ file ∈ paths, ∃ below,
      file = below.foldl Glob.next path ∧ tree.LeadsTo file (folder ++ below) := by
  by_cases empty : paths = []
  · exact ⟨[], [], by simp [empty]⟩
  · obtain ⟨path, folder, located, rfl⟩ := sourcesAt_of_discover listed empty
    refine ⟨path, folder, fun file member => ?_⟩
    rw [Discovery.mem_inOrder (nodup_components_sourcesAt located),
      mem_sourcesAt_iff located] at member
    obtain ⟨⟨below, inside, _, rfl⟩, isFile, _⟩ := member
    exact ⟨below, rfl, leadsTo_of_isFileAt located inside isFile⟩

end FileTree

end DocComments
