import DocComments.Proofs.Listings

/-! Discovery from a root that is spelled plainly: a dot, or ordinary names. The listing below the
folder that it names is exact and ordered (`discover_exact`). -/

namespace DocComments

namespace Glob

variable {done : List Text} (more : done ≠ []) (proper : ∀ name ∈ done, FilePath.IsName name)

include more proper

theorem next_join (name : Text) : next (FilePath.join done) name = FilePath.join (done ++ [name]) := by
  have noDot : FilePath.join done ≠ ['.'] := by
    intro dot
    have cut := FilePath.pieces_join more fun name member => (proper name member).2.1
    rw [dot] at cut
    obtain rfl : done = [['.']] := cut.symm
    exact (proper ['.'] (by simp)).2.2 (by simp [FilePath.steps])
  have ends : (FilePath.join done).getLast?.any (· ≠ '/') = true := by
    obtain ⟨above, last, rfl⟩ := (List.eq_nil_or_concat done).resolve_left more
    rw [List.concat_eq_append] at proper ⊢
    obtain ⟨named, plain, _⟩ := proper last (by simp)
    obtain ⟨initial, character, rfl⟩ := (List.eq_nil_or_concat last).resolve_left named
    rw [List.concat_eq_append] at plain ⊢
    have other : character ≠ '/' := by
      rintro rfl
      simp at plain
    rcases FilePath.join_concat above (initial ++ [character]) with same | ⟨front, same⟩
    · simp [same, other]
    · rw [same, ← List.cons_append, ← List.append_assoc, List.getLast?_concat]
      simp [other]
  rw [next, if_neg noDot, FilePath.append, if_pos ends, FilePath.join_append more (by simp),
    FilePath.join_singleton]

theorem foldl_next_join {names : List Text} (others : ∀ name ∈ names, FilePath.IsName name) :
    names.foldl next (FilePath.join done) = FilePath.join (done ++ names) := by
  induction names generalizing done with
  | nil => rw [List.foldl_nil, List.append_nil]
  | cons name rest ih =>
      rw [List.forall_mem_cons] at others
      have longer : ∀ own ∈ done ++ [name], FilePath.IsName own := by
        simpa [or_imp, forall_and] using ⟨proper, others.1⟩
      rw [List.foldl_cons, next_join more proper, ih (by simp) longer others.2, List.append_assoc,
        List.singleton_append]

end Glob

namespace FileTree

/-- Every path from the working folder to what stands at a location or below it is short enough for
the system. -/
def InReach (tree : FileTree) (location : Location) : Prop :=
  ∀ below, tree.lookup? (tree.working ++ (location ++ below)) ≠ none →
    (FilePath.join (location ++ below)).byteLength ≤ FilePath.longestPath

theorem inReach_of_entries {tree : FileTree} (short : ∀ item ∈ tree.entries,
    (FilePath.join item.1).byteLength ≤ FilePath.longestPath) (location : Location) :
    tree.InReach location := by
  intro below present
  by_cases top : location ++ below = []
  · rw [top]
    exact Nat.zero_le _
  · obtain ⟨entry, found⟩ := Option.ne_none_iff_exists'.mp present
    have whole := short _ (mem_of_lookup? (List.append_ne_nil_of_right_ne_nil _ top) found)
    by_cases upper : tree.working = []
    · rwa [upper, List.nil_append] at whole
    · rw [FilePath.join_append upper top] at whole
      have part : (FilePath.join (location ++ below)).Sublist
          (FilePath.join tree.working ++ '/' :: FilePath.join (location ++ below)) :=
        (List.sublist_cons_self ..).trans (List.sublist_append_right ..)
      exact (Text.byteLength_le_of_sublist part).trans whole

theorem locate_join {tree : FileTree} {names : List Text} (nonempty : names ≠ [])
    (present : tree.lookup? (tree.working ++ names) ≠ none)
    (short : (FilePath.join names).byteLength ≤ FilePath.longestPath) :
    tree.locate (FilePath.join names) = .ok (tree.working ++ names) := by
  have proper := fun name member => (isEntryName_iff name).mp (isEntryName_of_mem present name member)
  have pieces := FilePath.pieces_join nonempty fun name member => (proper name member).1
  obtain ⟨first, rest, rfl⟩ := List.exists_cons_of_ne_nil nonempty
  have start := proper first (List.mem_cons_self ..)
  rw [locate_eq_ok_iff, destination, origin, FilePath.isAbsolute_join start.2.2.2.1 start.1, pieces]
  refine ⟨⟨?_, short⟩, ?_, walk_names present⟩
  · rw [FilePath.mem_join_iff _ _ (by decide)]
    rintro ⟨name, member, zero⟩
    exact (proper name member).2.1 zero
  · intro empty
    rw [empty] at pieces
    exact start.2.2.2.1 (List.cons.inj pieces).1.symm

end FileTree

namespace Discovery

inductive IsPlainRoot : Text → FileTree.Location → Prop
  | here : IsPlainRoot ['.'] []
  | names {location : FileTree.Location} (nonempty : location ≠ [])
      (proper : ∀ name ∈ location, FilePath.IsName name) :
      IsPlainRoot (FilePath.join location) location

namespace IsPlainRoot

variable {root : Text} {location : FileTree.Location} (plain : IsPlainRoot root location)

include plain

theorem isAbsolute_eq : FilePath.isAbsolute root = false := by
  cases plain with
  | here => rfl
  | names nonempty proper =>
      obtain ⟨first, rest, rfl⟩ := List.exists_cons_of_ne_nil nonempty
      have start := proper first (List.mem_cons_self ..)
      exact FilePath.isAbsolute_join start.1 start.2.1 rest

theorem foldl_next {below : List Text} (more : below ≠ [])
    (proper : ∀ name ∈ below, FilePath.IsName name) :
    below.foldl Glob.next root = FilePath.join (location ++ below) := by
  cases plain with
  | here =>
      obtain ⟨first, rest, rfl⟩ := List.exists_cons_of_ne_nil more
      rw [List.forall_mem_cons] at proper
      have behind : rest.foldl Glob.next (FilePath.join [first]) = FilePath.join ([first] ++ rest) :=
        Glob.foldl_next_join (by simp) (by simpa using proper.1) proper.2
      rw [FilePath.join_singleton] at behind
      exact behind
  | names nonempty names => exact Glob.foldl_next_join nonempty names proper

theorem spelled?_eq : Glob.spelled? ['.'] (FilePath.pieces root) = some root := by
  cases plain with
  | here => rfl
  | names nonempty proper =>
      rw [FilePath.pieces_join nonempty fun name member => (proper name member).2.1,
        Glob.spelled?_eq_some _ fun name member => (proper name member).1]
      exact congrArg some (IsPlainRoot.here.foldl_next nonempty proper)

theorem eq_of_locate {tree : FileTree} {place : FileTree.Location}
    (located : tree.locate root = .ok place) : place = tree.working ++ location := by
  obtain ⟨_, _, walked⟩ := (FileTree.locate_eq_ok_iff ..).mp located
  cases plain with
  | here =>
      rw [FileTree.destination_dot] at walked
      rw [List.append_nil]
      exact (Except.ok.inj walked).symm
  | names nonempty proper =>
      rw [FileTree.destination, FileTree.origin, (IsPlainRoot.names nonempty proper).isAbsolute_eq,
        FilePath.pieces_join nonempty fun name member => (proper name member).2.1] at walked
      exact FileTree.eq_of_walk_names proper walked

theorem locate_eq {tree : FileTree} (reach : tree.InReach location)
    (present : tree.lookup? (tree.working ++ location) ≠ none) :
    tree.locate root = .ok (tree.working ++ location) := by
  cases plain with
  | here =>
      rw [FileTree.locate_eq_ok_iff, FileTree.destination_dot, List.append_nil]
      exact ⟨⟨by decide, by decide⟩, by simp, rfl⟩
  | names nonempty proper =>
      have short := reach [] (by rwa [List.append_nil])
      rw [List.append_nil] at short
      exact FileTree.locate_join nonempty present short

theorem discover_eq {tree : FileTree} (reach : tree.InReach location) :
    discover tree root =
      if tree.isFolder (tree.working ++ location) then .ok (inOrder (tree.sourcesAt root))
      else .error (.notFolder root) := by
  rw [FileTree.discover_eq]
  by_cases inside : tree.isFolder (tree.working ++ location)
  · have folder := (tree.isFolder_iff _).mp inside
    have located := plain.locate_eq reach (by simp [folder])
    have path : tree.rootPath? root = some root := by
      have walked := FileTree.follow?_below located folder ".cs".toList
      rw [Glob.Pattern.below, if_neg (by simp [plain.isAbsolute_eq]), plain.spelled?_eq] at walked
      rwa [FileTree.rootPath?, Glob.Pattern.below, if_neg (by simp [plain.isAbsolute_eq])]
    rw [if_pos ((FileTree.isFolderAt_eq_true_iff ..).mpr ⟨_, located, folder⟩), if_pos inside, path]
    rfl
  · rw [if_neg inside, if_neg]
    rw [FileTree.isFolderAt_eq_true_iff]
    rintro ⟨place, located, folder⟩
    obtain rfl := plain.eq_of_locate located
    exact inside ((tree.isFolder_iff _).mpr folder)

end IsPlainRoot

/-- A listing of the source files below a folder: all of them and nothing else, each once, and in the
order of the names on the way to them. The folder is named from the working folder on. -/
structure IsExact (tree : FileTree) (folder : FileTree.Location) (paths : List Text) : Prop where
  mem_iff (path : Text) : path ∈ paths ↔ ∃ above name content refusal,
    tree.lookup? (tree.working ++ (folder ++ above ++ [name])) = some (.file content refusal) ∧
      IsSourceName name ∧ path = FilePath.join (folder ++ above ++ [name])
  nodup : paths.Nodup
  ordered : paths.Pairwise fun first second =>
    FilePath.components first < FilePath.components second

theorem mem_sourcesAt_iff {tree : FileTree} {root : Text} {location : FileTree.Location}
    (plain : IsPlainRoot root location) (reach : tree.InReach location)
    (located : tree.locate root = .ok (tree.working ++ location)) (path : Text) :
    path ∈ tree.sourcesAt root ↔ ∃ above name content refusal,
      tree.lookup? (tree.working ++ (location ++ above ++ [name])) = some (.file content refusal) ∧
        IsSourceName name ∧ path = FilePath.join (location ++ above ++ [name]) := by
  have named (above : List Text) {name : Text} (proper : FilePath.IsName name) :
      IsSourceName name ↔ ".cs".toList <:+ name ∧
        ¬FilePath.isGenerated (FilePath.join (location ++ above ++ [name])) = true :=
    isSourceName_iff (FilePath.lastPiece?_join_concat (location ++ above) proper.2.1)
  constructor
  · intro member
    obtain ⟨⟨below, inside, source, rfl⟩, isFile, written⟩ :=
      (FileTree.mem_sourcesAt_iff located path).mp member
    have proper := FileTree.isName_of_mem_entriesBelow inside
    obtain ⟨above, name, rfl, ending⟩ := hasEnding_iff.mp source
    obtain ⟨content, read⟩ := FileTree.leadsTo_of_isFileAt located inside isFile
    obtain ⟨_, refusal, found⟩ := (FileTree.fileAt_eq_ok_iff ..).mp read
    rw [plain.foldl_next (by simp) proper, ← List.append_assoc] at written ⊢
    rw [List.append_assoc, ← List.append_assoc location] at found
    exact ⟨above, name, content, refusal, found,
      (named above (proper name (by simp))).mpr ⟨ending, written⟩, rfl⟩
  · rintro ⟨above, name, content, refusal, found, written, rfl⟩
    have present : tree.lookup? (tree.working ++ location ++ (above ++ [name])) ≠ none := by
      simp only [List.append_assoc] at found ⊢
      simp [found]
    have inside := (FileTree.mem_entriesBelow_iff ..).mpr ⟨by simp, present⟩
    have proper := FileTree.isName_of_mem_entriesBelow inside
    have spelling := plain.foldl_next (by simp) proper
    rw [← List.append_assoc] at spelling
    obtain ⟨ending, notGenerated⟩ := (named above (proper name (by simp))).mp written
    have short := reach (above ++ [name]) (by rwa [List.append_assoc] at present)
    rw [← List.append_assoc] at short
    have there : tree.locate _ = .ok _ :=
      FileTree.locate_join (by simp) (found ▸ Option.some_ne_none _) short
    rw [FileTree.mem_sourcesAt_iff located]
    refine ⟨⟨above ++ [name], inside, hasEnding_iff.mpr ⟨above, name, rfl, ending⟩, spelling⟩, ?_,
      notGenerated⟩
    rw [FileTree.isFileAt_eq_true_iff]
    exact ⟨_, content, (FileTree.fileAt_eq_ok_iff ..).mpr ⟨there, refusal, found⟩⟩

/-- Discovery fails for a root that is no folder, and for no other. The listing below a folder has the
hidden files too, but no folder with the name of a source file. -/
theorem discover_exact {tree : FileTree} {root : Text} {location : FileTree.Location}
    (plain : IsPlainRoot root location) (reach : tree.InReach location) :
    ((∃ failure, discover tree root = .error failure) ↔
        tree.lookup? (tree.working ++ location) ≠ some .folder) ∧
      (tree.lookup? (tree.working ++ location) = some .folder →
        ∃ paths, discover tree root = .ok paths ∧ IsExact tree location paths) := by
  rw [plain.discover_eq reach]
  constructor
  · rw [ne_eq, ← FileTree.isFolder_iff]
    split
    · next folder => simp [folder]
    · next missing => simp [missing]
  · intro folder
    rw [if_pos ((tree.isFolder_iff _).mpr folder)]
    have located := plain.locate_eq reach (by simp [folder])
    have distinct := FileTree.nodup_components_sourcesAt located
    refine ⟨_, rfl, fun path => ?_, nodup_inOrder distinct, pairwise_inOrder distinct⟩
    rw [mem_inOrder distinct, mem_sourcesAt_iff plain reach located]

def markedFolder : FileTree :=
  (FileTree.empty.write "src/x.cs/.b.cs".toList (.text [])).write "src/App.g.İ.cs".toList (.text [])

theorem discover_exact_markedFolder :
    IsPlainRoot "src".toList ["src".toList] ∧ markedFolder.InReach ["src".toList] ∧
      markedFolder.lookup? ["work".toList, "src".toList] = some .folder ∧
      ∃ paths, discover markedFolder "src".toList = .ok paths ∧
        IsExact markedFolder ["src".toList] paths ∧
        "src/App.g.İ.cs".toList ∈ paths ∧ "src/x.cs/.b.cs".toList ∈ paths := by
  have plain : IsPlainRoot (FilePath.join ["src".toList]) ["src".toList] :=
    .names (by simp) (by decide)
  have reach : markedFolder.InReach ["src".toList] :=
    FileTree.inReach_of_entries (by decide +kernel) _
  have folder : markedFolder.lookup? ["work".toList, "src".toList] = some .folder := by rfl
  refine ⟨plain, reach, folder, ?_⟩
  obtain ⟨paths, listed, exact⟩ := (discover_exact plain reach).2 folder
  refine ⟨paths, listed, exact, ?_, ?_⟩
  · exact (exact.mem_iff _).mpr ⟨[], "App.g.İ.cs".toList, .text [], none, by rfl, by decide, by decide⟩
  · exact (exact.mem_iff _).mpr
      ⟨["x.cs".toList], ".b.cs".toList, .text [], none, by rfl, by decide, by decide⟩

end Discovery

end DocComments
