import DocComments.Proofs.Listings

/-! A slash behind the root of a discovery. It leads to the same folder (`locate_slash`) and,
behind a root with a name or a parent step in it, changes no path that is listed
(`rootPath?_slash`); behind dots alone it leaves nothing to follow (`discover_slash_iff`). -/

namespace DocComments

namespace FilePath

theorem pieces_slash (path : Text) : pieces (path ++ ['/']) = pieces path ++ [[]] :=
  pieces_append_slash path []

theorem isAbsolute_slash {path : Text} (nonempty : path ≠ []) :
    isAbsolute (path ++ ['/']) = isAbsolute path :=
  isAbsolute_of_prefix (List.prefix_append ..) nonempty

end FilePath

namespace Glob

theorem names_below_slash {root : Text} (nonempty : root ≠ []) (ending : Text) :
    (Pattern.below (root ++ ['/']) ending).scope = (Pattern.below root ending).scope ∧
      (Pattern.below (root ++ ['/']) ending).names = (Pattern.below root ending).names ++ [[]] := by
  have pieces : FilePath.pieces root ≠ [] := List.splitOnP_ne_nil _ _
  unfold Pattern.below
  rw [FilePath.isAbsolute_slash nonempty, FilePath.pieces_slash]
  split
  · exact ⟨rfl, List.tail_append_of_ne_nil pieces⟩
  · exact ⟨rfl, rfl⟩

theorem spelled?_append (path : Text) (above below : List Text) :
    spelled? path (above ++ below) = (spelled? path above).bind fun further => spelled? further below := by
  induction above generalizing path with
  | nil => rfl
  | cons name rest ih =>
      rw [List.cons_append, spelled?, spelled?]
      split
      · rfl
      · exact ih _

theorem spelled?_slash {root : Text} (nonempty : root ≠ []) (ending : Text) :
    spelled? (Pattern.below (root ++ ['/']) ending).scope (Pattern.below (root ++ ['/']) ending).names =
      (spelled? (Pattern.below root ending).scope (Pattern.below root ending).names).bind fun path =>
        if next path [] = [] then none else some (next path []) := by
  obtain ⟨scope, names⟩ := names_below_slash nonempty ending
  rw [scope, names, spelled?_append]
  rfl

theorem next_eq_dot_iff {path : Text} (nonempty : path ≠ []) (name : Text) :
    next path name = ['.'] ↔ path = ['.'] ∧ name = ['.'] := by
  unfold next
  split
  · next dot => simp [dot]
  · next other =>
      refine iff_of_false ?_ fun both => other both.1
      intro dot
      have front := FilePath.prefix_append path name
      rw [dot, List.prefix_cons_iff] at front
      obtain empty | ⟨rest, rfl, front⟩ := front
      · exact nonempty empty
      · exact other (by rw [List.prefix_nil.mp front])

theorem spelled?_eq_dot_iff {path : Text} (nonempty : path ≠ []) (names : List Text) :
    spelled? path names = some ['.'] ↔ path = ['.'] ∧ ∀ name ∈ names, name = ['.'] := by
  induction names generalizing path with
  | nil => simp [spelled?]
  | cons name rest ih =>
      rw [spelled?, List.forall_mem_cons, ← and_assoc, ← next_eq_dot_iff nonempty]
      split
      · next empty => simp [empty]
      · next further => exact ih further

theorem ne_nil_of_spelled? {path last : Text} {names : List Text} (nonempty : path ≠ [])
    (spelled : spelled? path names = some last) : last ≠ [] := by
  induction names generalizing path with
  | nil => exact Option.some.inj spelled ▸ nonempty
  | cons name rest ih =>
      rw [Glob.spelled?] at spelled
      split at spelled
      · cases spelled
      · next further => exact ih further spelled

/-- What a path is written with, and a slash behind it, is in the names that lead there. -/
theorem sublist_of_spelled? {path last : Text} {names : List Text}
    (spelled : spelled? path names = some last) :
    (next last []).Sublist (next path [] ++ FilePath.join (names ++ [[]])) := by
  induction names generalizing path with
  | nil =>
      obtain rfl := Option.some.inj spelled
      exact List.sublist_append_left _ _
  | cons name rest ih =>
      rw [Glob.spelled?] at spelled
      split at spelled
      · cases spelled
      · rw [List.cons_append, next_cons_join (by simp)]
        exact (ih spelled).trans ((next_nil_sublist _).append_right _)

theorem next_nil_ne_nil {path : Text} (nonempty : path ≠ []) (other : path ≠ ['.']) :
    next path [] ≠ [] := by
  rw [next, if_neg other]
  exact fun empty => nonempty (List.prefix_nil.mp (empty ▸ FilePath.prefix_append path []))

/-- An empty name puts a slash behind a path that is no dot, and the paths below it stay the same. -/
theorem next_next_nil {path : Text} (nonempty : path ≠ []) (other : path ≠ ['.']) (name : Text) :
    next (next path []) name = next path name := by
  have ends : (FilePath.append path []).getLast? = some '/' := by
    unfold FilePath.append
    split
    · simp
    · next slash =>
        obtain ⟨front, last, rfl⟩ := (List.eq_nil_or_concat path).resolve_left nonempty
        simpa using slash
  have noDot : next path [] ≠ ['.'] := by
    rw [ne_eq, next_eq_dot_iff nonempty]
    exact fun both => other both.1
  rw [next, if_neg noDot, next_eq path name, next, if_neg other, FilePath.append, if_neg (by simp [ends])]

end Glob

namespace FileTree

variable {tree : FileTree} {root : Text}

def LeadsToFolder (tree : FileTree) (path : Text) : Prop :=
  ∃ location, tree.locate path = .ok location ∧ tree.lookup? location = some .folder

def HaveSameFiles (tree : FileTree) (left right : List Text) : Prop :=
  ∀ location, (∃ path ∈ left, tree.LeadsTo path location) ↔ ∃ path ∈ right, tree.LeadsTo path location

theorem isTaken_slash (taken : FilePath.IsTaken root) :
    FilePath.IsTaken (root ++ ['/']) ↔ root.byteLength < FilePath.longestPath := by
  have one : Text.byteLength ['/'] = 1 := by decide
  have zero : '\x00' ∉ root ++ ['/'] := by simp [taken.1]
  rw [FilePath.IsTaken, Text.byteLength_append, one]
  constructor
  · exact fun longer => longer.2
  · exact fun short => ⟨zero, short⟩

theorem locate_slash (folder : tree.LeadsToFolder root)
    (short : root.byteLength < FilePath.longestPath) :
    tree.locate (root ++ ['/']) = tree.locate root := by
  obtain ⟨place, located, inside⟩ := folder
  obtain ⟨taken, nonempty, walked⟩ := (locate_eq_ok_iff ..).mp located
  have start : tree.origin (root ++ ['/']) = tree.origin root := by
    rw [origin, origin, FilePath.isAbsolute_slash nonempty]
  rw [located, locate_eq_ok_iff, isTaken_slash taken, destination, start, FilePath.pieces_slash,
    walk_concat]
  exact ⟨short, by simp, place, walked, (step_nil_eq_ok_iff ..).mpr ⟨inside, rfl⟩⟩

theorem sourcesAt_next_nil {path : Text} {place : Location} (nonempty : path ≠ [])
    (other : path ≠ ['.']) (taken : FilePath.IsTaken (Glob.next path []))
    (reached : tree.destination path = .ok place) (folder : tree.lookup? place = some .folder) :
    tree.sourcesAt (Glob.next path []) = tree.sourcesAt path := by
  have further := Glob.next_next_nil nonempty other
  have here : tree.locate path = .ok place :=
    (locate_eq_ok_iff ..).mpr ⟨Glob.isTaken_of_next taken, nonempty, reached⟩
  have there : tree.locate (Glob.next path []) = .ok place := by
    rw [locate_eq_ok_iff, destination_next nonempty (by simp)]
    exact ⟨taken, Glob.next_nil_ne_nil nonempty other, place, reached,
      (step_nil_eq_ok_iff ..).mpr ⟨folder, rfl⟩⟩
  unfold sourcesAt
  rw [entriesAt_eq here, entriesAt_eq there]
  dsimp only
  congr 1
  apply List.map_congr_left
  intro below member
  have inside := (mem_entriesBelow_iff ..).mp (List.mem_filter.mp member).1
  obtain ⟨first, rest, rfl⟩ := List.exists_cons_of_ne_nil inside.1
  rw [List.foldl_cons, List.foldl_cons, further]

theorem rootPath?_eq (folder : tree.LeadsToFolder root) :
    tree.rootPath? root =
      Glob.spelled? (Glob.Pattern.below root ".cs".toList).scope
        (Glob.Pattern.below root ".cs".toList).names := by
  obtain ⟨place, located, inside⟩ := folder
  exact follow?_below located inside _

section Slash

variable (folder : tree.LeadsToFolder root) (short : root.byteLength < FilePath.longestPath)

include folder short

theorem leadsToFolder_slash : tree.LeadsToFolder (root ++ ['/']) := by
  obtain ⟨place, located, inside⟩ := folder
  exact ⟨place, (locate_slash ⟨place, located, inside⟩ short).trans located, inside⟩

theorem rootPath?_slash :
    tree.rootPath? (root ++ ['/']) = (tree.rootPath? root).bind fun path =>
      if Glob.next path [] = [] then none else some (Glob.next path []) := by
  obtain ⟨place, located, inside⟩ := folder
  have nonempty := ((locate_eq_ok_iff ..).mp located).2.1
  rw [rootPath?_eq ⟨place, located, inside⟩,
    rootPath?_eq (leadsToFolder_slash ⟨place, located, inside⟩ short), Glob.spelled?_slash nonempty]

/-- The walk below a root may as well end with a slash, unless it ends at a dot. -/
theorem sourcesAt_slash {path : Text} (ended : tree.rootPath? root = some path)
    (other : path ≠ ['.']) :
    (tree.rootPath? (root ++ ['/'])).elim [] tree.sourcesAt = tree.sourcesAt path := by
  have spelled := (rootPath?_eq folder).symm.trans ended
  have whole := leadsToFolder_slash folder short
  rw [rootPath?_slash folder short, ended, Option.bind_some]
  obtain ⟨place, located, inside⟩ := folder
  obtain ⟨_, more, reached⟩ := (locate_eq_ok_iff ..).mp located
  have taken : FilePath.IsTaken (root ++ ['/']) := by
    obtain ⟨_, again, _⟩ := whole
    exact ((locate_eq_ok_iff ..).mp again).1
  have written := Glob.next_scope_append_join (root ++ ['/']) ".cs".toList
  rw [(Glob.names_below_slash more _).1, (Glob.names_below_slash more _).2] at written
  have nonempty := Glob.ne_nil_of_spelled? (Glob.scope_ne_nil root _) spelled
  rw [if_neg (Glob.next_nil_ne_nil nonempty other)]
  refine sourcesAt_next_nil nonempty other ?_ ?_ inside
  · exact (written.symm ▸ taken).sublist (Glob.sublist_of_spelled? spelled)
  · rw [destination_of_spelled? (Glob.scope_ne_nil root _) (Glob.slash_not_mem_names root _) spelled]
    exact (destination_eq_ok_iff ..).mp reached

end Slash

end FileTree

namespace Discovery

/-- A root that has dots alone between its slashes, and so names the working folder. -/
def IsDots (root : Text) : Prop := ∀ piece ∈ FilePath.pieces root, piece = ['.']

instance (root : Text) : Decidable (IsDots root) :=
  inferInstanceAs (Decidable (∀ piece ∈ FilePath.pieces root, piece = ['.']))

theorem isDots_iff {tree : FileTree} {root : Text} (folder : tree.LeadsToFolder root) :
    IsDots root ↔ tree.rootPath? root = some ['.'] := by
  rw [FileTree.rootPath?_eq folder, Glob.spelled?_eq_dot_iff (Glob.scope_ne_nil root _)]
  rcases Glob.below_cases root ".cs".toList with ⟨rest, rfl, same⟩ | ⟨_, same⟩
  · rw [same, IsDots, FilePath.pieces_cons_slash]
    simp
  · rw [same]
    simp [IsDots]

theorem haveSameFiles_nil_iff {tree : FileTree} {root : Text} {paths : List Text}
    (listed : discover tree root = .ok paths) : tree.HaveSameFiles [] paths ↔ paths = [] := by
  constructor
  · intro same
    obtain ⟨path, folder, leads⟩ := FileTree.leadsTo_of_discover listed
    rw [List.eq_nil_iff_forall_not_mem]
    intro file member
    obtain ⟨below, _, own⟩ := leads file member
    obtain ⟨other, absent, _⟩ := (same (folder ++ below)).mpr ⟨file, member, own⟩
    cases absent
  · rintro rfl location
    exact Iff.rfl

theorem discover_of_leadsToFolder {tree : FileTree} {root : Text} (folder : tree.LeadsToFolder root) :
    discover tree root = .ok (inOrder ((tree.rootPath? root).elim [] tree.sourcesAt)) := by
  rw [FileTree.discover_eq, if_pos ((FileTree.isFolderAt_eq_true_iff ..).mpr folder)]

/-- A root and the same root with a slash behind it list the same files, unless the slash makes the
root too long, or the root is made of dots alone and has files to list. -/
theorem discover_slash_iff {tree : FileTree} {root : Text} (folder : tree.LeadsToFolder root) :
    ∃ paths, discover tree root = .ok paths ∧
      ((∃ others, discover tree (root ++ ['/']) = .ok others ∧ tree.HaveSameFiles others paths) ↔
        root.byteLength < FilePath.longestPath ∧ (IsDots root → paths = [])) := by
  have listed := discover_of_leadsToFolder folder
  refine ⟨_, listed, ?_⟩
  by_cases short : root.byteLength < FilePath.longestPath
  · have again := discover_of_leadsToFolder (FileTree.leadsToFolder_slash folder short)
    simp only [again, Except.ok.injEq, exists_eq_left', short, true_and]
    cases ended : tree.rootPath? root with
    | none =>
        have lost := FileTree.rootPath?_slash folder short
        rw [ended, Option.bind_none] at lost
        simp only [lost, Option.elim_none, inOrder_nil, implies_true, iff_true]
        exact fun location => Iff.rfl
    | some path =>
        by_cases dot : path = ['.']
        · have dots := (isDots_iff folder).mpr (dot ▸ ended)
          have lost := FileTree.rootPath?_slash folder short
          rw [ended, dot, Option.bind_some, if_pos (by rfl)] at lost
          rw [lost, Option.elim_none, inOrder_nil, ← ended, haveSameFiles_nil_iff listed]
          exact ⟨fun none _ => none, fun none => none dots⟩
        · have named : ¬IsDots root := by
            rw [isDots_iff folder, ended, Option.some.injEq]
            exact dot
          rw [FileTree.sourcesAt_slash folder short ended dot]
          exact ⟨fun _ own => absurd own named, fun _ location => Iff.rfl⟩
  · have failed : discover tree (root ++ ['/']) = .error (.notFolder (root ++ ['/'])) := by
      rw [FileTree.discover_eq, if_neg]
      rw [FileTree.isFolderAt_eq_true_iff]
      rintro ⟨place, located, _⟩
      obtain ⟨_, own, _⟩ := folder
      have taken := ((FileTree.locate_eq_ok_iff ..).mp own).1
      exact short ((FileTree.isTaken_slash taken).mp ((FileTree.locate_eq_ok_iff ..).mp located).1)
    simp [failed, short]

def sourceFolder : FileTree := FileTree.empty.write "src/a.cs".toList (.text [])

theorem discover_slash_sourceFolder :
    sourceFolder.LeadsToFolder "src".toList ∧
      ∃ paths others, discover sourceFolder "src".toList = .ok paths ∧
        discover sourceFolder "src/".toList = .ok others ∧ sourceFolder.HaveSameFiles others paths := by
  have folder : sourceFolder.LeadsToFolder "src".toList :=
    ⟨["work".toList, "src".toList], by rfl, by rfl⟩
  obtain ⟨paths, listed, same⟩ := discover_slash_iff folder
  obtain ⟨others, again, files⟩ := same.mpr ⟨by decide, fun dots => absurd dots (by decide)⟩
  exact ⟨folder, paths, others, listed, again, files⟩

/-- A dot leads to the working folder and so does a dot with a slash, but the one lists the file in
it and the other lists nothing. -/
theorem dot_slash_unlisted :
    sourceFolder.LeadsToFolder ".".toList ∧ sourceFolder.LeadsToFolder "./".toList ∧
      discover sourceFolder ".".toList = .ok ["src/a.cs".toList] ∧
      discover sourceFolder "./".toList = .ok [] ∧
      ¬sourceFolder.HaveSameFiles [] ["src/a.cs".toList] := by
  have listed : discover sourceFolder ".".toList = .ok ["src/a.cs".toList] := by decide +kernel
  refine ⟨⟨["work".toList], by rfl, by rfl⟩, ⟨["work".toList], by rfl, by rfl⟩, listed,
    by decide +kernel, ?_⟩
  rw [haveSameFiles_nil_iff listed]
  simp

end Discovery

end DocComments
