import DocComments.Glob
import DocComments.Proofs.Locations

/-! The names of a root as patterns take them. A name behind a path is one step further from where
that path leads (`destination_next`), so the walk over the names of a root that leads to a folder
ends early only where an empty name leaves nothing of the path (`follow?_eq_spelled?`). -/

namespace DocComments

namespace FilePath

theorem pieces_cons_slash (rest : Text) : pieces ('/' :: rest) = [] :: pieces rest :=
  pieces_append_slash [] rest

theorem append_eq (path name : Text) : append path name = append path [] ++ name := by
  unfold append
  split <;> simp

theorem prefix_append (path name : Text) : path <+: append path name := by
  unfold append
  split <;> exact List.prefix_append _ _

theorem isAbsolute_of_prefix {front whole : Text} (starts : front <+: whole) (nonempty : front ≠ []) :
    isAbsolute whole = isAbsolute front := by
  obtain ⟨rest, rfl⟩ := starts
  rw [isAbsolute, isAbsolute, List.head?_append_of_ne_nil _ nonempty]

theorem isAbsolute_of_slash_not_mem {name : Text} (plain : '/' ∉ name) : isAbsolute name = false := by
  rw [isAbsolute, decide_eq_false_iff_not]
  exact fun first => plain (List.mem_of_mem_head? first)

theorem pieces_append {name : Text} (path : Text) (nonempty : path ≠ []) (plain : '/' ∉ name) :
    ∃ above trail, pieces path = above ++ trail ∧ (trail = [] ∨ trail = [[]]) ∧
      pieces (append path name) = above ++ [name] := by
  by_cases slash : path.getLast?.any (· ≠ '/')
  · refine ⟨pieces path, [], (List.append_nil _).symm, .inl rfl, ?_⟩
    rw [append, if_pos slash, pieces_append_slash, pieces_name plain]
  · obtain ⟨front, last, cut⟩ := (List.eq_nil_or_concat path).resolve_left nonempty
    obtain rfl : last = '/' := by simpa [cut] using slash
    rw [List.concat_eq_append] at cut
    refine ⟨pieces front, [[]], by rw [cut, pieces_append_slash]; rfl, .inr rfl, ?_⟩
    rw [append, if_neg slash, cut, List.append_assoc, List.singleton_append, pieces_append_slash,
      pieces_name plain]

end FilePath

namespace FileTree

variable {tree : FileTree}

theorem origin_next {path name : Text} (nonempty : path ≠ []) (plain : '/' ∉ name) :
    tree.origin (Glob.next path name) = tree.origin path := by
  unfold origin Glob.next
  split
  · next dot => rw [dot, FilePath.isAbsolute_of_slash_not_mem plain]; rfl
  · rw [FilePath.isAbsolute_of_prefix (FilePath.prefix_append path name) nonempty]

theorem destination_cons_slash (rest : Text) :
    tree.destination ('/' :: rest) = tree.walk [] (FilePath.pieces rest) := by
  have stays : tree.step [] [] = .ok [] := (step_nil_eq_ok_iff ..).mpr ⟨tree.lookup?_nil, rfl⟩
  rw [destination, FilePath.pieces_cons_slash, walk, List.foldlM_cons]
  rw [show tree.origin ('/' :: rest) = [] from rfl, stays]
  rfl

theorem destination_of_relative {path : Text} (relative : FilePath.isAbsolute path = false) :
    tree.destination path = tree.walk tree.working (FilePath.pieces path) := by
  rw [destination, origin, if_neg (by simp [relative])]

theorem destination_slash : tree.destination ['/'] = .ok [] := by
  rw [destination_cons_slash, show FilePath.pieces [] = [[]] from rfl, ← List.nil_append [[]],
    walk_concat]
  exact ⟨[], rfl, (step_nil_eq_ok_iff ..).mpr ⟨tree.lookup?_nil, rfl⟩⟩

theorem destination_dot : tree.destination ['.'] = .ok tree.working := by
  have cut : FilePath.pieces ['.'] = [] ++ [['.']] := by decide
  rw [destination_of_relative (by decide), cut, walk_concat]
  refine ⟨tree.working, rfl, ?_⟩
  rw [step_eq_ok_iff, if_pos (.inr rfl)]
  exact ⟨tree.lookup?_working, rfl⟩

theorem destination_next {path name : Text} (nonempty : path ≠ []) (plain : '/' ∉ name)
    (place : Location) :
    tree.destination (Glob.next path name) = .ok place ↔
      ∃ here, tree.destination path = .ok here ∧ tree.step here name = .ok place := by
  by_cases dot : path = ['.']
  · rw [dot, destination_dot, Glob.next, if_pos rfl,
      destination_of_relative (FilePath.isAbsolute_of_slash_not_mem plain),
      FilePath.pieces_name plain, ← List.nil_append [name], walk_concat]
    rfl
  · obtain ⟨above, trail, cut, empty, further⟩ := FilePath.pieces_append path nonempty plain
    rw [destination, destination, origin_next nonempty plain, Glob.next, if_neg dot, further, cut,
      walk_concat]
    rcases empty with rfl | rfl
    · rw [List.append_nil]
    · constructor
      · rintro ⟨here, walked, stepped⟩
        have folder := ((step_eq_ok_iff ..).mp stepped).1
        have stayed := (step_nil_eq_ok_iff tree here here).mpr ⟨folder, rfl⟩
        exact ⟨here, (walk_concat ..).mpr ⟨here, walked, stayed⟩, stepped⟩
      · rintro ⟨here, walked, stepped⟩
        obtain ⟨last, walked, stayed⟩ := (walk_concat ..).mp walked
        obtain ⟨_, rfl⟩ := (step_nil_eq_ok_iff ..).mp stayed
        exact ⟨here, walked, stepped⟩

def reaches (tree : FileTree) (path name : Text) : Bool :=
  if FilePath.steps.contains name then tree.isFolderAt path
  else tree.isPresentAt (Glob.next path name)

theorem run_follow_cons (tree : FileTree) (path name : Text) (rest : List Text) :
    (Glob.follow system path (name :: rest)).run tree =
      if tree.reaches path name then (Glob.follow system (Glob.next path name) rest).run tree
      else pure (none, tree) := by
  rw [Glob.follow, reaches]
  by_cases step : FilePath.steps.contains name
  · rw [if_pos step, if_pos step]
    by_cases folder : tree.isFolderAt path <;> simp [folder]
  · rw [if_neg step, if_neg step]
    by_cases present : tree.isPresentAt (Glob.next path name) <;> simp [present]

def follow? (tree : FileTree) (path : Text) (names : List Text) : Option Text :=
  ((Glob.follow system path names).run tree).1

theorem follow?_cons (tree : FileTree) (path name : Text) (rest : List Text) :
    tree.follow? path (name :: rest) =
      if tree.reaches path name then tree.follow? (Glob.next path name) rest else none := by
  rw [follow?, run_follow_cons]
  split <;> rfl

theorem run_follow (tree : FileTree) (path : Text) (names : List Text) :
    (Glob.follow system path names).run tree = pure (tree.follow? path names, tree) := by
  induction names generalizing path with
  | nil => rfl
  | cons name rest ih =>
      rw [run_follow_cons, follow?_cons]
      split
      · exact ih _
      · rfl

end FileTree

namespace Glob

def spelled? (path : Text) : List Text → Option Text
  | [] => some path
  | name :: rest => if next path name = [] then none else spelled? (next path name) rest

theorem next_eq (path name : Text) : next path name = next path [] ++ name := by
  unfold next
  split
  · rfl
  · exact FilePath.append_eq path name

theorem next_ne_nil {path name : Text} (named : name ≠ []) : next path name ≠ [] := by
  rw [next_eq]
  simp [named]

theorem spelled?_eq_some (path : Text) {names : List Text} (named : ∀ name ∈ names, name ≠ []) :
    spelled? path names = some (names.foldl next path) := by
  induction names generalizing path with
  | nil => rfl
  | cons name rest ih =>
      rw [List.forall_mem_cons] at named
      rw [spelled?, if_neg (next_ne_nil named.1), ih _ named.2, List.foldl_cons]

theorem next_nil_sublist (path : Text) : (next path []).Sublist (path ++ ['/']) := by
  unfold next FilePath.append
  split
  · exact List.nil_sublist _
  · split
    · exact List.Sublist.refl _
    · simp

theorem next_cons_join {path name : Text} {rest : List Text} (more : rest ≠ []) :
    next path [] ++ FilePath.join (name :: rest) =
      next path name ++ ['/'] ++ FilePath.join rest := by
  rw [FilePath.join_cons more, next_eq path name]
  simp

theorem next_sublist_cons_join (path name : Text) (rest : List Text) :
    (next path name).Sublist (next path [] ++ FilePath.join (name :: rest)) := by
  by_cases more : rest = []
  · rw [more, FilePath.join_singleton, ← next_eq]
  · rw [next_cons_join more, List.append_assoc]
    exact List.sublist_append_left _ _

theorem isTaken_of_next {path name : Text} (taken : FilePath.IsTaken (next path name)) :
    FilePath.IsTaken path := by
  unfold next at taken
  split at taken
  · next dot =>
      rw [dot]
      exact ⟨by decide, by decide⟩
  · exact taken.sublist (FilePath.prefix_append path name).sublist

end Glob

namespace FileTree

variable {tree : FileTree}

theorem destination_of_spelled? {path last : Text} {names : List Text} (nonempty : path ≠ [])
    (plain : ∀ name ∈ names, '/' ∉ name) (spelled : Glob.spelled? path names = some last)
    (place : Location) :
    tree.destination last = .ok place ↔
      ∃ here, tree.destination path = .ok here ∧ tree.walk here names = .ok place := by
  induction names generalizing path with
  | nil =>
      obtain rfl := Option.some.inj spelled
      constructor
      · exact fun reached => ⟨place, reached, rfl⟩
      · rintro ⟨here, reached, stayed⟩
        exact Except.ok.inj stayed ▸ reached
  | cons name rest ih =>
      rw [List.forall_mem_cons] at plain
      rw [Glob.spelled?] at spelled
      split at spelled
      · cases spelled
      · next further =>
          rw [ih further plain.2 spelled]
          simp only [walk_cons_eq_ok_iff, destination_next nonempty plain.1]
          constructor
          · rintro ⟨there, ⟨here, reached, stepped⟩, walked⟩
            exact ⟨here, reached, there, stepped, walked⟩
          · rintro ⟨here, reached, there, stepped, walked⟩
            exact ⟨there, ⟨here, reached, stepped⟩, walked⟩

/-- From folder to folder the walk gets past each name, unless an empty name leaves nothing. -/
theorem reaches_iff {path name : Text} {here there : Location} (nonempty : path ≠ [])
    (plain : '/' ∉ name) (taken : FilePath.IsTaken (Glob.next path name))
    (start : tree.destination path = .ok here) (stepped : tree.step here name = .ok there)
    (folder : tree.lookup? there = some .folder) :
    tree.reaches path name = true ↔ Glob.next path name ≠ [] := by
  have further := (destination_next nonempty plain there).mpr ⟨here, start, stepped⟩
  unfold reaches
  split
  · next special =>
      have named : name ≠ [] := by
        rintro rfl
        cases special
      have here' : tree.isFolderAt path = true := by
        rw [isFolderAt_eq_true_iff]
        refine ⟨here, ?_, ((step_eq_ok_iff ..).mp stepped).1⟩
        rw [locate_eq_ok_iff]
        exact ⟨Glob.isTaken_of_next taken, nonempty, start⟩
      rw [Glob.next_eq]
      simp [here', named]
  · rw [isPresentAt_eq_true_iff]
    constructor
    · rintro ⟨location, located, _⟩
      exact ((locate_eq_ok_iff ..).mp located).2.1
    · intro left
      exact ⟨there, (locate_eq_ok_iff ..).mpr ⟨taken, left, further⟩, by simp [folder]⟩

/-- A walk over names follows the file system step by step, so it ends early only by its spelling. -/
theorem follow?_eq_spelled? {path : Text} {names : List Text} {here place : Location}
    (nonempty : path ≠ []) (plain : ∀ name ∈ names, '/' ∉ name)
    (taken : FilePath.IsTaken (Glob.next path [] ++ FilePath.join names))
    (start : tree.destination path = .ok here) (walked : tree.walk here names = .ok place)
    (folder : tree.lookup? place = some .folder) :
    tree.follow? path names = Glob.spelled? path names := by
  induction names generalizing path here with
  | nil => rfl
  | cons name rest ih =>
      obtain ⟨there, stepped, onward⟩ := (walk_cons_eq_ok_iff ..).mp walked
      rw [List.forall_mem_cons] at plain
      have reached := reaches_iff nonempty plain.1
        (taken.sublist (Glob.next_sublist_cons_join path name rest)) start stepped
        (lookup?_of_walk onward folder)
      rw [follow?_cons, Glob.spelled?]
      by_cases left : Glob.next path name = []
      · rw [if_neg (by simpa [left] using reached), if_pos left]
      · rw [if_pos (reached.mpr left), if_neg left]
        -- Behind the last name nothing is asked for, and there may be no room for a slash.
        by_cases more : rest = []
        · subst more
          rfl
        · have further := (destination_next nonempty plain.1 there).mpr ⟨here, start, stepped⟩
          rw [Glob.next_cons_join more] at taken
          have part := (Glob.next_nil_sublist (Glob.next path name)).append_right (FilePath.join rest)
          exact ih left plain.2 (taken.sublist part) further onward

end FileTree

section Below

variable (root ending : Text)

/-- A pattern below a root begins in the top folder, behind the slash in front, or in the working
folder. -/
theorem Glob.below_cases :
    (∃ rest, root = '/' :: rest ∧
        Pattern.below root ending = ⟨['/'], FilePath.pieces rest, ending⟩) ∨
      FilePath.isAbsolute root = false ∧
        Pattern.below root ending = ⟨['.'], FilePath.pieces root, ending⟩ := by
  unfold Pattern.below
  by_cases absolute : FilePath.isAbsolute root
  · obtain ⟨rest, rfl⟩ := List.head?_eq_some_iff.mp (of_decide_eq_true absolute)
    rw [if_pos absolute]
    exact .inl ⟨rest, rfl, by rw [FilePath.pieces_cons_slash, List.tail_cons]⟩
  · rw [if_neg absolute]
    exact .inr ⟨by simpa using absolute, rfl⟩

theorem Glob.scope_ne_nil : (Pattern.below root ending).scope ≠ [] := by
  rcases below_cases root ending with ⟨_, _, same⟩ | ⟨_, same⟩ <;> simp [same]

theorem Glob.slash_not_mem_names : ∀ name ∈ (Pattern.below root ending).names, '/' ∉ name := by
  intro name member
  rcases below_cases root ending with ⟨_, _, same⟩ | ⟨_, same⟩ <;> rw [same] at member <;>
    exact FilePath.slash_not_mem_of_mem_pieces member

theorem Glob.next_scope_append_join :
    next (Pattern.below root ending).scope [] ++ FilePath.join (Pattern.below root ending).names =
      root := by
  rcases below_cases root ending with ⟨rest, rfl, same⟩ | ⟨_, same⟩ <;>
    simp only [same, FilePath.join_pieces]
  · rfl
  · rfl

theorem FileTree.destination_eq_ok_iff (tree : FileTree) (place : Location) :
    tree.destination root = .ok place ↔
      ∃ here, tree.destination (Glob.Pattern.below root ending).scope = .ok here ∧
        tree.walk here (Glob.Pattern.below root ending).names = .ok place := by
  rcases Glob.below_cases root ending with ⟨rest, rfl, same⟩ | ⟨relative, same⟩
  · rw [destination_cons_slash, same]
    simp only [destination_slash, Except.ok.injEq, exists_eq_left']
  · simp only [same, destination_dot, destination_of_relative relative, Except.ok.injEq,
      exists_eq_left']

end Below

/-- The walk below a root that leads to a folder goes by the spelling of the root. -/
theorem FileTree.follow?_below {tree : FileTree} {root : Text} {place : Location}
    (located : tree.locate root = .ok place) (folder : tree.lookup? place = some .folder)
    (ending : Text) :
    tree.follow? (Glob.Pattern.below root ending).scope (Glob.Pattern.below root ending).names =
      Glob.spelled? (Glob.Pattern.below root ending).scope
        (Glob.Pattern.below root ending).names := by
  obtain ⟨taken, _, reached⟩ := (locate_eq_ok_iff ..).mp located
  obtain ⟨here, start, walked⟩ := (destination_eq_ok_iff root ending tree place).mp reached
  refine follow?_eq_spelled? (Glob.scope_ne_nil root ending) (Glob.slash_not_mem_names root ending)
    ?_ start walked folder
  rwa [Glob.next_scope_append_join]

end DocComments
