import DocComments.Curated.Shipped
import DocComments.Proofs.Lookups
import Mathlib.Data.List.Pairwise

/-! Plans and the names of files. Where no two entries of a table are about one member, what is
found is found for the name of the file alone (`lookup?_eq_some_iff_of_distinct`), whatever the
way by which the file is reached (`plan_of_fileName`). -/

namespace DocComments

namespace Curated

namespace Entry

theorem isCandidate_of_fileName {first second : Text}
    (same : FilePath.fileName? first = FilePath.fileName? second) {name : Text} {kind : MemberKind}
    {entry : Entry} (candidate : entry.IsCandidate first name kind) :
    entry.IsCandidate second name kind :=
  { candidate with ending := same ▸ candidate.ending }

end Entry

namespace Table

def HasDistinctMembers (table : Table) : Prop :=
  table.Pairwise fun first second => first.kind ≠ second.kind ∨ first.name ≠ second.name

instance (table : Table) : Decidable table.HasDistinctMembers :=
  inferInstanceAs (Decidable (table.Pairwise _))

theorem hasDistinctMembers_shipped : HasDistinctMembers shipped := by decide

variable {table : Table} {name : Text} {kind : MemberKind}

theorem HasDistinctMembers.eq_of_candidates (distinct : table.HasDistinctMembers) {path : Text}
    {first second : Entry} (inFirst : first ∈ table) (inSecond : second ∈ table)
    (one : first.IsCandidate path name kind) (other : second.IsCandidate path name kind) :
    first = second := by
  have symmetric : Std.Symm fun first second : Entry =>
      first.kind ≠ second.kind ∨ first.name ≠ second.name :=
    ⟨fun _ _ differ => differ.imp Ne.symm Ne.symm⟩
  by_contra different
  rcases List.Pairwise.forall distinct inFirst inSecond different with filed | named
  · exact filed (one.filed.trans other.filed.symm)
  · exact named (one.named.trans other.named.symm)

theorem lookup?_eq_some_iff_of_distinct (distinct : table.HasDistinctMembers) (path : Text)
    (doc : Doc) :
    table.lookup? path name kind = some doc ↔
      ∃ entry ∈ table, entry.IsCandidate path name kind ∧ entry.doc = doc := by
  constructor
  · intro found
    obtain ⟨index, entry, answer, same⟩ := exists_isAnswer_of_lookup? found
    exact ⟨entry, List.mem_of_getElem? answer.found, answer.candidate, same⟩
  · rintro ⟨entry, member, candidate, rfl⟩
    cases found : table.lookup? path name kind with
    | none =>
        have missing := (lookup?_eq_none_iff table path name kind).mp found
        exact absurd candidate (missing entry member)
    | some doc =>
        obtain ⟨index, other, answer, rfl⟩ := exists_isAnswer_of_lookup? found
        rw [distinct.eq_of_candidates (List.mem_of_getElem? answer.found) member answer.candidate
          candidate]

theorem lookup?_of_fileName (distinct : table.HasDistinctMembers) {first second : Text}
    (same : FilePath.fileName? first = FilePath.fileName? second) (name : Text)
    (kind : MemberKind) : table.lookup? first name kind = table.lookup? second name kind := by
  apply Option.ext
  intro doc
  rw [lookup?_eq_some_iff_of_distinct distinct, lookup?_eq_some_iff_of_distinct distinct]
  constructor
  · rintro ⟨entry, member, candidate, own⟩
    exact ⟨entry, member, Entry.isCandidate_of_fileName same candidate, own⟩
  · rintro ⟨entry, member, candidate, own⟩
    exact ⟨entry, member, Entry.isCandidate_of_fileName same.symm candidate, own⟩

end Table

end Curated

namespace Refresh

variable {table : Curated.Table} {first second : Text}
  (same : ∀ name kind, table.lookup? first name kind = table.lookup? second name kind)

include same

theorem document_of_lookups (cues : FileCues) :
    document ⟨table, first, cues⟩ = document ⟨table, second, cues⟩ := by
  funext enclosing declaration
  cases declaration <;> simp only [document, same]

theorem planFrom_of_lookups (cues : FileCues) (above : List Text) (outer : Option Text)
    (file : List Text) :
    planFrom ⟨table, first, cues⟩ above outer file =
      planFrom ⟨table, second, cues⟩ above outer file := by
  induction file generalizing above outer with
  | nil => rfl
  | cons line below ih =>
      simp only [planFrom, edit?, document_of_lookups same cues, ih]

end Refresh

/-- With the shipped texts, files of one name are refreshed alike, whatever the path. -/
theorem plan_of_fileName {first second : Text}
    (same : FilePath.fileName? first = FilePath.fileName? second) (text : Text) :
    plan Curated.shipped first text = plan Curated.shipped second text ∧
      refreshed Curated.shipped first text = refreshed Curated.shipped second text := by
  have lookups := Curated.Table.lookup?_of_fileName Curated.Table.hasDistinctMembers_shipped same
  have planned : plan Curated.shipped first text = plan Curated.shipped second text :=
    Refresh.planFrom_of_lookups lookups _ _ _ _
  exact ⟨planned, by rw [refreshed, refreshed, planned]⟩

theorem plan_of_fileName_colorHelper :
    FilePath.fileName? "repo/Helpers/ColorHelper.cs".toList =
        FilePath.fileName? "ColorHelper.cs".toList ∧
      plan Curated.shipped "repo/Helpers/ColorHelper.cs".toList
          "public static Color ToColor(string str)\n".toList =
        plan Curated.shipped "ColorHelper.cs".toList
          "public static Color ToColor(string str)\n".toList ∧
      (Curated.Table.lookup? Curated.shipped "ColorHelper.cs".toList "ToColor".toList
        .method).isSome = true := by
  have named : FilePath.fileName? "repo/Helpers/ColorHelper.cs".toList =
      FilePath.fileName? "ColorHelper.cs".toList :=
    FilePath.fileName?_below (by decide) "repo/Helpers".toList
  exact ⟨named, (plan_of_fileName named _).1, by decide⟩

end DocComments
