import DocComments.Curated.Shipped
import DocComments.Proofs.Paths
import DocComments.Refresh

/-! Look-ups of curated documentation. The three searches of a table together find the first of
the entries whose keys come closest to the file (`lookup?_closest_first`). The last search takes a
key that ends in the name of the file, which may be part of a longer name. -/

namespace DocComments

namespace Curated

namespace Entry

def rank (path : Text) (entry : Entry) : Nat :=
  if entry.key = FilePath.join (FilePath.lastTwo path) then 1
  else if some entry.key = FilePath.fileName? path then 2
  else 3

structure IsCandidate (path name : Text) (kind : MemberKind) (entry : Entry) : Prop where
  named : entry.name = name
  filed : entry.kind = kind.filed
  ending : ∃ fileName ∈ FilePath.fileName? path, fileName <:+ entry.key

theorem isAbout_iff (entry : Entry) (name : Text) (kind : MemberKind) :
    entry.isAbout name kind = true ↔ entry.kind = kind.filed ∧ entry.name = name := by
  simp [isAbout]

theorem isCandidate_iff {path fileName : Text} (file : FilePath.fileName? path = some fileName)
    (name : Text) (kind : MemberKind) (entry : Entry) :
    entry.IsCandidate path name kind ↔ entry.isAbout name kind = true ∧ fileName <:+ entry.key := by
  rw [isAbout_iff]
  constructor
  · rintro ⟨named, filed, other, same, ending⟩
    rw [file, Option.mem_some_iff] at same
    subst same
    exact ⟨⟨filed, named⟩, ending⟩
  · rintro ⟨⟨filed, named⟩, ending⟩
    exact ⟨named, filed, fileName, file, ending⟩

theorem rank_eq {path fileName : Text} (file : FilePath.fileName? path = some fileName)
    (entry : Entry) :
    entry.rank path =
      if entry.key = FilePath.join (FilePath.lastTwo path) then 1
      else if entry.key = fileName then 2
      else 3 := by
  simp only [rank, file, Option.some.injEq]

theorem rank_eq_three_iff {path fileName : Text} (file : FilePath.fileName? path = some fileName)
    (entry : Entry) :
    entry.rank path = 3 ↔
      entry.key ≠ FilePath.join (FilePath.lastTwo path) ∧ entry.key ≠ fileName := by
  rw [rank_eq file]
  grind

theorem rank_of_endsInside {path fileName : Text} {entry : Entry}
    (file : FilePath.fileName? path = some fileName)
    (inside : FilePath.EndsInside fileName entry.key) : entry.rank path = 3 := by
  have plain := FilePath.slash_not_mem_of_fileName? file
  have longer : FilePath.lastPiece? entry.key ≠ some fileName := by
    intro last
    exact (FilePath.lastPiece?_iff_of_suffix plain (FilePath.suffix_of_lastPiece? last)).mp last inside
  rw [rank_eq_three_iff file]
  constructor
  · intro same
    rw [same] at longer
    exact longer (FilePath.lastPiece?_join_lastTwo file)
  · intro same
    rw [same] at longer
    exact longer (FilePath.lastPiece?_eq_some_iff.mpr ⟨plain, Or.inl rfl⟩)

theorem rank_le_three (path : Text) (entry : Entry) : entry.rank path ≤ 3 := by
  unfold rank
  grind

end Entry

namespace Table

/-- The entry that answers a question to a table, with its place there. No candidate has a lower rank,
and none of the same rank comes earlier. -/
structure IsAnswer (table : Table) (path name : Text) (kind : MemberKind) (index : Nat)
    (entry : Entry) : Prop where
  found : table[index]? = some entry
  candidate : entry.IsCandidate path name kind
  least : ∀ (place : Nat) (rival : Entry), table[place]? = some rival →
    rival.IsCandidate path name kind →
    entry.rank path < rival.rank path ∨ entry.rank path = rival.rank path ∧ index ≤ place

variable {table : Table} {path name : Text} {kind : MemberKind}

theorem IsAnswer.unique {index place : Nat} {entry rival : Entry}
    (answer : table.IsAnswer path name kind index entry)
    (other : table.IsAnswer path name kind place rival) : entry = rival := by
  have lower := answer.least place rival other.found other.candidate
  have upper := other.least index entry answer.found answer.candidate
  obtain rfl : index = place := by omega
  exact Option.some.inj (answer.found.symm.trans other.found)

theorem exists_isAnswer {criterion : Entry → Bool} {entry : Entry}
    (found : table.find? (fun other => other.isAbout name kind && criterion other) = some entry)
    (candidate : entry.IsCandidate path name kind)
    (closest : ∀ rival ∈ table, rival.IsCandidate path name kind →
      entry.rank path < rival.rank path ∨
        entry.rank path = rival.rank path ∧ criterion rival = true) :
    ∃ index, table.IsAnswer path name kind index entry := by
  obtain ⟨_, index, bound, here, earlier⟩ := List.find?_eq_some_iff_getElem.mp found
  refine ⟨index, List.getElem?_eq_some_iff.mpr ⟨bound, here⟩, candidate, ?_⟩
  intro place rival there fits
  rcases closest rival (List.mem_of_getElem? there) fits with closer | ⟨same, meets⟩
  · exact Or.inl closer
  · refine Or.inr ⟨same, ?_⟩
    by_contra before
    obtain ⟨_, rfl⟩ := List.getElem?_eq_some_iff.mp there
    have about := (Entry.isAbout_iff _ _ _).mpr ⟨fits.filed, fits.named⟩
    simpa [about, meets] using earlier place (by omega)

theorem lookup?_eq (table : Table) {path fileName : Text}
    (file : FilePath.fileName? path = some fileName) (name : Text) (kind : MemberKind) :
    table.lookup? path name kind =
      ((table.find? fun entry =>
          entry.isAbout name kind && entry.key == FilePath.join (FilePath.lastTwo path)).or
        ((table.find? fun entry => entry.isAbout name kind && entry.key == fileName).or
          (table.find? fun entry =>
            entry.isAbout name kind && fileName.isSuffixOf entry.key))).map Entry.doc := by
  unfold lookup?
  rw [file]
  simp only [Option.orElse_eq_orElse, Option.orElse_eq_or, List.find?_filter, Bool.decide_and,
    Bool.decide_eq_true]
  rw [Option.map_eq_bind]
  rfl

theorem mem_of_find?_about {criterion : Entry → Bool} {entry : Entry}
    (found : table.find? (fun other => other.isAbout name kind && criterion other) = some entry) :
    entry ∈ table ∧ entry.isAbout name kind = true ∧ criterion entry = true := by
  have fits := List.find?_some found
  rw [Bool.and_eq_true] at fits
  exact ⟨List.mem_of_find?_eq_some found, fits⟩

theorem fails_of_find?_about {criterion : Entry → Bool}
    (none : table.find? (fun other => other.isAbout name kind && criterion other) = none) :
    ∀ entry ∈ table, entry.isAbout name kind = true → criterion entry = false := by
  intro entry member about
  have misses := List.find?_eq_none.mp none entry member
  simpa [about] using misses

/-- What a search through the tiers finds is the answer, whichever tier it is found in. -/
theorem exists_isAnswer_of_lookup? {doc : Doc} (found : table.lookup? path name kind = some doc) :
    ∃ index entry, table.IsAnswer path name kind index entry ∧ entry.doc = doc := by
  cases file : FilePath.fileName? path with
  | none => simp [lookup?, file] at found
  | some fileName =>
      rw [lookup?_eq table file, Option.map_eq_some_iff] at found
      obtain ⟨entry, chosen, same⟩ := found
      suffices ∃ index, table.IsAnswer path name kind index entry by
        obtain ⟨index, answer⟩ := this
        exact ⟨index, entry, answer, same⟩
      have candidates := Entry.isCandidate_iff file name kind
      have ranks := Entry.rank_eq file
      rw [Option.or_eq_some_iff, Option.or_eq_some_iff] at chosen
      -- An earlier search that failed keeps the ranks below that of its tier out of the table.
      rcases chosen with byFolder | ⟨noFolder, byName | ⟨noName, byEnding⟩⟩
      · obtain ⟨_, about, key⟩ := mem_of_find?_about byFolder
        have own := eq_of_beq key
        have ending := FilePath.suffix_of_lastPiece? (FilePath.lastPiece?_join_lastTwo file)
        apply exists_isAnswer byFolder ((candidates entry).mpr ⟨about, own ▸ ending⟩)
        intro rival _ _
        grind
      · obtain ⟨member, about, key⟩ := mem_of_find?_about byName
        have own := eq_of_beq key
        have farther := fails_of_find?_about noFolder
        apply exists_isAnswer byName ((candidates entry).mpr ⟨about, own ▸ List.suffix_refl _⟩)
        intro rival inside fits
        have about' := ((candidates rival).mp fits).1
        grind
      · obtain ⟨member, about, key⟩ := mem_of_find?_about byEnding
        have farther := fails_of_find?_about noFolder
        have others := fails_of_find?_about noName
        apply exists_isAnswer byEnding
          ((candidates entry).mpr ⟨about, List.isSuffixOf_iff_suffix.mp key⟩)
        intro rival inside fits
        obtain ⟨about', ending⟩ := (candidates rival).mp fits
        have ending' := List.isSuffixOf_iff_suffix.mpr ending
        grind

theorem lookup?_eq_none_iff (table : Table) (path name : Text) (kind : MemberKind) :
    table.lookup? path name kind = none ↔ ∀ entry ∈ table, ¬entry.IsCandidate path name kind := by
  constructor
  · rintro missing entry member candidate
    obtain ⟨fileName, file, ending⟩ := candidate.ending
    rw [lookup?_eq table file, Option.map_eq_none_iff, Option.or_eq_none_iff,
      Option.or_eq_none_iff] at missing
    have about := ((Entry.isCandidate_iff file name kind entry).mp candidate).1
    have fails := fails_of_find?_about missing.2.2 entry member about
    rw [List.isSuffixOf_iff_suffix.mpr ending] at fails
    cases fails
  · intro none
    rw [Option.eq_none_iff_forall_ne_some]
    intro doc found
    obtain ⟨index, entry, answer, _⟩ := exists_isAnswer_of_lookup? found
    exact none entry (List.mem_of_getElem? answer.found) answer.candidate

theorem lookup?_eq_some_iff (table : Table) (path name : Text) (kind : MemberKind) (doc : Doc) :
    table.lookup? path name kind = some doc ↔
      ∃ index entry, table.IsAnswer path name kind index entry ∧ entry.doc = doc := by
  constructor
  · exact exists_isAnswer_of_lookup?
  · rintro ⟨index, entry, answer, rfl⟩
    cases found : table.lookup? path name kind with
    | none =>
        have missing := (lookup?_eq_none_iff table path name kind).mp found
        exact (missing entry (List.mem_of_getElem? answer.found) answer.candidate).elim
    | some doc =>
        obtain ⟨place, other, rival, rfl⟩ := exists_isAnswer_of_lookup? found
        rw [answer.unique rival]

theorem find?_add {criterion : Entry → Bool} {entry former : Entry} (member : former ∈ table)
    (same : criterion former = criterion entry) :
    (table.add entry).find? criterion = table.find? criterion := by
  rw [add, List.find?_append]
  cases found : table.find? criterion with
  | some first => rfl
  | none =>
      have misses := List.find?_eq_none.mp found former member
      rw [same] at misses
      simp [misses]

/-- An entry is never found behind one with its key, kind and name. -/
theorem lookup?_add {entry former : Entry} (member : former ∈ table) (key : former.key = entry.key)
    (filed : former.kind = entry.kind) (named : former.name = entry.name) (path name : Text)
    (kind : MemberKind) :
    (table.add entry).lookup? path name kind = table.lookup? path name kind := by
  have about : former.isAbout name kind = entry.isAbout name kind := by
    rw [Entry.isAbout, Entry.isAbout, filed, named]
  cases file : FilePath.fileName? path with
  | none => simp [lookup?, file]
  | some fileName =>
      rw [lookup?_eq _ file, lookup?_eq _ file, find?_add member (by simp only [about, key]),
        find?_add member (by simp only [about, key]), find?_add member (by simp only [about, key])]

/-- A look-up finds the documentation of the entry that comes closest to the file, and of several such
entries that of the first. So an entry changes nothing behind one with its key, kind and name. -/
theorem lookup?_closest_first (table : Table) (path name : Text) (kind : MemberKind) :
    (table.lookup? path name kind = none ↔ ∀ entry ∈ table, ¬entry.IsCandidate path name kind) ∧
      (∀ doc, table.lookup? path name kind = some doc ↔
        ∃ index entry, table.IsAnswer path name kind index entry ∧ entry.doc = doc) ∧
      ∀ entry : Entry, (∃ former ∈ table, former.key = entry.key ∧ former.kind = entry.kind ∧
          former.name = entry.name) →
        (table.add entry).lookup? path name kind = table.lookup? path name kind := by
  refine ⟨lookup?_eq_none_iff table path name kind, lookup?_eq_some_iff table path name kind, ?_⟩
  rintro entry ⟨former, member, key, filed, named⟩
  exact lookup?_add member key filed named path name kind

def widgets : Table := [
  { key := "Other/Widget.cs".toList, kind := .method, name := "Widget".toList,
    doc := { summary := "다른 폴더".toList } },
  { key := "Widget.cs".toList, kind := .method, name := "Widget".toList,
    doc := { summary := "파일 이름".toList } },
  { key := "Ui/Widget.cs".toList, kind := .method, name := "Widget".toList,
    doc := { summary := "경로".toList } }]

theorem lookup?_closest_first_widget :
    (∃ former ∈ widgets, former.key = "Ui/Widget.cs".toList ∧ former.kind = .method ∧
        former.name = "Widget".toList) ∧
      (widgets.add ⟨"Ui/Widget.cs".toList, .method, "Widget".toList, { summary := [] }⟩).lookup?
          "src/Ui/Widget.cs".toList "Widget".toList .constructor =
        some { summary := "경로".toList } := by
  have present : ∃ former ∈ widgets, former.key = "Ui/Widget.cs".toList ∧ former.kind = .method ∧
      former.name = "Widget".toList := by decide
  have unchanged := (lookup?_closest_first widgets "src/Ui/Widget.cs".toList "Widget".toList
    .constructor).2.2 ⟨"Ui/Widget.cs".toList, .method, "Widget".toList, { summary := [] }⟩ present
  refine ⟨present, unchanged.trans ?_⟩
  decide

theorem isAnswer_iff_of_endsInside {fileName : Text} {index : Nat} {entry : Entry}
    (file : FilePath.fileName? path = some fileName)
    (inside : FilePath.EndsInside fileName entry.key) :
    table.IsAnswer path name kind index entry ↔
      table[index]? = some entry ∧ entry.isAbout name kind = true ∧
        (∀ (place : Nat) (former : Entry), place < index → table[place]? = some former →
          former.isAbout name kind = true → ¬fileName <:+ former.key) ∧
        ∀ other ∈ table, other.isAbout name kind = true →
          other.key ≠ FilePath.join (FilePath.lastTwo path) ∧ other.key ≠ fileName := by
  have candidates := Entry.isCandidate_iff file name kind
  have own := Entry.rank_of_endsInside file inside
  constructor
  · intro answer
    refine ⟨answer.found, ((candidates entry).mp answer.candidate).1, ?_, ?_⟩
    · intro place former before there about ending
      have least := answer.least place former there ((candidates former).mpr ⟨about, ending⟩)
      have bound := former.rank_le_three path
      omega
    · intro other member about
      rw [← Entry.rank_eq_three_iff file]
      have bound := other.rank_le_three path
      by_contra closer
      obtain ⟨place, there⟩ := List.getElem?_of_mem member
      have ending : fileName <:+ other.key := by
        rw [Entry.rank_eq_three_iff file, not_and_or, not_not, not_not] at closer
        rcases closer with key | key
        · rw [key]
          exact FilePath.suffix_of_lastPiece? (FilePath.lastPiece?_join_lastTwo file)
        · exact key ▸ List.suffix_refl _
      have least := answer.least place other there ((candidates other).mpr ⟨about, ending⟩)
      omega
  · rintro ⟨here, about, first, farther⟩
    obtain ⟨front, character, _, key⟩ := inside
    have ending : fileName <:+ entry.key := by
      rw [key]
      exact (List.suffix_cons character fileName).trans (List.suffix_append front _)
    refine ⟨here, (candidates entry).mpr ⟨about, ending⟩, ?_⟩
    intro place rival there fits
    obtain ⟨about', ending'⟩ := (candidates rival).mp fits
    have other := (Entry.rank_eq_three_iff file rival).mpr
      (farther rival (List.mem_of_getElem? there) about')
    refine Or.inr ⟨own.trans other.symm, ?_⟩
    by_contra before
    exact first place rival (by omega) there about' ending'

/-- The entry that is found is one for the file, unless no key about the member is the file's own and
the first that ends in the file's name ends inside a longer one. -/
theorem lookup?_names_file_iff (table : Table) (path name : Text) (kind : MemberKind) :
    (∀ doc, table.lookup? path name kind = some doc →
        ∃ index entry, table.IsAnswer path name kind index entry ∧ entry.doc = doc ∧
          FilePath.lastPiece? entry.key = FilePath.fileName? path) ↔
      ¬∃ fileName index entry, FilePath.fileName? path = some fileName ∧
        table[index]? = some entry ∧ entry.isAbout name kind = true ∧
        FilePath.EndsInside fileName entry.key ∧
        (∀ (place : Nat) (former : Entry), place < index → table[place]? = some former →
          former.isAbout name kind = true → ¬fileName <:+ former.key) ∧
        ∀ other ∈ table, other.isAbout name kind = true →
          other.key ≠ FilePath.join (FilePath.lastTwo path) ∧ other.key ≠ fileName := by
  constructor
  · rintro finds ⟨fileName, index, entry, file, here, about, inside, first, farther⟩
    have answer := (isAnswer_iff_of_endsInside file inside).mpr ⟨here, about, first, farther⟩
    obtain ⟨_, other, rival, _, last⟩ := finds entry.doc
      ((lookup?_eq_some_iff table path name kind entry.doc).mpr ⟨index, entry, answer, rfl⟩)
    rw [← answer.unique rival, file] at last
    exact (FilePath.lastPiece?_iff_of_suffix (FilePath.slash_not_mem_of_fileName? file)
      (FilePath.suffix_of_lastPiece? last)).mp last inside
  · intro none doc found
    obtain ⟨index, entry, answer, same⟩ := exists_isAnswer_of_lookup? found
    obtain ⟨fileName, file, ending⟩ := answer.candidate.ending
    refine ⟨index, entry, answer, same, ?_⟩
    rw [file, FilePath.lastPiece?_iff_of_suffix (FilePath.slash_not_mem_of_fileName? file) ending]
    intro inside
    obtain ⟨here, about, first, farther⟩ := (isAnswer_iff_of_endsInside file inside).mp answer
    exact none ⟨fileName, index, entry, file, here, about, inside, first, farther⟩

/-- The name of a helper's file ends the name of every other helper's file. What an author wrote there
gives way to texts for another file. -/
theorem toColor_misfiled :
    (∀ entry ∈ shipped, FilePath.lastPiece? entry.key ≠ FilePath.fileName? "Helper.cs".toList) ∧
      shipped.lookup? "Helper.cs".toList "ToColor".toList .method ≠ none ∧
      plan shipped "Helper.cs".toList
          "/// Mixes paint.\npublic void ToColor()\n".toList =
        [.replace 0 0
          ["/// <summary>\n".toList,
            "/// 문자열 표현을 Color로 변환합니다. 실패 시 기본 색을 반환합니다.\n".toList,
            "/// </summary>\n".toList]] := by
  decide +kernel

end Table

end Curated

end DocComments
