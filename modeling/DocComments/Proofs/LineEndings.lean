import DocComments.Proofs.Refreshed
import DocComments.Proofs.Sites

/-! Files whose lines end in a carriage return and a line feed. A pass keeps them so unless it
documents a declaration on a last line without terminator: the lines it puts there end in a line
feed alone. -/

namespace DocComments

namespace Text

def IsPaired (text : Text) : Prop :=
  ∀ before after, text = before ++ '\n' :: after → before.getLast? = some '\r'

def EndsPaired (line : Text) : Prop := '\n' ∈ line → line.terminator = ['\r', '\n']

instance (line : Text) : Decidable (EndsPaired line) :=
  inferInstanceAs (Decidable ('\n' ∈ line → line.terminator = ['\r', '\n']))

theorem isPaired_of_single {text : Text} (single : '\n' ∉ text) : IsPaired text := by
  rintro before after rfl
  exact (single (by simp)).elim

theorem getLast?_behind_lineFeed {before content : Text} :
    (content ++ '\n' :: before).getLast? = some '\r' ↔ before.getLast? = some '\r' := by
  cases last : before.getLast? with
  | none => simp [List.getLast?_cons, last]
  | some character => simp [List.getLast?_cons, last]

theorem isPaired_append_lineFeed {content rest : Text} (single : '\n' ∉ content) :
    IsPaired (content ++ '\n' :: rest) ↔ content.getLast? = some '\r' ∧ IsPaired rest := by
  constructor
  · intro paired
    refine ⟨paired content rest rfl, ?_⟩
    rintro before after rfl
    rw [← getLast?_behind_lineFeed]
    exact paired (content ++ '\n' :: before) after (by simp)
  · rintro ⟨first, others⟩ before after cut
    rcases List.append_eq_append_iff.mp cut with ⟨middle, upper, lower⟩ | ⟨middle, upper, lower⟩
    · cases middle with
      | nil => rwa [upper, List.append_nil]
      | cons character middle =>
          obtain ⟨rfl, below⟩ := List.cons.inj lower
          rw [upper, getLast?_behind_lineFeed]
          exact others middle after below
    · cases middle with
      | nil => rwa [upper, List.append_nil] at first
      | cons character middle =>
          obtain ⟨rfl, _⟩ := List.cons.inj lower
          exact (single (by simp [upper])).elim

theorem terminator_eq_pair_iff {line : Text} :
    terminator line = ['\r', '\n'] ↔ ['\r', '\n'] <:+ line := by
  rw [terminator, ← List.isSuffixOf_iff_suffix]
  split
  · next suffix => simp [suffix]
  · next alone => simp [alone]

theorem pair_suffix_iff {content : Text} :
    ['\r', '\n'] <:+ content ++ ['\n'] ↔ content.getLast? = some '\r' := by
  rw [List.getLast?_eq_some_iff]
  constructor
  · rintro ⟨front, same⟩
    have whole : content ++ ['\n'] = (front ++ ['\r']) ++ ['\n'] := by
      rw [← same, List.append_assoc]
      rfl
    exact ⟨front, List.append_cancel_right whole⟩
  · rintro ⟨front, rfl⟩
    exact ⟨front, by simp⟩

/-- The lines of a text show whether its line feeds are paired. -/
theorem IsCut.isPaired_flatten_iff {file : List Text} (cut : IsCut file) :
    IsPaired file.flatten ↔ ∀ line ∈ file, EndsPaired line := by
  induction cut with
  | nil => simp [isPaired_of_single]
  | last _ single =>
      rw [List.flatten_singleton]
      refine iff_of_true (isPaired_of_single single) ?_
      intro other member inside
      rw [List.mem_singleton.mp member] at inside
      exact (single inside).elim
  | cons complete _ ih =>
      obtain ⟨content, single, rfl⟩ := complete
      rw [List.flatten_cons, List.append_assoc, List.singleton_append,
        isPaired_append_lineFeed single, ih, List.forall_mem_cons, EndsPaired,
        terminator_eq_pair_iff, pair_suffix_iff]
      simp

theorem isPaired_iff (text : Text) : IsPaired text ↔ ∀ line ∈ text.lines, EndsPaired line := by
  have lines := (isCut_lines text).isPaired_flatten_iff
  rwa [flatten_lines] at lines

instance (text : Text) : Decidable (IsPaired text) := decidable_of_iff _ (isPaired_iff text).symm

end Text

namespace Refresh

theorem summaryLine_mem_fresh (setting : Setting) (enclosing : Option Text)
    (declaration : Declaration) (line : Text) :
    line.indentation ++ "/// <summary>".toList ++ line.terminator ∈
      fresh setting enclosing line declaration := by
  apply List.mem_map.mpr
  refine ⟨"/// <summary>".toList, ?_, rfl⟩
  rw [document_lines]
  simp [Block.summaryLines]

end Refresh

namespace Segment

theorem fresh_subset_lines_refresh {setting : Refresh.Setting} {enclosing : Option Text}
    {segment : Segment} (changes : segment.edit? setting enclosing ≠ none) :
    segment.fresh setting enclosing ⊆ (segment.refresh setting enclosing).lines := by
  intro line member
  by_cases missing : segment.block = []
  · rw [lines_refresh_of_missing setting enclosing missing]
    simp [member]
  · rw [ne_eq, edit?_eq_none_iff missing, Classical.not_imp] at changes
    rw [lines_refresh_of_replaceable missing changes.1]
    simp [member]

theorem lines_refresh_of_idle {setting : Refresh.Setting} {enclosing : Option Text}
    {segment : Segment} (idle : segment.edit? setting enclosing = none) :
    (segment.refresh setting enclosing).lines = segment.lines := by
  have documented : segment.block ≠ [] :=
    mt List.reverse_eq_nil_iff.mp (Refresh.edit?_eq_none_iff.mp idle).1
  apply lines_refresh_of_kept documented
  rintro ⟨replaceable, different⟩
  exact different ((edit?_eq_none_iff documented).mp idle replaceable)

theorem endsPaired_of_mem_refresh {setting : Refresh.Setting} {enclosing : Option Text}
    {segment : Segment} (paired : ∀ line ∈ segment.lines, line.EndsPaired)
    (settled : '\n' ∈ segment.line ∨ segment.edit? setting enclosing = none) :
    ∀ line ∈ (segment.refresh setting enclosing).lines, line.EndsPaired := by
  intro line member
  rcases settled with ended | idle
  · have pair := paired segment.line (by simp [lines]) ended
    rw [lines, List.mem_append, List.mem_reverse, List.mem_singleton] at member
    rcases member with above | rfl
    · rcases mem_aboveRefreshed above with former | fresh
      · exact paired line (by simp [lines, former])
      · obtain ⟨generated, _, rfl⟩ := Refresh.mem_setLike fresh
        intro _
        rw [pair, Text.terminator_eq_pair_iff]
        exact List.suffix_append _ _
    · exact fun _ => pair
  · rw [lines_refresh_of_idle idle] at member
    exact paired line member

theorem exists_not_endsPaired {setting : Refresh.Setting} {enclosing : Option Text}
    {segment : Segment} (unended : '\n' ∉ segment.line)
    (changes : segment.edit? setting enclosing ≠ none) :
    ∃ line ∈ (segment.refresh setting enclosing).lines, ¬line.EndsPaired := by
  have first := Refresh.summaryLine_mem_fresh setting enclosing segment.declaration segment.line
  have alone : segment.line.terminator = ['\n'] := by
    rw [Text.terminator, if_neg]
    intro suffix
    exact unended ((List.isSuffixOf_iff_suffix.mp suffix).subset (by simp))
  refine ⟨_, fresh_subset_lines_refresh changes first, ?_⟩
  intro pair
  have last : "/// <summary>".toList = "/// <summary".toList ++ ['>'] := by decide
  rw [Text.EndsPaired, alone, Text.terminator_eq_pair_iff, Text.pair_suffix_iff, last] at pair
  simp at pair

end Segment

namespace Outline

theorem IsPlace.edit?_eq_none_iff {outline : Outline} {higher below : List Text}
    {place : Option Text × Segment} (found : outline.IsPlace higher below place)
    (setting : Refresh.Setting) :
    Refresh.edit? setting (Refresh.enclosingIn (higher ++ [place.2.line])) higher.reverse
        place.2.line place.2.declaration = none ↔ place.2.edit? setting place.1 = none := by
  have run : Block.run place.2.above = Block.run higher.reverse :=
    List.reverse_inj.mp found.block
  rw [Segment.edit?, Refresh.edit?_eq_none_iff, Refresh.edit?_eq_none_iff, run, found.enclosing]

theorem mem_lines_refresh_iff {setting : Refresh.Setting} {outline : Outline} {line : Text} :
    line ∈ (outline.refresh setting).lines ↔
      (∃ place ∈ enclosed none outline.segments, line ∈ (place.2.refresh setting place.1).lines) ∨
        line ∈ outline.tail := by
  rw [lines_refresh, List.mem_append, List.mem_flatMap]

theorem mem_lines_of_enclosed {outline : Outline} {place : Option Text × Segment}
    (member : place ∈ enclosed none outline.segments) {line : Text}
    (inside : line ∈ place.2.lines) : line ∈ outline.lines := by
  obtain ⟨upper, lower, split, _⟩ := mem_enclosed_iff.mp member
  rw [lines, split]
  simp [inside]

end Outline

/-- A pass keeps the pairs of a carriage return and a line feed exactly if it has no edit for a
declaration on a line without terminator, which only the last line can be. -/
theorem isPaired_refreshed_iff {table : Curated.Table} (single : table.Avoids '\n') {text : Text}
    (paired : text.IsPaired) (path : Text) :
    (refreshed table path text).IsPaired ↔
      ∀ site : Site, site.file = text.lines → '\n' ∉ site.line →
        site.edit? ⟨table, path, FileCues.ofText text⟩ = none := by
  have cut := Outline.lines_ofLines text.lines
  rw [Text.isPaired_iff] at paired ⊢
  rw [Outline.lines_refreshed single path cut]
  constructor
  · intro kept site whole unended
    by_contra changes
    obtain ⟨place, member, line, declared, found⟩ :=
      Outline.exists_place (cut.trans whole.symm) site.recognized
    have own : place.2.edit? ⟨table, path, FileCues.ofText text⟩ place.1 ≠ none := by
      intro idle
      rw [← found.edit?_eq_none_iff, line, declared] at idle
      exact changes idle
    rw [← line] at unended
    obtain ⟨other, shown, unpaired⟩ := Segment.exists_not_endsPaired unended own
    exact unpaired (kept other (Outline.mem_lines_refresh_iff.mpr (Or.inl ⟨place, member, shown⟩)))
  · intro idle line member
    rcases Outline.mem_lines_refresh_iff.mp member with ⟨place, inside, shown⟩ | rest
    · obtain ⟨higher, below, found⟩ := Outline.exists_lines inside
      refine Segment.endsPaired_of_mem_refresh ?_ ?_ line shown
      · intro other former
        apply paired
        rw [← cut]
        exact Outline.mem_lines_of_enclosed inside former
      · rw [or_iff_not_imp_left, ← found.edit?_eq_none_iff]
        exact idle ⟨higher, place.2.line, below, place.2.declaration, place.2.recognized⟩
          (found.lines.symm.trans cut)
    · apply paired
      rw [← cut, Outline.lines]
      exact List.mem_append_right _ rest

theorem isPaired_refreshed_mode :
    Curated.Table.Avoids Curated.shipped '\n' ∧
      Text.IsPaired "using System;\r\npublic enum Mode\r\n".toList ∧
      Text.IsPaired (refreshed Curated.shipped "A.cs".toList
        "using System;\r\npublic enum Mode\r\n".toList) := by
  have paired : Text.IsPaired "using System;\r\npublic enum Mode\r\n".toList := by decide
  refine ⟨Curated.Table.avoids_shipped, paired,
    (isPaired_refreshed_iff Curated.Table.avoids_shipped paired _).mpr ?_⟩
  intro site whole unended
  have ended : ∀ line ∈ Text.lines "using System;\r\npublic enum Mode\r\n".toList, '\n' ∈ line := by
    decide
  exact (unended (ended site.line (by rw [← whole]; simp [Site.file]))).elim

/-- A declaration on a last line without terminator brings line feeds alone into the file. -/
theorem isPaired_lost_mode :
    Text.IsPaired "using System;\r\npublic enum Mode".toList ∧
      ¬Text.IsPaired (refreshed Curated.shipped "A.cs".toList
        "using System;\r\npublic enum Mode".toList) := by
  decide +kernel

end DocComments
