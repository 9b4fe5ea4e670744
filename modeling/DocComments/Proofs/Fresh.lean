import DocComments.Proofs.Blocks
import DocComments.Proofs.Generated
import DocComments.Proofs.Lines

/-! Generated lines as they are put above a declaration. Each is a documentation line of its own
and none is left to be filled in. Cues do not matter to what is curated, nor to interfaces. -/

namespace DocComments

namespace Refresh

def fresh (setting : Setting) (enclosing : Option Text) (line : Text)
    (declaration : Declaration) : List Text :=
  setLike line (document setting enclosing declaration).lines

theorem isBlank_of_mem_indentation {line : Text} {character : Char}
    (member : character ∈ line.indentation) : character = ' ' ∨ character = '\t' := by
  simpa using List.mem_takeWhile_imp member

theorem dropBlanks_indentation (line rest : Text) :
    Text.dropBlanks (line.indentation ++ rest) = rest.dropBlanks := by
  apply List.dropWhile_append_of_pos
  intro character member
  rcases isBlank_of_mem_indentation member with rfl | rfl
  · decide
  · decide

theorem dropBlanks_setLike (line : Text) {generated : Text} (marked : Block.marker <+: generated) :
    Text.dropBlanks (line.indentation ++ generated ++ line.terminator) =
      generated ++ line.terminator := by
  obtain ⟨rest, rfl⟩ := marked
  rw [List.append_assoc, dropBlanks_indentation]
  rfl

theorem mem_setLike {line shown : Text} {lines : List Text} (member : shown ∈ setLike line lines) :
    ∃ generated ∈ lines, shown = line.indentation ++ generated ++ line.terminator := by
  obtain ⟨generated, inside, same⟩ := List.mem_map.mp member
  exact ⟨generated, inside, same.symm⟩

theorem isDocLine_of_mem_fresh {setting : Setting} {enclosing : Option Text}
    {declaration : Declaration} {line shown : Text}
    (member : shown ∈ fresh setting enclosing line declaration) :
    Block.isDocLine shown = true := by
  obtain ⟨generated, inside, rfl⟩ := mem_setLike member
  have marked := marker_of_mem_document inside
  rw [Block.isDocLine, dropBlanks_setLike line marked, List.isPrefixOf_iff_prefix]
  exact marked.trans (List.prefix_append _ _)

theorem fresh_ne_nil (setting : Setting) (enclosing : Option Text) (declaration : Declaration)
    (line : Text) : fresh setting enclosing line declaration ≠ [] := by
  simpa [fresh, setLike] using document_lines_ne_nil setting enclosing declaration

theorem isComplete_of_mem_fresh {table : Curated.Table} (single : table.Avoids '\n')
    {path : Text} {cues : FileCues} {enclosing : Option Text} {declaration : Declaration}
    {line shown : Text}
    (member : shown ∈ fresh ⟨table, path, cues⟩ enclosing line declaration) :
    shown.IsComplete := by
  obtain ⟨generated, inside, rfl⟩ := mem_setLike member
  apply Text.isComplete_terminator
  apply List.not_mem_append
  · intro indented
    rcases isBlank_of_mem_indentation indented with same | same
    · exact absurd same (by decide)
    · exact absurd same (by decide)
  · exact not_mem_of_mem_document (by decide) (by decide) single inside

theorem mem_terminator {line : Text} {character : Char} (member : character ∈ line.terminator) :
    character = '\r' ∨ character = '\n' := by
  unfold Text.terminator at member
  split at member
  · simpa using member
  · exact Or.inr (by simpa using member)

theorem dropBlanks_terminator (line : Text) : line.terminator.dropBlanks = [] := by
  rw [Text.dropBlanks, List.dropWhile_eq_nil_iff]
  intro character member
  rcases mem_terminator member with rfl | rfl
  · decide
  · decide

theorem template_eq : "설명".toList = ['설', '명'] := by decide

theorem template_of_append {summary : Text} (line : Text)
    (start : "설명".toList <+: Text.dropBlanks (summary ++ line.terminator)) :
    "설명".toList <+: summary.dropBlanks := by
  by_cases empty : summary.dropBlanks = []
  · unfold Text.dropBlanks at empty start
    rw [List.dropWhile_append_of_pos (List.dropWhile_eq_nil_iff.mp empty)] at start
    change _ <+: line.terminator.dropBlanks at start
    rw [dropBlanks_terminator, List.prefix_nil, template_eq] at start
    cases start
  · rw [Text.dropBlanks_append empty] at start
    rw [template_eq] at start ⊢
    cases shown : summary.dropBlanks with
    | nil => exact absurd shown empty
    | cons first rest =>
        rw [shown] at start
        cases rest with
        | cons second rest =>
            exact List.prefix_of_prefix_length_le start (List.prefix_append _ _) (by simp)
        | nil =>
            have below : ['명'] <+: line.terminator := (List.cons_prefix_cons.mp start).2
            have member : '명' ∈ line.terminator := below.subset (by simp)
            rcases mem_terminator member with same | same
            · exact absurd same (by decide)
            · exact absurd same (by decide)

theorem isPlaceholderLine_fresh {setting : Setting} {enclosing : Option Text}
    {declaration : Declaration} {line shown : Text}
    (written : ¬"설명".toList <+: (summaryText setting enclosing declaration).dropBlanks)
    (member : shown ∈ setLike line (document setting enclosing declaration).lines) :
    isPlaceholderLine shown = false := by
  obtain ⟨generated, inside, rfl⟩ := mem_setLike member
  have marked := marker_of_mem_document inside
  rw [isPlaceholderLine, dropBlanks_setLike line marked, Bool.and_eq_false_iff]
  right
  rw [Bool.eq_false_iff]
  intro found
  rw [List.isPrefixOf_iff_prefix] at found
  rcases document_line_cases inside with same | element
  · have lead : "/// ".toList = Block.marker ++ [' '] := by decide
    rw [same, lead] at found
    exact written (template_of_append line found)
  · have lead : "/// <".toList = Block.marker ++ [' ', '<'] := by decide
    obtain ⟨rest, rfl⟩ := element
    rw [lead, template_eq] at found
    exact absurd (List.cons_prefix_cons.mp found).1 (by decide)

theorem summaryText_isWritten {table : Curated.Table} (written : table.IsWritten) (path : Text)
    (cues : FileCues) (enclosing : Option Text) (declaration : Declaration) :
    ¬"설명".toList <+: (summaryText ⟨table, path, cues⟩ enclosing declaration).dropBlanks := by
  unfold summaryText
  cases found : curated? table path enclosing declaration with
  | some doc =>
      obtain ⟨entry, member, rfl⟩ := Curated.Table.exists_entry_of_lookup? found
      exact written entry member
  | none =>
      intro start
      have second : '명' ∈ "설명".toList := by decide
      have inside := (List.dropWhile_suffix _).subset (start.subset second)
      exact (isSentence_summarize _ _ _ _).not_mem (by decide) inside

theorem document_curated_cues (table : Curated.Table) (path : Text) (cues other : FileCues)
    (enclosing : Option Text) (declaration : Declaration) :
    (document ⟨table, path, cues⟩ enclosing declaration).curated =
      (document ⟨table, path, other⟩ enclosing declaration).curated := by
  rw [document_curated, document_curated]

theorem document_lines_of_summaryText {table : Curated.Table} {path : Text} {cues other : FileCues}
    {enclosing : Option Text} {declaration : Declaration}
    (same : summaryText ⟨table, path, cues⟩ enclosing declaration =
      summaryText ⟨table, path, other⟩ enclosing declaration) :
    (document ⟨table, path, cues⟩ enclosing declaration).lines =
      (document ⟨table, path, other⟩ enclosing declaration).lines := by
  rw [document_lines, document_lines, same]

theorem document_lines_of_curated {table : Curated.Table} {path : Text} {cues : FileCues}
    {enclosing : Option Text} {declaration : Declaration}
    (curated : (document ⟨table, path, cues⟩ enclosing declaration).curated = true)
    (other : FileCues) :
    (document ⟨table, path, cues⟩ enclosing declaration).lines =
      (document ⟨table, path, other⟩ enclosing declaration).lines := by
  rw [document_curated] at curated
  obtain ⟨doc, found⟩ := Option.isSome_iff_exists.mp curated
  apply document_lines_of_summaryText
  simp only [summaryText] at found ⊢
  rw [found]
  rfl

theorem document_lines_of_interface (table : Curated.Table) (path : Text) (cues other : FileCues)
    (enclosing : Option Text) (name : Text) :
    (document ⟨table, path, cues⟩ enclosing (.type .interfaceType name)).lines =
      (document ⟨table, path, other⟩ enclosing (.type .interfaceType name)).lines :=
  document_lines_of_summaryText rfl

theorem document_lines_of_method {table : Curated.Table} {path : Text} {cues other : FileCues}
    (same : cues.valueConverter = other.valueConverter) (enclosing : Option Text) (name : Text)
    (returnType : Option Text) (params : Text) :
    (document ⟨table, path, cues⟩ enclosing (.method name returnType params)).lines =
      (document ⟨table, path, other⟩ enclosing (.method name returnType params)).lines := by
  apply document_lines_of_summaryText
  unfold summaryText memberKind
  dsimp only
  split
  · rfl
  · simp only [summarize, Summary.ofMember, Summary.converterSentence?, same]

end Refresh

end DocComments
