import DocComments.Proofs.Places
import DocComments.Proofs.Refreshed

/-! The declarations of a refreshed file. They are those of the file before, each has a block, and
no block is left to be filled in. -/

namespace DocComments

namespace Block

def Span.linesOf (span : Span) (file : List Text) : List Text :=
  (file.take (span.last + 1)).drop span.start

theorem exists_span {higher : List Text} (nonempty : run higher.reverse ≠ []) (below : List Text) :
    ∃ span, spanAbove (higher ++ below) higher.length = .ok (some span) ∧
      span.linesOf (higher ++ below) = (run higher.reverse).reverse := by
  have positive : 0 < (run higher.reverse).length := List.length_pos_iff.mpr nonempty
  have parts := congrArg List.reverse (parts_append higher.reverse)
  simp only [List.reverse_append, List.reverse_reverse, List.append_assoc] at parts
  refine ⟨⟨(beyond higher.reverse).length,
    (beyond higher.reverse).length + (run higher.reverse).length - 1⟩, ?_, ?_⟩
  · rw [spanAbove, if_pos (by simp), List.take_left, nearest?_eq, if_neg nonempty]
    rfl
  · have between := Edit.between_parts (beyond higher.reverse).reverse (run higher.reverse).reverse
      ((passed higher.reverse).reverse ++ below)
    have behind : (beyond higher.reverse).length + (run higher.reverse).length - 1 + 1 =
        (beyond higher.reverse).length + (run higher.reverse).length := by omega
    have whole : higher ++ below = (beyond higher.reverse).reverse ++
        ((run higher.reverse).reverse ++ ((passed higher.reverse).reverse ++ below)) := by
      have front := congrArg (fun lines => lines ++ below) parts
      simpa only [List.append_assoc] using front.symm
    rw [Span.linesOf, behind, whole]
    simpa only [List.length_reverse] using between

end Block

namespace Segment

theorem block_refresh_ne_nil (setting : Refresh.Setting) (enclosing : Option Text)
    (segment : Segment) : (segment.refresh setting enclosing).block ≠ [] := by
  rw [block_refresh]
  split
  · exact Refresh.fresh_ne_nil _ _ _ _
  · next kept => exact (not_or.mp kept).1

theorem isPlaceholder_block_refresh {table : Curated.Table} (written : table.IsWritten)
    (path : Text) (cues : FileCues) (enclosing : Option Text) (segment : Segment) :
    Refresh.isPlaceholder (segment.refresh ⟨table, path, cues⟩ enclosing).block = false := by
  rw [block_refresh, Bool.eq_false_iff]
  intro template
  rw [isPlaceholder_iff] at template
  split at template
  · obtain ⟨line, member, unwritten⟩ := template.2
    have filled := Refresh.isPlaceholderLine_fresh
      (Refresh.summaryText_isWritten written path cues enclosing segment.declaration) member
    rw [filled] at unwritten
    cases unwritten
  · next kept => exact kept (Or.inr (Replaceable.placeholder template.1 template.2))

theorem block_refresh_of_prescribed {table : Curated.Table} {path : Text} {cues other : FileCues}
    {enclosing : Option Text} {segment : Segment}
    (prescribed : (Refresh.document ⟨table, path, other⟩ enclosing segment.declaration).curated = true ∨
      ∃ name, segment.declaration = .type .interfaceType name) :
    (segment.refresh ⟨table, path, cues⟩ enclosing).block =
      segment.fresh ⟨table, path, other⟩ enclosing := by
  have replaceable : segment.IsReplaceable ⟨table, path, cues⟩ enclosing := by
    rcases prescribed with curated | ⟨name, interface⟩
    · rw [Refresh.document_curated_cues table path other cues] at curated
      exact Replaceable.curated curated
    · rw [IsReplaceable, interface]
      exact Replaceable.interface
  have same : (Refresh.document ⟨table, path, cues⟩ enclosing segment.declaration).lines =
      (Refresh.document ⟨table, path, other⟩ enclosing segment.declaration).lines := by
    rcases prescribed with curated | ⟨name, interface⟩
    · exact (Refresh.document_lines_of_curated curated cues).symm
    · rw [interface]
      exact Refresh.document_lines_of_interface table path cues other enclosing name
  rw [block_refresh, if_pos (Or.inr replaceable), fresh, fresh, Refresh.fresh, same]
  rfl

end Segment

namespace Outline

theorem declarations_refresh (setting : Refresh.Setting) (outline : Outline) :
    Declaration.ofLines (outline.refresh setting).lines = Declaration.ofLines outline.lines := by
  have same := flatMap_enclosed none outline.segments fun segment => [segment.declaration]
  rw [declarations_lines, declarations_lines, refresh, List.map_map]
  simp only [List.map_eq_flatMap]
  exact same

theorem exists_of_mem_refresh {setting : Refresh.Setting} {outline : Outline}
    {place : Option Text × Segment}
    (member : place ∈ enclosed none (outline.refresh setting).segments) :
    ∃ segment : Segment, (place.1, segment) ∈ enclosed none outline.segments ∧
      place.2 = segment.refresh setting place.1 := by
  rw [refresh, enclosed_refresh] at member
  obtain ⟨former, inside, rfl⟩ := List.mem_map.mp member
  exact ⟨former.2, inside, rfl⟩

theorem block_ne_nil_of_mem_refresh {setting : Refresh.Setting} {outline : Outline}
    {place : Option Text × Segment}
    (member : place ∈ enclosed none (outline.refresh setting).segments) : place.2.block ≠ [] := by
  obtain ⟨segment, _, same⟩ := exists_of_mem_refresh member
  rw [same]
  exact Segment.block_refresh_ne_nil _ _ segment

end Outline

/-- After a pass every declaration is documented. The declarations are those from before; each has a
block, which is not left to be filled in; and the blocks of curated members and of interfaces are the
generated ones. -/
theorem refreshed_documented {table : Curated.Table} (single : table.Avoids '\n')
    (written : table.IsWritten) (path text : Text) :
    Declaration.ofLines (refreshed table path text).lines = Declaration.ofLines text.lines ∧
      ∀ (higher : List Text) (line : Text) (below : List Text) (declaration : Declaration),
        (refreshed table path text).lines = higher ++ line :: below →
        Declaration.recognize? line.dropTerminator = some declaration →
        ∃ span, Block.spanAbove (higher ++ line :: below) higher.length = .ok (some span) ∧
          Refresh.isPlaceholder (span.linesOf (higher ++ line :: below)) = false ∧
          ∀ cues : FileCues,
            let documentation := Refresh.document ⟨table, path, cues⟩
              (Refresh.enclosingIn (higher ++ [line])) declaration
            documentation.curated = true ∨ (∃ name, declaration = .type .interfaceType name) →
            span.linesOf (higher ++ line :: below) = Refresh.setLike line documentation.lines := by
  have cut := Outline.lines_ofLines text.lines
  rw [Outline.lines_refreshed single path cut]
  constructor
  · rw [Outline.declarations_refresh, cut]
  · intro higher line below declaration split recognized
    obtain ⟨place, member, rfl, rfl, found⟩ := Outline.exists_place split recognized
    obtain ⟨segment, _, same⟩ := Outline.exists_of_mem_refresh member
    have nonempty := found.run_ne_nil (Outline.block_ne_nil_of_mem_refresh member)
    obtain ⟨span, located, shown⟩ := Block.exists_span nonempty (place.2.line :: below)
    rw [← found.block] at shown
    refine ⟨span, located, ?_, ?_⟩
    · rw [shown, same]
      exact segment.isPlaceholder_block_refresh written path _ _
    · intro cues
      dsimp only
      rw [← found.enclosing, shown, same]
      intro prescribed
      exact Segment.block_refresh_of_prescribed prescribed

theorem toColor_documented :
    Curated.Table.Avoids Curated.shipped '\n' ∧ Curated.Table.IsWritten Curated.shipped ∧
      ∃ higher, (refreshed Curated.shipped "Helpers/ColorHelper.cs".toList
          "public string ToColor(string str)".toList).lines =
            higher ++ ["public string ToColor(string str)".toList] ∧
        ∃ span, Block.spanAbove (higher ++ ["public string ToColor(string str)".toList])
            higher.length = .ok (some span) ∧
          Refresh.isPlaceholder
            (span.linesOf (higher ++ ["public string ToColor(string str)".toList])) = false := by
  have split : (refreshed Curated.shipped "Helpers/ColorHelper.cs".toList
      "public string ToColor(string str)".toList).lines =
        (refreshed Curated.shipped "Helpers/ColorHelper.cs".toList
          "public string ToColor(string str)".toList).lines.dropLast ++
          ["public string ToColor(string str)".toList] := by decide +kernel
  have recognized : Declaration.recognize?
      (Text.dropTerminator "public string ToColor(string str)".toList) =
        some (.method "ToColor".toList (some "string".toList) "string str".toList) := by
    decide +kernel
  obtain ⟨span, located, filled, _⟩ := (refreshed_documented Curated.Table.avoids_shipped
    Curated.Table.isWritten_shipped _ _).2 _ _ _ _ split recognized
  exact ⟨Curated.Table.avoids_shipped, Curated.Table.isWritten_shipped, _, split, span, located,
    filled⟩

end DocComments
