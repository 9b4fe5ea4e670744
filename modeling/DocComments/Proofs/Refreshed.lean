import DocComments.Proofs.Splicing

/-! The lines of a refreshed file. As long as curated texts are single lines, the output is cut
into lines as it was put together, and only documentation lines come and go. -/

namespace DocComments

namespace Segment

theorem isDocLine_of_mem_block {segment : Segment} {other : Text} (member : other ∈ segment.block) :
    Block.isDocLine other = true :=
  Block.isDocLine_of_mem_run (List.mem_reverse.mp member)

theorem isCut_refresh {table : Curated.Table} (single : table.Avoids '\n') {path : Text}
    {cues : FileCues} {enclosing : Option Text} {segment : Segment} {below other : List Text}
    (cut : Text.IsCut (segment.lines ++ below)) (rest : Text.IsCut other)
    (last : below = [] → other = []) :
    Text.IsCut ((segment.refresh ⟨table, path, cues⟩ enclosing).lines ++ other) := by
  simp only [lines, List.append_assoc, List.singleton_append] at cut ⊢
  rw [Text.isCut_append (List.cons_ne_nil _ _)] at cut ⊢
  refine ⟨?_, cut.2.exchange rest last⟩
  intro line member
  rcases mem_aboveRefreshed (List.mem_reverse.mp member) with old | fresh
  · exact cut.1 line (List.mem_reverse.mpr old)
  · exact Refresh.isComplete_of_mem_fresh single fresh

theorem filter_refresh (setting : Refresh.Setting) (enclosing : Option Text) (segment : Segment) :
    (segment.refresh setting enclosing).lines.filter (fun line => !Block.isDocLine line) =
      segment.lines.filter (fun line => !Block.isDocLine line) := by
  have freshLines : (segment.fresh setting enclosing).filter (fun line => !Block.isDocLine line) = [] := by
    rw [List.filter_eq_nil_iff]
    intro line member
    simp [Refresh.isDocLine_of_mem_fresh member]
  have blockLines : segment.block.filter (fun line => !Block.isDocLine line) = [] := by
    rw [List.filter_eq_nil_iff]
    intro line member
    simp [isDocLine_of_mem_block member]
  by_cases empty : segment.block = []
  · rw [lines_refresh_of_missing setting enclosing empty, lines]
    simp [freshLines]
  · by_cases replaceable : segment.IsReplaceable setting enclosing
    · rw [lines_refresh_of_replaceable empty replaceable, segment.lines_eq_parts]
      simp [freshLines, blockLines]
    · rw [lines_refresh_of_kept empty (mt And.left replaceable)]

theorem block_refresh_of_fresh {setting : Refresh.Setting} {enclosing : Option Text}
    {segment : Segment} {lead rest : List Text}
    (above : segment.aboveRefreshed setting enclosing =
      lead ++ ((segment.fresh setting enclosing).reverse ++ rest))
    (skipped : ∀ line ∈ lead, Block.isPassedOver line = true)
    (stop : ∀ line ∈ rest.head?, Block.isDocLine line = false) :
    (segment.refresh setting enclosing).block = segment.fresh setting enclosing := by
  have docs : ∀ line ∈ (segment.fresh setting enclosing).reverse, Block.isDocLine line = true := by
    intro line member
    exact Refresh.isDocLine_of_mem_fresh (List.mem_reverse.mp member)
  have nonempty : (segment.fresh setting enclosing).reverse ≠ [] :=
    mt List.reverse_eq_nil_iff.mp (Refresh.fresh_ne_nil _ _ _ _)
  have found := Block.run_of_parts skipped docs nonempty stop
  rw [← above] at found
  rw [block, refresh, found, List.reverse_reverse]

/-- The search finds the new block where one was missing or replaced, and the old one elsewhere. -/
theorem block_refresh (setting : Refresh.Setting) (enclosing : Option Text) (segment : Segment) :
    (segment.refresh setting enclosing).block =
      if segment.block = [] ∨ segment.IsReplaceable setting enclosing then
        segment.fresh setting enclosing
      else segment.block := by
  by_cases empty : segment.block = []
  · have missing : Block.run segment.above = [] := List.reverse_eq_nil_iff.mp empty
    have above : segment.aboveRefreshed setting enclosing =
        [] ++ ((segment.fresh setting enclosing).reverse ++ segment.above) := by
      simp [aboveRefreshed, empty]
    rw [if_pos (Or.inl empty)]
    exact block_refresh_of_fresh above (by simp) fun line first =>
      Block.isDocLine_head?_of_run_eq_nil missing first
  · by_cases replaceable : segment.IsReplaceable setting enclosing
    · have above : segment.aboveRefreshed setting enclosing = Block.passed segment.above ++
          ((segment.fresh setting enclosing).reverse ++ Block.beyond segment.above) := by
        simp [aboveRefreshed, empty, replaceable]
      rw [if_pos (Or.inr replaceable)]
      exact block_refresh_of_fresh above (fun line member => Block.isPassedOver_of_mem_passed member)
        fun line first => Block.isDocLine_head?_beyond first
    · have kept := aboveRefreshed_of_kept empty (mt And.left replaceable)
      rw [if_neg (not_or.mpr ⟨empty, replaceable⟩)]
      simp only [block, refresh, kept]

end Segment

namespace Outline

theorem isCut_refresh {table : Curated.Table} (single : table.Avoids '\n') {path : Text}
    {cues : FileCues} (outer : Option Text) (segments : List Segment) {tail : List Text}
    (cut : Text.IsCut (segments.flatMap Segment.lines ++ tail)) :
    Text.IsCut ((enclosed outer segments).flatMap
      (fun place => (place.2.refresh ⟨table, path, cues⟩ place.1).lines) ++ tail) := by
  induction segments generalizing outer with
  | nil => exact cut
  | cons segment below ih =>
      simp only [enclosed, List.flatMap_cons, List.append_assoc] at cut ⊢
      apply Segment.isCut_refresh single cut
      · exact ih _ cut.lower
      · intro last
        cases below with
        | nil => simpa [enclosed] using last
        | cons next below => simp [Segment.lines] at last

theorem lines_refreshed {table : Curated.Table} (single : table.Avoids '\n') (path : Text)
    {text : Text} {outline : Outline} (cut : outline.lines = text.lines) :
    (refreshed table path text).lines =
      (outline.refresh ⟨table, path, FileCues.ofText text⟩).lines := by
  have whole : Text.IsCut outline.lines := by
    rw [cut]
    exact Text.isCut_lines text
  rw [refreshed_eq_flatten table path cut, lines_refresh]
  exact (isCut_refresh single none outline.segments whole).lines_flatten

theorem filter_refresh (setting : Refresh.Setting) (outline : Outline) :
    (outline.refresh setting).lines.filter (fun line => !Block.isDocLine line) =
      outline.lines.filter (fun line => !Block.isDocLine line) := by
  rw [lines_refresh, lines]
  simp only [List.filter_append, List.filter_flatMap, Segment.filter_refresh]
  rw [flatMap_enclosed none outline.segments fun segment =>
    segment.lines.filter fun line => !Block.isDocLine line]

end Outline

/-- Code stays as it is, byte for byte and in the same order. -/
theorem filter_code_refreshed {table : Curated.Table} (single : table.Avoids '\n')
    (path text : Text) :
    (refreshed table path text).lines.filter (fun line => !Block.isDocLine line) =
      text.lines.filter (fun line => !Block.isDocLine line) := by
  have cut := Outline.lines_ofLines text.lines
  rw [Outline.lines_refreshed single path cut, Outline.filter_refresh, cut]

theorem filter_code_toColor :
    Curated.Table.Avoids Curated.shipped '\n' ∧
      (refreshed Curated.shipped "Helpers/ColorHelper.cs".toList
          "[Pure]\npublic string ToColor(string str)".toList).lines.filter
          (fun line => !Block.isDocLine line) =
        (Text.lines "[Pure]\npublic string ToColor(string str)".toList).filter
          (fun line => !Block.isDocLine line) :=
  ⟨Curated.Table.avoids_shipped, filter_code_refreshed Curated.Table.avoids_shipped _ _⟩

end DocComments
