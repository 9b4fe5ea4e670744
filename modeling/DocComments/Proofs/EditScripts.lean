import DocComments.Proofs.Passes
import DocComments.Proofs.Sites

/-! The plan of a file as a script. An edit touches lines between its declaration and the
declaration before it, so a pass over the file comes to the edits in their order and uses all of
them (`plan_wellFormed`). -/

namespace DocComments

namespace Site

theorem last_lt {site : Site} {block : Block.Located} (found : site.block? = some block) :
    block.span.last < site.higher.length := by
  have parts := congrArg List.length (Block.parts_append site.higher.reverse)
  simp only [List.length_append, List.length_reverse] at parts
  rw [block?, Block.nearest?_eq] at found
  split at found
  · cases found
  · next nonempty =>
      have positive := List.length_pos_iff.mpr nonempty
      rw [← Option.some.inj found]
      dsimp only
      omega

theorem lt_start {site other : Site} {block : Block.Located} (found : site.block? = some block)
    (same : other.file = site.file) (before : other.higher.length < site.higher.length) :
    other.higher.length < block.span.start := by
  by_contra below
  obtain ⟨beyond, passed, whole, start, docs, skipped⟩ := exists_parts found
  have here : site.higher[other.higher.length]? = some other.line := by
    have line : other.file[other.higher.length]? = some other.line := by simp [file]
    rwa [same, file, List.getElem?_append_left before] at line
  rw [whole, List.getElem?_append_right (by omega)] at here
  have access := Declaration.hasAccess_of_recognize? other.recognized
  rcases List.mem_append.mp (List.mem_of_getElem? here) with doc | pass
  · have documentation := docs other.line doc
    rw [Block.isDocLine_of_hasAccess access] at documentation
    cases documentation
  · have between := skipped other.line pass
    rw [Block.isPassedOver_of_hasAccess access] at between
    cases between

theorem last_le_of_edit? {site : Site} {setting : Refresh.Setting} {edit : Edit}
    (planned : site.edit? setting = some edit) : edit.last ≤ site.higher.length := by
  cases edit with
  | replace start last lines =>
      obtain ⟨block, found, span⟩ := block_of_edit? planned
      have inside := last_lt found
      rw [span] at inside
      exact Nat.le_of_lt inside
  | insert position lines =>
      rw [position_of_edit? planned]
      exact Nat.le_refl _

theorem lt_anchor_of_edit? {site other : Site} {setting : Refresh.Setting} {edit : Edit}
    (planned : site.edit? setting = some edit) (same : other.file = site.file)
    (before : other.higher.length < site.higher.length) : other.higher.length < edit.anchor := by
  cases edit with
  | replace start last lines =>
      obtain ⟨block, found, span⟩ := block_of_edit? planned
      have apart := lt_start found same before
      rwa [span] at apart
  | insert position lines =>
      rw [position_of_edit? planned]
      exact before

end Site

/-- Planned edits stand in the order of the lines they touch, these lie between the declaration of the
edit and the one before it, and a pass over the file uses each edit once. -/
theorem plan_wellFormed (table : Curated.Table) (path text : Text) :
    (plan table path text).Pairwise (fun first second => first.anchor < second.anchor) ∧
      (∀ edit ∈ plan table path text, edit.anchor ≤ edit.last ∧ edit.last < text.lines.length) ∧
      (∀ edit ∈ plan table path text, ∃ site : Site, site.file = text.lines ∧
        site.edit? ⟨table, path, FileCues.ofText text⟩ = some edit ∧
        edit.last ≤ site.higher.length ∧
        ∀ other : Site, other.file = text.lines → other.higher.length < site.higher.length →
          other.higher.length < edit.anchor) ∧
      (plan table path text).Pairwise (fun first second => first.last < second.anchor) ∧
      (Pass.run text.lines (Pass.start (plan table path text))).used = plan table path text ∧
      (Pass.run text.lines (Pass.start (plan table path text))).waiting = [] ∧
      (Pass.run text.lines (Pass.start (plan table path text))).written.flatten =
        refreshed table path text := by
  have script := isScript_plan table path text
  obtain ⟨used, none⟩ := Pass.run_script script
  refine ⟨script.anchors, script.within, ?_, script.apart, used, none,
    (Pass.applyAll_eq_run text.lines _).symm⟩
  intro edit member
  obtain ⟨site, cut, planned⟩ := mem_plan_iff.mp member
  refine ⟨site, cut, planned, Site.last_le_of_edit? planned, ?_⟩
  intro other whole before
  exact Site.lt_anchor_of_edit? planned (whole.trans cut.symm) before

end DocComments
