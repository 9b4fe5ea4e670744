import DocComments.Proofs.LaterPasses
import DocComments.Proofs.Runs

/-! When a pass changes a file. Planned edits never cancel out: each one changes the segment it is
made for, and the segments can be read off the lines. So the file stays as it is exactly when no
edit is planned (`refreshed_eq_self_iff`). -/

namespace DocComments

theorem Segment.refresh_eq_self_iff (setting : Refresh.Setting) (enclosing : Option Text)
    (segment : Segment) :
    segment.refresh setting enclosing = segment ↔ segment.edit? setting enclosing = none := by
  by_cases empty : segment.block = []
  · refine iff_of_false ?_ ?_
    · intro same
      have found := block_refresh setting enclosing segment
      rw [same, if_pos (Or.inl empty), empty] at found
      exact Refresh.fresh_ne_nil _ _ _ _ found.symm
    · rw [edit?_eq, if_pos empty]
      exact Option.some_ne_none _
  · rw [edit?_eq_none_iff empty]
    constructor
    · intro same replaceable
      have found := block_refresh setting enclosing segment
      rwa [same, if_pos (Or.inr replaceable)] at found
    · intro current
      have kept := aboveRefreshed_of_kept empty fun changes => changes.2 (current changes.1)
      simp only [refresh, kept]

namespace Outline

theorem lines_injective {first second : Outline} (same : first.lines = second.lines) :
    first = second := by
  rw [← ofLines_lines first, same, ofLines_lines]

theorem refresh_eq_self_iff (setting : Refresh.Setting) (outline : Outline) :
    outline.refresh setting = outline ↔
      ∀ place ∈ enclosed none outline.segments, place.2.refresh setting place.1 = place.2 := by
  have own := map_enclosed none outline.segments
  rw [← List.map_inj_left, own]
  constructor
  · exact congrArg Outline.segments
  · intro same
    simp only [refresh, same]

end Outline

theorem refreshed_eq_self_iff {table : Curated.Table} (single : table.Avoids '\n')
    (path text : Text) : refreshed table path text = text ↔ plan table path text = [] := by
  refine ⟨?_, refreshed_of_plan_eq_nil⟩
  intro same
  have cut := Outline.lines_ofLines text.lines
  have lines := Outline.lines_refreshed single path cut
  rw [same] at lines
  -- The lines are the same, so the outlines are, and with them the segments one by one.
  have stays := Outline.lines_injective (lines.symm.trans cut.symm)
  rw [Outline.refresh_eq_self_iff] at stays
  rw [Outline.plan_lines table path cut, Outline.edits_eq_nil_iff]
  intro place member
  exact (Segment.refresh_eq_self_iff _ _ _).mp (stays place member)

theorem FileTree.refreshFile_of_textAt {table : Curated.Table} (single : table.Avoids '\n')
    {tree : FileTree} {path text : Text} {location : FileTree.Location}
    (read : tree.textAt path = .ok (location, text)) :
    tree.refreshFile table path =
      if plan table path text = [] then .ok (⟨path, none⟩, tree)
      else match tree.refusal? location with
        | some cause => .error (.unwritable path cause)
        | none => .ok (⟨path, some (refreshed table path text)⟩,
            tree.setContent location (.text (refreshed table path text))) := by
  rw [refreshFile, run_refreshFile_of_textAt table read]
  simp only [refreshed_eq_self_iff single]
  by_cases idle : plan table path text = []
  · rw [if_pos idle, if_pos idle]
    rfl
  · rw [if_neg idle, if_neg idle]
    cases tree.refusal? location <;> rfl

/-- A file stays as it is exactly when no edit is planned for it. If the file lets itself be written,
exactly then its refreshing reports no change and leaves the tree alone; if not, exactly then its
refreshing does not fail. -/
theorem unchanged_iff_plan_eq_nil {table : Curated.Table} (single : table.Avoids '\n')
    (path text : Text) :
    (plan table path text = [] ↔ Edit.applyAll text.lines (plan table path text) = text) ∧
      ∀ (tree : FileTree) (location : FileTree.Location), tree.textAt path = .ok (location, text) →
        (tree.refusal? location = none →
          ∃ outcome next, tree.refreshFile table path = .ok (outcome, next) ∧
            (outcome.written.isSome = true ↔ plan table path text ≠ []) ∧
            (next = tree ↔ plan table path text = [])) ∧
        ∀ cause, tree.refusal? location = some cause →
          (tree.refreshFile table path = .ok (⟨path, none⟩, tree) ↔ plan table path text = []) ∧
          (tree.refreshFile table path = .error (.unwritable path cause) ↔
            plan table path text ≠ []) := by
  refine ⟨(refreshed_eq_self_iff single path text).symm, ?_⟩
  intro tree location read
  have step := FileTree.refreshFile_of_textAt single read
  by_cases idle : plan table path text = []
  · rw [if_pos idle] at step
    exact ⟨fun _ => ⟨_, _, step, by simp [idle], by simp [idle]⟩, by simp [step, idle]⟩
  · rw [if_neg idle] at step
    constructor
    · intro free
      rw [free] at step
      refine ⟨_, _, step, by simp [idle], iff_of_false ?_ idle⟩
      intro same
      have new := FileTree.lookup?_setContent_self read (.text (refreshed table path text))
      rw [same, FileTree.lookup?_of_textAt read] at new
      rw [← refreshed_eq_self_iff single] at idle
      have contents : text = refreshed table path text := by simpa using new
      exact idle contents.symm
    · intro cause refused
      rw [refused] at step
      simp [step, idle]

theorem unchanged_iff_mixedFolder :
    Curated.Table.Avoids Curated.shipped '\n' ∧
      mixedFolder.textAt "a.cs".toList =
        .ok (["work".toList, "a.cs".toList], "public enum Mode\n".toList) ∧
      mixedFolder.refusal? ["work".toList, "a.cs".toList] = none ∧
      plan Curated.shipped "a.cs".toList "public enum Mode\n".toList ≠ [] ∧
      (∃ outcome next,
        mixedFolder.refreshFile Curated.shipped "a.cs".toList = .ok (outcome, next) ∧
          outcome.written.isSome = true ∧ next ≠ mixedFolder) ∧
      lockedFolder.refreshFile Curated.shipped "a.cs".toList =
        .error (.unwritable "a.cs".toList .denied) := by
  have read : mixedFolder.textAt "a.cs".toList =
      .ok (["work".toList, "a.cs".toList], "public enum Mode\n".toList) := by decide +kernel
  have locked : lockedFolder.textAt "a.cs".toList =
      .ok (["work".toList, "a.cs".toList], "public enum Mode\n".toList) := by decide +kernel
  have free : mixedFolder.refusal? ["work".toList, "a.cs".toList] = none := by decide +kernel
  have changes : plan Curated.shipped "a.cs".toList "public enum Mode\n".toList ≠ [] := by
    decide +kernel
  obtain ⟨_, files⟩ := unchanged_iff_plan_eq_nil Curated.Table.avoids_shipped "a.cs".toList
    "public enum Mode\n".toList
  obtain ⟨outcome, next, step, written, same⟩ := (files mixedFolder _ read).1 free
  have refused := (files lockedFolder _ locked).2 .denied (by decide +kernel)
  exact ⟨Curated.Table.avoids_shipped, read, free, changes,
    ⟨outcome, next, step, written.mpr changes, mt same.mp changes⟩, refused.2.mpr changes⟩

end DocComments
