import DocComments.Proofs.Lines
import DocComments.Proofs.Sites

/-! What lines put below a file change in its plan. Each declaration is documented by what is
above it, so apart from the cues the old edits stay and new ones follow (`plan_grows`). A new edit
may still replace lines of the old file. -/

namespace DocComments

namespace Refresh

/-- The edits of the upper lines, then those of the lower ones with the upper lines above them. -/
theorem planFrom_append (setting : Setting) (upper lower above : List Text) (outer : Option Text) :
    planFrom setting above outer (upper ++ lower) =
      planFrom setting above outer upper ++
        planFrom setting (upper.reverse ++ above)
          ((Declaration.ofLines upper).foldl enclosingAfter outer) lower := by
  induction upper generalizing above outer with
  | nil => rfl
  | cons line upper ih =>
      simp only [List.cons_append, planFrom, List.reverse_cons, List.append_assoc,
        List.nil_append, Declaration.ofLines, List.filterMap_cons]
      cases Declaration.recognize? line.dropTerminator with
      | none => exact ih (line :: above) outer
      | some declaration =>
          rw [List.append_assoc, List.foldl_cons]
          exact congrArg _ (ih (line :: above) (enclosingAfter outer declaration))

end Refresh

namespace Site

def withBelow (site : Site) (more : List Text) : Site :=
  { site with below := site.below ++ more }

def withAbove (site : Site) (more : List Text) : Site :=
  { site with higher := more ++ site.higher }

theorem file_withBelow (site : Site) (more : List Text) :
    (site.withBelow more).file = site.file ++ more := by
  simp [file, withBelow]

theorem file_withAbove (site : Site) (more : List Text) :
    (site.withAbove more).file = more ++ site.file := by
  simp [file, withAbove]

theorem length_higher_lt (site : Site) : site.higher.length < site.file.length := by
  simp [file]

theorem isFor_withBelow (site : Site) (more : List Text) (edit : Edit) :
    edit.IsFor (site.withBelow more) ↔ edit.IsFor site := by
  cases edit <;> exact Iff.rfl

theorem edit?_withAbove (site : Site) (more : List Text) (setting : Refresh.Setting) :
    (site.withAbove more).edit? setting =
      Refresh.edit? setting
        ((Declaration.ofLines (site.higher ++ [site.line])).foldl Refresh.enclosingAfter
          (Refresh.enclosingIn more))
        (site.higher.reverse ++ more.reverse) site.line site.declaration := by
  simp only [edit?, enclosing, withAbove, Refresh.enclosingIn, List.append_assoc,
    Declaration.ofLines_append more, List.foldl_append, List.reverse_append]

end Site

section Extension

variable {table : Curated.Table} {path above below : Text}
  (ended : above = [] ∨ ['\n'] <:+ above)
  (same : FileCues.ofText above = FileCues.ofText (above ++ below))

include ended same

theorem plan_append :
    plan table path (above ++ below) = plan table path above ++
      Refresh.planFrom ⟨table, path, FileCues.ofText (above ++ below)⟩ above.lines.reverse
        (Refresh.enclosingIn above.lines) below.lines := by
  rw [plan, plan, same, Text.lines_append ended, Refresh.planFrom_append, List.append_nil]
  rfl

/-- The plan of a file is the beginning of the plan of the longer file, unless what is added brings a cue.
It consists of the edits there for the declarations in the old lines. -/
theorem plan_grows :
    plan table path above <+: plan table path (above ++ below) ∧
      ∀ (site : Site) (edit : Edit), site.file = (above ++ below).lines → edit.IsFor site →
        edit ∈ plan table path (above ++ below) →
        (edit ∈ plan table path above ↔ site.higher.length < above.lines.length) := by
  rw [plan_append ended same, Text.lines_append ended]
  refine ⟨List.prefix_append _ _, fun site edit cut own member => ⟨?_, ?_⟩⟩
  · intro early
    obtain ⟨other, whole, planned⟩ := mem_plan_iff.mp early
    have found := (other.isFor_withBelow below.lines edit).mpr (Site.isFor_of_edit? planned)
    have extended := other.file_withBelow below.lines
    rw [whole] at extended
    rw [Site.eq_of_isFor (cut.trans extended.symm) own found, ← whole]
    exact other.length_higher_lt
  · intro early
    refine (List.mem_append.mp member).resolve_right fun late => ?_
    obtain ⟨other, whole, planned⟩ := Refresh.mem_planFrom_iff.mp late
    rw [← Site.edit?_withAbove] at planned
    have extended := other.file_withAbove above.lines
    rw [whole] at extended
    have moved := Site.eq_of_isFor (cut.trans extended.symm) own (Site.isFor_of_edit? planned)
    rw [moved, Site.withAbove, List.length_append] at early
    omega

end Extension

def unfinishedFile : Text :=
  "public enum Mode\n/// <summary>\n/// 설명\n/// </summary>\n".toList

/-- The edit for the declaration that is added replaces lines of the old file. -/
theorem plan_grows_unfinished :
    (unfinishedFile = [] ∨ ['\n'] <:+ unfinishedFile) ∧
      FileCues.ofText unfinishedFile =
        FileCues.ofText (unfinishedFile ++ "public int Area()\n".toList) ∧
      plan Curated.shipped "A.cs".toList unfinishedFile <+:
        plan Curated.shipped "A.cs".toList (unfinishedFile ++ "public int Area()\n".toList) ∧
      ∃ edit ∈ plan Curated.shipped "A.cs".toList
          (unfinishedFile ++ "public int Area()\n".toList),
        edit.anchor < unfinishedFile.lines.length ∧
          edit ∉ plan Curated.shipped "A.cs".toList unfinishedFile := by
  have ended : unfinishedFile = [] ∨ ['\n'] <:+ unfinishedFile := by decide
  have same : FileCues.ofText unfinishedFile =
      FileCues.ofText (unfinishedFile ++ "public int Area()\n".toList) := by decide +kernel
  have added : ∃ edit ∈ plan Curated.shipped "A.cs".toList
      (unfinishedFile ++ "public int Area()\n".toList),
      edit.anchor < unfinishedFile.lines.length ∧
        edit ∉ plan Curated.shipped "A.cs".toList unfinishedFile := by decide +kernel
  exact ⟨ended, same, (plan_grows ended same).1, added⟩

end DocComments
