import DocComments.Proofs.SecondPass
import DocComments.Proofs.Sites

/-! Passes after the first. The second words conversions anew if the first one brought the first
cue of a value converter into the file, and does nothing else; the third has nothing left to do.
-/

namespace DocComments

namespace Curated

theorem Table.lookup?_filed (table : Table) (path name : Text) (kind : MemberKind) :
    table.lookup? path name kind.filed = table.lookup? path name kind := by
  cases kind <;> rfl

end Curated

namespace FileCues

theorem valueConverter_iff (text : Text) :
    (ofText text).valueConverter = true ↔
      "IValueConverter".toList <:+: text ∨ "System.Windows.Data".toList <:+: text := by
  simp only [ofText, Bool.or_eq_true, Text.occursIn_iff]

end FileCues

namespace Refresh

theorem lookup?_of_method {setting : Setting} {enclosing : Option Text} {name params : Text}
    {returnType : Option Text}
    (plain : (document setting enclosing (.method name returnType params)).curated = false) :
    setting.table.lookup? setting.path name .method = none := by
  rw [document_curated, Option.isSome_eq_false_iff, Option.isNone_iff_eq_none] at plain
  have filed := setting.table.lookup?_filed setting.path name
    (memberKind enclosing (.method name returnType params))
  rw [curated?, Declaration.name, ← filed] at plain
  unfold memberKind at plain
  dsimp only at plain
  split at plain
  · exact plain
  · exact plain

end Refresh

namespace Site

/-- The only edits of a second pass: a site whose file has become one about value converters. -/
theorem conversion_of_edit? {table : Curated.Table} (single : table.Avoids '\n')
    (written : table.IsWritten) {path text : Text} {site : Site}
    (cut : site.file = (refreshed table path text).lines) {edit : Edit}
    (planned : site.edit? ⟨table, path, FileCues.ofText (refreshed table path text)⟩ = some edit) :
    ((FileCues.ofText text).valueConverter = false ∧
        (FileCues.ofText (refreshed table path text)).valueConverter = true) ∧
      ∃ name returnType params block, site.declaration = .method name returnType params ∧
        (name = "Convert".toList ∨ name = "ConvertBack".toList) ∧
        table.lookup? path name .method = none ∧ site.block? = some block ∧
        edit = .replace block.span.start block.span.last
          (site.fresh ⟨table, path, FileCues.ofText (refreshed table path text)⟩) := by
  have outlined := Outline.lines_ofLines text.lines
  have after := Outline.lines_refreshed single path outlined
  obtain ⟨place, member, line, declared, found⟩ :=
    Outline.exists_place (after.symm.trans cut.symm) site.recognized
  have enclosed : place.1 = site.enclosing := by
    rw [found.enclosing, line]
    rfl
  have nonempty := found.run_ne_nil (Outline.block_ne_nil_of_mem_refresh member)
  obtain ⟨block, located⟩ := Block.exists_nearest? nonempty
  have own : site.block? = some block := located
  have shown : block.lines = place.2.block := by
    rw [Block.nearest?_eq_some located, found.block]
  rw [edit?_of_block own] at planned
  split at planned
  · next outdated =>
      obtain ⟨segment, _, same⟩ := Outline.exists_of_mem_refresh member
      have fresh : site.fresh ⟨table, path, FileCues.ofText (refreshed table path text)⟩ =
          segment.fresh ⟨table, path, FileCues.ofText (refreshed table path text)⟩ place.1 := by
        rw [Site.fresh, ← enclosed, ← line, ← declared, same]
        rfl
      have different := outdated.2
      rw [shown, same, fresh] at different
      have replaceable := outdated.1
      rw [shown, ← enclosed, ← declared, same] at replaceable
      obtain ⟨before, name, returnType, params, method, stale⟩ :=
        Segment.stale_of_refresh written replaceable different
      have plain : (Refresh.document ⟨table, path, FileCues.ofText (refreshed table path text)⟩
          place.1 segment.declaration).curated = false := by
        rw [Bool.eq_false_iff]
        intro curated
        exact different (Segment.block_refresh_of_prescribed (Or.inl curated))
      rw [method] at plain
      rw [isStaleConversion_iff] at stale
      refine ⟨⟨before, stale.1⟩, name, returnType, params, block, ?_, stale.2.1,
        Refresh.lookup?_of_method plain, own, (Option.some.inj planned).symm⟩
      rw [← declared, same]
      exact method
  · cases planned

end Site

theorem refreshed_of_plan_eq_nil {table : Curated.Table} {path text : Text}
    (idle : plan table path text = []) : refreshed table path text = text := by
  rw [refreshed, idle, Edit.applyAll, Edit.inOrder_of_pairwise List.Pairwise.nil]
  exact Text.flatten_lines text

theorem valueConverter_of_plan_ne_nil {table : Curated.Table} (single : table.Avoids '\n')
    (written : table.IsWritten) {path text : Text}
    (changes : plan table path (refreshed table path text) ≠ []) :
    (FileCues.ofText text).valueConverter = false ∧
      (FileCues.ofText (refreshed table path text)).valueConverter = true := by
  obtain ⟨edit, member⟩ := List.exists_mem_of_ne_nil _ changes
  obtain ⟨site, cut, planned⟩ := mem_plan_iff.mp member
  exact (Site.conversion_of_edit? single written cut planned).1

/-- A second pass replaces the blocks of conversions without curated texts, if any, and only in a file
without the cue of a value converter into which the first pass wrote one. A third pass changes
nothing. -/
theorem later_passes {table : Curated.Table} (single : table.Avoids '\n')
    (written : table.IsWritten) (path text : Text) :
    let first := refreshed table path text
    let second := refreshed table path first
    (∀ edit ∈ plan table path first, ∃ (site : Site) (name : Text) (returnType : Option Text)
        (params : Text) (block : Block.Located),
      site.file = first.lines ∧ site.declaration = .method name returnType params ∧
        (name = "Convert".toList ∨ name = "ConvertBack".toList) ∧
        table.lookup? path name .method = none ∧ site.block? = some block ∧
        edit = .replace block.span.start block.span.last
          (site.fresh ⟨table, path, FileCues.ofText first⟩)) ∧
      (plan table path first ≠ [] →
        ("IValueConverter".toList <:+: first ∨ "System.Windows.Data".toList <:+: first) ∧
          ¬"IValueConverter".toList <:+: text ∧ ¬"System.Windows.Data".toList <:+: text) ∧
      plan table path second = [] := by
  intro first second
  refine ⟨?_, ?_, ?_⟩
  · intro edit member
    obtain ⟨site, cut, planned⟩ := mem_plan_iff.mp member
    obtain ⟨_, name, returnType, params, block, conversion⟩ :=
      Site.conversion_of_edit? single written cut planned
    exact ⟨site, name, returnType, params, block, cut, conversion⟩
  · intro changes
    obtain ⟨before, after⟩ := valueConverter_of_plan_ne_nil single written changes
    rw [Bool.eq_false_iff, ne_eq, FileCues.valueConverter_iff, not_or] at before
    exact ⟨(FileCues.valueConverter_iff _).mp after, before⟩
  · by_cases idle : plan table path first = []
    · have same : second = first := refreshed_of_plan_eq_nil idle
      rw [same]
      exact idle
    · by_contra changes
      -- The cue that the second pass acts on was there before it, and then it acts on none.
      have present := (valueConverter_of_plan_ne_nil single written idle).2
      have absent := (valueConverter_of_plan_ne_nil single written changes).1
      rw [absent] at present
      cases present

theorem later_passes_convertBack :
    Curated.Table.Avoids Curated.shipped '\n' ∧ Curated.Table.IsWritten Curated.shipped ∧
      let first := refreshed Curated.shipped "A.cs".toList
        "public object ConvertBack(int IValue[]Converter)\n".toList
      plan Curated.shipped "A.cs".toList first ≠ [] ∧
        ("IValueConverter".toList <:+: first ∨ "System.Windows.Data".toList <:+: first) ∧
        plan Curated.shipped "A.cs".toList
          (refreshed Curated.shipped "A.cs".toList first) = [] := by
  have changes : plan Curated.shipped "A.cs".toList (refreshed Curated.shipped "A.cs".toList
      "public object ConvertBack(int IValue[]Converter)\n".toList) ≠ [] := by decide +kernel
  obtain ⟨_, cue, settled⟩ := later_passes Curated.Table.avoids_shipped
    Curated.Table.isWritten_shipped "A.cs".toList
    "public object ConvertBack(int IValue[]Converter)\n".toList
  exact ⟨Curated.Table.avoids_shipped, Curated.Table.isWritten_shipped, changes, (cue changes).1,
    settled⟩

end DocComments
