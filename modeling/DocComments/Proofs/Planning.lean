import DocComments.Proofs.Rewriting

/-! The edits planned for a file, segment by segment. No search for a block leaves its segment, so
each segment has its own edit, shifted by the lines above the segment. The edits stand in the
order of the lines they touch, and no line is touched by two of them (`isScript_plan`). -/

namespace DocComments

namespace Edit

def shift (offset : Nat) : Edit → Edit
  | replace start last lines => replace (start + offset) (last + offset) lines
  | insert position lines => insert (position + offset) lines

def last : Edit → Nat
  | replace _ last _ => last
  | insert position _ => position

theorem anchor_shift (offset : Nat) (edit : Edit) :
    (edit.shift offset).anchor = edit.anchor + offset := by
  cases edit <;> rfl

theorem last_shift (offset : Nat) (edit : Edit) :
    (edit.shift offset).last = edit.last + offset := by
  cases edit <;> rfl

structure IsScript (count : Nat) (edits : List Edit) : Prop where
  within : ∀ edit ∈ edits, edit.anchor ≤ edit.last ∧ edit.last < count
  apart : edits.Pairwise fun first second => first.last < second.anchor

theorem inOrder_of_pairwise {edits : List Edit}
    (ordered : edits.Pairwise fun first second => first.anchor ≤ second.anchor) :
    inOrder edits = edits := by
  unfold inOrder
  apply List.mergeSort_of_pairwise
  simpa only [decide_eq_true_eq] using ordered

theorem IsScript.anchors {count : Nat} {edits : List Edit} (script : IsScript count edits) :
    edits.Pairwise fun first second => first.anchor < second.anchor := by
  apply script.apart.imp_of_mem
  intro first second upper _ apart
  have within := script.within first upper
  omega

theorem IsScript.inOrder_eq {count : Nat} {edits : List Edit} (script : IsScript count edits) :
    inOrder edits = edits :=
  inOrder_of_pairwise (script.anchors.imp Nat.le_of_lt)

theorem IsScript.tail {count : Nat} {edit : Edit} {rest : List Edit}
    (script : IsScript count (edit :: rest)) : IsScript count rest :=
  ⟨fun other member => script.within other (List.mem_cons_of_mem _ member),
    (List.pairwise_cons.mp script.apart).2⟩

theorem IsScript.le_anchor {count : Nat} {edit : Edit} {rest : List Edit}
    (script : IsScript count (edit :: rest)) : ∀ other ∈ edit :: rest, edit.anchor ≤ other.anchor := by
  intro other member
  rcases List.mem_cons.mp member with rfl | later
  · exact Nat.le_refl _
  · exact Nat.le_of_lt ((List.pairwise_cons.mp script.anchors).1 other later)

end Edit

namespace Refresh

theorem edit?_append {higher : List Text} (sheltered : Block.IsSheltered higher) (setting : Setting)
    (enclosing : Option Text) (above : List Text) (line : Text) (declaration : Declaration) :
    edit? setting enclosing (above ++ higher) line declaration =
      (edit? setting enclosing above line declaration).map (Edit.shift higher.length) := by
  unfold edit?
  dsimp only
  rw [Block.nearest?_eq, Block.nearest?_eq, Block.run_append sheltered,
    Block.beyond_append sheltered]
  by_cases empty : Block.run above = []
  · simp [empty, Edit.shift]
  · simp only [empty, ↓reduceIte]
    have positive : 0 < (Block.run above).length := List.length_pos_iff.mpr empty
    split
    · simp only [Option.map_some, Edit.shift, List.length_append, Option.some.injEq,
        Edit.replace.injEq, and_true, true_and]
      omega
    · rfl

theorem planFrom_plain {lines : List Text}
    (plain : ∀ line ∈ lines, Declaration.recognize? line.dropTerminator = none) (setting : Setting)
    (above : List Text) (outer : Option Text) (below : List Text) :
    planFrom setting above outer (lines ++ below) =
      planFrom setting (lines.reverse ++ above) outer below := by
  induction lines generalizing above with
  | nil => rfl
  | cons line lines ih =>
      have unrecognized := plain line (by simp)
      rw [List.cons_append, planFrom, unrecognized]
      dsimp only
      rw [ih (fun other member => plain other (by simp [member]))]
      simp

theorem edit?_eq_none_iff {setting : Setting} {enclosing : Option Text} {above : List Text}
    {line : Text} {declaration : Declaration} :
    edit? setting enclosing above line declaration = none ↔
      Block.run above ≠ [] ∧
        (Replaceable setting.cues (document setting enclosing declaration).curated declaration
            (Block.run above).reverse →
          (Block.run above).reverse = fresh setting enclosing line declaration) := by
  unfold edit? fresh
  dsimp only
  rw [Block.nearest?_eq]
  by_cases missing : Block.run above = []
  · simp [missing]
  · simp only [missing, ↓reduceIte, Bool.and_eq_true, isOutdated_iff, bne_iff_ne]
    split
    · next outdated => simpa [missing] using outdated
    · next kept => simpa [missing] using kept

end Refresh

namespace Segment

def edit? (setting : Refresh.Setting) (enclosing : Option Text) (segment : Segment) : Option Edit :=
  Refresh.edit? setting enclosing segment.above segment.line segment.declaration

theorem length_lines (segment : Segment) :
    segment.lines.length = segment.above.length + 1 := by
  simp [lines]

theorem edit?_eq (setting : Refresh.Setting) (enclosing : Option Text) (segment : Segment) :
    segment.edit? setting enclosing =
      let start := (Block.beyond segment.above).length
      if segment.block = [] then
        some (.insert segment.above.length (segment.fresh setting enclosing))
      else if segment.IsReplaceable setting enclosing ∧
          segment.block ≠ segment.fresh setting enclosing then
        some (.replace start (start + segment.block.length - 1) (segment.fresh setting enclosing))
      else none := by
  unfold edit? Refresh.edit? IsReplaceable fresh Refresh.fresh block
  dsimp only
  rw [Block.nearest?_eq, List.length_reverse]
  by_cases empty : Block.run segment.above = []
  · rw [if_pos empty, if_pos (List.reverse_eq_nil_iff.mpr empty)]
  · rw [if_neg empty, if_neg (mt List.reverse_eq_nil_iff.mp empty)]
    simp only [Bool.and_eq_true, isOutdated_iff, bne_iff_ne]
    congr

theorem edit?_eq_none_iff {setting : Refresh.Setting} {enclosing : Option Text} {segment : Segment}
    (nonempty : segment.block ≠ []) :
    segment.edit? setting enclosing = none ↔
      (segment.IsReplaceable setting enclosing → segment.block = segment.fresh setting enclosing) := by
  rw [edit?, Refresh.edit?_eq_none_iff]
  exact and_iff_right (mt List.reverse_eq_nil_iff.mpr nonempty)

theorem within_of_edit? {setting : Refresh.Setting} {enclosing : Option Text} {segment : Segment}
    {edit : Edit} (found : segment.edit? setting enclosing = some edit) :
    edit.anchor ≤ edit.last ∧ edit.last < segment.lines.length := by
  have parts := congrArg List.length segment.parts_append
  simp only [List.length_append, List.length_reverse] at parts
  rw [edit?_eq] at found
  dsimp only at found
  rw [segment.length_lines]
  split at found
  · obtain rfl := Option.some.inj found
    exact ⟨Nat.le_refl _, Nat.lt_succ_self _⟩
  · next nonempty =>
      have positive : 0 < segment.block.length := List.length_pos_iff.mpr nonempty
      split at found
      · obtain rfl := Option.some.inj found
        simp only [Edit.anchor, Edit.last]
        omega
      · cases found

end Segment

namespace Outline

def edits (setting : Refresh.Setting) : Nat → List (Option Text × Segment) → List Edit
  | _, [] => []
  | offset, (enclosing, segment) :: below =>
    ((segment.edit? setting enclosing).map (Edit.shift offset)).toList ++
      edits setting (offset + segment.lines.length) below

theorem edits_eq_nil_iff {setting : Refresh.Setting} {offset : Nat}
    {places : List (Option Text × Segment)} :
    edits setting offset places = [] ↔
      ∀ place ∈ places, place.2.edit? setting place.1 = none := by
  induction places generalizing offset with
  | nil => simp [edits]
  | cons place below ih => simp [edits, ih]

theorem le_anchor_of_mem_edits {setting : Refresh.Setting} {offset : Nat}
    {places : List (Option Text × Segment)} {edit : Edit}
    (member : edit ∈ edits setting offset places) : offset ≤ edit.anchor := by
  induction places generalizing offset with
  | nil => cases member
  | cons place below ih =>
      simp only [edits, List.mem_append, Option.mem_toList, Option.map_eq_some_iff] at member
      rcases member with ⟨own, _, rfl⟩ | later
      · rw [Edit.anchor_shift]
        omega
      · have lower := ih later
        omega

theorem isScript_edits (setting : Refresh.Setting) (offset : Nat)
    (places : List (Option Text × Segment)) :
    Edit.IsScript (offset + (places.flatMap fun place => place.2.lines).length)
      (edits setting offset places) := by
  induction places generalizing offset with
  | nil => exact ⟨by simp [edits], List.Pairwise.nil⟩
  | cons place below ih =>
      have rest := ih (offset + place.2.lines.length)
      have own : ∀ edit ∈ ((place.2.edit? setting place.1).map (Edit.shift offset)).toList,
          edit.anchor ≤ edit.last ∧ edit.last < offset + place.2.lines.length := by
        intro edit member
        obtain ⟨unshifted, found, rfl⟩ :=
          Option.map_eq_some_iff.mp (Option.mem_toList.mp member)
        have inside := Segment.within_of_edit? found
        rw [Edit.anchor_shift, Edit.last_shift]
        omega
      rw [edits, List.flatMap_cons, List.length_append, ← Nat.add_assoc]
      constructor
      · intro edit member
        rcases List.mem_append.mp member with upper | lower
        · have inside := own edit upper
          omega
        · exact rest.within edit lower
      · rw [List.pairwise_append]
        refine ⟨?_, rest.apart, ?_⟩
        · cases place.2.edit? setting place.1 with
          | none => exact List.Pairwise.nil
          | some edit => exact List.pairwise_singleton _ _
        · intro first upper second lower
          have inside := own first upper
          have below := le_anchor_of_mem_edits lower
          omega

theorem planFrom_lines (setting : Refresh.Setting) (segments : List Segment) {tail : List Text}
    (plain : ∀ line ∈ tail, Declaration.recognize? line.dropTerminator = none)
    {higher : List Text} (sheltered : Block.IsSheltered higher) (outer : Option Text) :
    Refresh.planFrom setting higher outer (segments.flatMap Segment.lines ++ tail) =
      edits setting higher.length (enclosed outer segments) := by
  induction segments generalizing higher outer with
  | nil =>
      have none := Refresh.planFrom_plain plain setting higher outer []
      rw [List.append_nil] at none
      simpa [edits, enclosed, Refresh.planFrom] using none
  | cons segment below ih =>
      have next : Block.IsSheltered (segment.line :: (segment.above ++ higher)) := by
        intro line first
        obtain rfl : segment.line = line := by simpa using first
        exact segment.hasAccess
      have rest := ih next (Refresh.enclosingAfter outer segment.declaration)
      simp only [List.flatMap_cons, Segment.lines, List.append_assoc]
      rw [Refresh.planFrom_plain (by simpa using segment.plain), List.reverse_reverse,
        List.singleton_append, Refresh.planFrom, segment.recognized]
      dsimp only
      rw [rest, Refresh.edit?_append sheltered]
      have lower : (segment.line :: (segment.above ++ higher)).length =
          higher.length + segment.lines.length := by
        simp only [List.length_cons, List.length_append, segment.length_lines]
        omega
      rw [lower]
      rfl

theorem plan_lines (table : Curated.Table) (path : Text) {text : Text} {outline : Outline}
    (cut : outline.lines = text.lines) :
    plan table path text =
      edits ⟨table, path, FileCues.ofText text⟩ 0 (enclosed none outline.segments) := by
  have sheltered : Block.IsSheltered [] := by simp [Block.IsSheltered]
  rw [plan, ← cut]
  exact planFrom_lines _ outline.segments outline.plain sheltered none

end Outline

theorem isScript_plan (table : Curated.Table) (path text : Text) :
    Edit.IsScript text.lines.length (plan table path text) := by
  have cut := Outline.lines_ofLines text.lines
  have script := Outline.isScript_edits ⟨table, path, FileCues.ofText text⟩ 0
    (Outline.enclosed none (Outline.ofLines text.lines).segments)
  rw [← Outline.plan_lines table path cut, Outline.flatMap_enclosed] at script
  have bound := congrArg List.length cut
  rw [Outline.lines, List.length_append] at bound
  refine ⟨fun edit member => ?_, script.apart⟩
  have within := script.within edit member
  omega

end DocComments
