import DocComments.Proofs.Passes

/-! The application of planned edits. The pass over the file reaches the first line of each
segment and leaves the segment as it is rewritten on its own, whatever the line numbers in its
edit were. -/

namespace DocComments

namespace Edit

theorem between_parts (done part rest : List Text) :
    ((done ++ (part ++ rest)).take (done.length + part.length)).drop done.length = part := by
  rw [← List.append_assoc, List.take_left' List.length_append, List.drop_left]

theorem splice_part (edits : List Edit) (done part rest : List Text)
    (later : ∀ edit ∈ edits, done.length + part.length ≤ edit.anchor) :
    splice (done ++ (part ++ rest)) edits done.length =
      part ++ splice (done ++ (part ++ rest)) edits (done.length + part.length) := by
  rw [splice_copy _ (Nat.le_add_right _ _) fun edit first => later edit (List.mem_of_mem_head? first),
    between_parts]

theorem splice_insert (edits : List Edit) (done part : List Text) (line : Text)
    (rest fresh : List Text) :
    splice (done ++ (part ++ line :: rest))
        (insert (part.length + done.length) fresh :: edits) done.length =
      part ++ (fresh ++ line :: splice (done ++ (part ++ line :: rest)) edits
        (done.length + part.length + 1)) := by
  have inside : done.length + part.length < (done ++ (part ++ line :: rest)).length := by
    simp only [List.length_append, List.length_cons]
    omega
  have target : (done ++ (part ++ line :: rest))[done.length + part.length] = line := by
    simp [List.getElem_append_right]
  rw [Nat.add_comm part.length,
    splice_copy _ (Nat.le_add_right done.length part.length) (by simp [anchor]), between_parts,
    splice_insert_here inside, target]

theorem splice_replace (edits : List Edit) (done part : List Text) {block : List Text}
    (nonempty : block ≠ []) (rest fresh : List Text) :
    splice (done ++ (part ++ (block ++ rest)))
        (replace (part.length + done.length) (part.length + block.length - 1 + done.length) fresh ::
          edits) done.length =
      part ++ (fresh ++ splice (done ++ (part ++ (block ++ rest))) edits
        (done.length + part.length + block.length)) := by
  have positive : 0 < block.length := List.length_pos_iff.mpr nonempty
  have inside : done.length + part.length < (done ++ (part ++ (block ++ rest))).length := by
    simp only [List.length_append]
    omega
  have behind : part.length + block.length - 1 + done.length + 1 =
      done.length + part.length + block.length := by omega
  rw [Nat.add_comm part.length,
    splice_copy _ (Nat.le_add_right done.length part.length) (by simp [anchor]), between_parts,
    splice_replace_here inside, behind]

end Edit

namespace Segment

/-- The pass over a file, from the first line of a segment to the first line below it. -/
theorem splice_segment (setting : Refresh.Setting) (enclosing : Option Text) (segment : Segment)
    (done rest : List Text) {later : List Edit}
    (below : ∀ edit ∈ later, done.length + segment.lines.length ≤ edit.anchor) :
    Edit.splice (done ++ (segment.lines ++ rest))
        (((segment.edit? setting enclosing).map (Edit.shift done.length)).toList ++ later)
        done.length =
      (segment.refresh setting enclosing).lines ++
        Edit.splice (done ++ (segment.lines ++ rest)) later
          (done.length + segment.lines.length) := by
  rw [edit?_eq]
  dsimp only
  split
  · next empty =>
      have step := Edit.splice_insert later done segment.above.reverse segment.line rest
        (segment.fresh setting enclosing)
      rw [lines_refresh_of_missing setting enclosing empty, segment.length_lines]
      simpa [lines, Edit.shift, Nat.add_assoc] using step
  · next nonempty =>
      split
      · next replaced =>
          have step := Edit.splice_replace later done (Block.beyond segment.above).reverse nonempty
            ((Block.passed segment.above).reverse ++ segment.line :: rest)
            (segment.fresh setting enclosing)
          have onward := Edit.splice_part later
            (done ++ ((Block.beyond segment.above).reverse ++ segment.block))
            ((Block.passed segment.above).reverse ++ [segment.line]) rest
          rw [segment.lines_eq_parts] at below
          rw [lines_refresh_of_replaceable nonempty replaced.1, segment.lines_eq_parts]
          simp only [List.length_append, List.length_reverse, List.length_cons, List.length_nil,
            List.append_assoc, List.singleton_append, Nat.add_assoc, Nat.zero_add] at below step onward
          simp only [List.length_append, List.length_reverse, List.length_cons, List.length_nil,
            List.append_assoc, Nat.zero_add, Option.map_some, Option.toList_some, Edit.shift,
            List.cons_append, List.nil_append]
          rw [onward below] at step
          exact step
      · next kept =>
          rw [lines_refresh_of_kept nonempty kept]
          exact Edit.splice_part later done segment.lines rest below

end Segment

namespace Outline

theorem lines_refresh (setting : Refresh.Setting) (outline : Outline) :
    (outline.refresh setting).lines =
      (enclosed none outline.segments).flatMap (fun place =>
        (place.2.refresh setting place.1).lines) ++ outline.tail := by
  rw [lines, refresh, List.flatMap_map]

theorem splice_edits (setting : Refresh.Setting) (outer : Option Text) (segments : List Segment)
    (done tail : List Text) :
    Edit.splice (done ++ (segments.flatMap Segment.lines ++ tail))
        (edits setting done.length (enclosed outer segments)) done.length =
      (enclosed outer segments).flatMap (fun place => (place.2.refresh setting place.1).lines) ++
        tail := by
  induction segments generalizing outer done with
  | nil => exact List.drop_left
  | cons segment below ih =>
      have onward := ih (Refresh.enclosingAfter outer segment.declaration) (done ++ segment.lines)
      rw [List.length_append, List.append_assoc] at onward
      simp only [enclosed, edits, List.flatMap_cons, List.append_assoc]
      rw [Segment.splice_segment _ _ _ _ _ fun edit member => le_anchor_of_mem_edits member, onward]

theorem splice_plan (table : Curated.Table) (path : Text) {text : Text} {outline : Outline}
    (cut : outline.lines = text.lines) :
    Edit.splice text.lines (Edit.inOrder (plan table path text)) 0 =
      (outline.refresh ⟨table, path, FileCues.ofText text⟩).lines := by
  have pass := splice_edits ⟨table, path, FileCues.ofText text⟩ none outline.segments [] outline.tail
  rw [(isScript_plan table path text).inOrder_eq, plan_lines table path cut, ← cut, lines_refresh]
  exact pass

theorem refreshed_eq_flatten (table : Curated.Table) (path : Text) {text : Text} {outline : Outline}
    (cut : outline.lines = text.lines) :
    refreshed table path text =
      (outline.refresh ⟨table, path, FileCues.ofText text⟩).lines.flatten := by
  rw [refreshed, Edit.applyAll, splice_plan table path cut]

end Outline

/-- To refresh a file by line numbers is to cut it at its declarations and to refresh each segment on
its own. -/
theorem refreshed_segmentwise (table : Curated.Table) (path text : Text) :
    (Outline.ofLines text.lines).lines = text.lines ∧
      refreshed table path text =
        ((Outline.ofLines text.lines).refresh
          ⟨table, path, FileCues.ofText text⟩).lines.flatten :=
  ⟨Outline.lines_ofLines _, Outline.refreshed_eq_flatten table path (Outline.lines_ofLines _)⟩

end DocComments
