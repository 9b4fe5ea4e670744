import DocComments.Proofs.Rewriting

/-! The declarations of a file by their places. The declaration lines are the last lines of the
segments, and what precedes one in the file tells its block and its enclosing type. -/

namespace DocComments

namespace Declaration

def ofLines (file : List Text) : List Declaration :=
  file.filterMap fun line => recognize? line.dropTerminator

theorem ofLines_eq_nil {lines : List Text}
    (plain : ∀ line ∈ lines, recognize? line.dropTerminator = none) : ofLines lines = [] :=
  List.filterMap_eq_nil_iff.mpr plain

theorem ofLines_append (above below : List Text) :
    ofLines (above ++ below) = ofLines above ++ ofLines below :=
  List.filterMap_append

end Declaration

namespace Refresh

def enclosingIn (file : List Text) : Option Text :=
  (Declaration.ofLines file).foldl enclosingAfter none

end Refresh

namespace Segment

theorem declarations_lines (segment : Segment) :
    Declaration.ofLines segment.lines = [segment.declaration] := by
  have above : Declaration.ofLines segment.above.reverse = [] := by
    apply Declaration.ofLines_eq_nil
    intro line member
    exact segment.plain line (List.mem_reverse.mp member)
  have last : Declaration.ofLines [segment.line] = [segment.declaration] := by
    simp [Declaration.ofLines, segment.recognized]
  rw [lines, Declaration.ofLines_append, above, last]
  rfl

theorem eq_line_of_recognized {segment : Segment} {higher below : List Text} {line : Text}
    {declaration : Declaration} (cut : segment.lines = higher ++ line :: below)
    (recognized : Declaration.recognize? line.dropTerminator = some declaration) :
    segment.line = line ∧ segment.above.reverse = higher := by
  rw [lines] at cut
  rcases List.append_eq_append_iff.mp cut with ⟨middle, upper, lower⟩ | ⟨middle, upper, lower⟩
  · cases middle with
    | nil =>
        have same := (List.cons.inj lower).1
        exact ⟨same, by simpa using upper.symm⟩
    | cons first middle => simp at lower
  · cases middle with
    | nil =>
        have same := (List.cons.inj lower).1
        exact ⟨same.symm, by simpa using upper⟩
    | cons first middle =>
        obtain rfl : line = first := (List.cons.inj lower).1
        have member : line ∈ segment.above.reverse := by simp [upper]
        have unrecognized := segment.plain line (List.mem_reverse.mp member)
        rw [recognized] at unrecognized
        cases unrecognized

end Segment

namespace Outline

theorem declarations_segments (segments : List Segment) :
    Declaration.ofLines (segments.flatMap Segment.lines) = segments.map Segment.declaration := by
  induction segments with
  | nil => rfl
  | cons segment below ih =>
      rw [List.flatMap_cons, Declaration.ofLines_append, segment.declarations_lines, ih]
      rfl

theorem declarations_lines (outline : Outline) :
    Declaration.ofLines outline.lines = outline.segments.map Segment.declaration := by
  rw [lines, Declaration.ofLines_append, Declaration.ofLines_eq_nil outline.plain, List.append_nil,
    declarations_segments]

theorem exists_segment {segments : List Segment} {tail higher below : List Text} {line : Text}
    {declaration : Declaration}
    (plain : ∀ line ∈ tail, Declaration.recognize? line.dropTerminator = none)
    (cut : segments.flatMap Segment.lines ++ tail = higher ++ line :: below)
    (recognized : Declaration.recognize? line.dropTerminator = some declaration) :
    ∃ upper segment lower, segments = upper ++ segment :: lower ∧ segment.line = line ∧
      higher = upper.flatMap Segment.lines ++ segment.above.reverse := by
  induction segments generalizing higher with
  | nil =>
      have member : line ∈ tail := by
        rw [List.flatMap_nil, List.nil_append] at cut
        simp [cut]
      rw [plain line member] at recognized
      cases recognized
  | cons first rest ih =>
      have later (middle : List Text)
          (found : rest.flatMap Segment.lines ++ tail = middle ++ line :: below)
          (same : higher = first.lines ++ middle) :
          ∃ upper segment lower, first :: rest = upper ++ segment :: lower ∧ segment.line = line ∧
            higher = upper.flatMap Segment.lines ++ segment.above.reverse := by
        obtain ⟨upper, segment, lower, split, last, lead⟩ := ih found
        refine ⟨first :: upper, segment, lower, by rw [split, List.cons_append], last, ?_⟩
        rw [same, lead, List.flatMap_cons, List.append_assoc]
      rw [List.flatMap_cons, List.append_assoc] at cut
      rcases List.append_eq_append_iff.mp cut with ⟨middle, upper, lower⟩ | ⟨middle, upper, lower⟩
      · exact later middle lower upper
      · cases middle with
        | nil =>
            rw [List.append_nil] at upper
            rw [List.nil_append] at lower
            exact later [] lower.symm (by rw [upper, List.append_nil])
        | cons start middle =>
            obtain rfl : line = start := (List.cons.inj lower).1
            have own := Segment.eq_line_of_recognized upper recognized
            exact ⟨[], first, rest, rfl, own.1, own.2.symm⟩

theorem isSheltered_segments (segments : List Segment) :
    Block.IsSheltered (segments.flatMap Segment.lines).reverse := by
  induction segments with
  | nil => simp [Block.IsSheltered]
  | cons segment below ih =>
      intro line first
      rw [List.flatMap_cons, List.reverse_append, List.head?_append, Option.mem_def,
        Option.or_eq_some_iff] at first
      rcases first with lower | ⟨_, own⟩
      · exact ih line lower
      · obtain rfl : segment.line = line := by simpa [Segment.lines] using own
        exact segment.hasAccess

theorem mem_enclosed_iff {outer : Option Text} {segments : List Segment}
    {place : Option Text × Segment} :
    place ∈ enclosed outer segments ↔ ∃ upper lower, segments = upper ++ place.2 :: lower ∧
      place.1 = ((upper ++ [place.2]).map Segment.declaration).foldl Refresh.enclosingAfter outer := by
  induction segments generalizing outer with
  | nil => simp [enclosed]
  | cons first rest ih =>
      rw [enclosed, List.mem_cons, ih]
      constructor
      · rintro (rfl | ⟨upper, lower, split, inner⟩)
        · exact ⟨[], rest, rfl, rfl⟩
        · exact ⟨first :: upper, lower, by rw [split, List.cons_append], inner⟩
      · rintro ⟨upper, lower, split, inner⟩
        cases upper with
        | nil =>
            obtain ⟨rfl, _⟩ := List.cons.inj split
            exact Or.inl (Prod.ext inner rfl)
        | cons other upper =>
            obtain ⟨rfl, below⟩ := List.cons.inj split
            exact Or.inr ⟨upper, lower, below, inner⟩

structure IsPlace (outline : Outline) (higher below : List Text) (place : Option Text × Segment) :
    Prop where
  lines : outline.lines = higher ++ place.2.line :: below
  enclosing : place.1 = Refresh.enclosingIn (higher ++ [place.2.line])
  block : place.2.block = (Block.run higher.reverse).reverse

theorem IsPlace.run_ne_nil {outline : Outline} {higher below : List Text}
    {place : Option Text × Segment} (found : outline.IsPlace higher below place)
    (documented : place.2.block ≠ []) : Block.run higher.reverse ≠ [] := by
  intro empty
  have missing := found.block
  rw [empty, List.reverse_nil] at missing
  exact documented missing

theorem isPlace_of_split {outline : Outline} {upper lower : List Segment}
    {place : Option Text × Segment} (split : outline.segments = upper ++ place.2 :: lower)
    (inner : place.1 =
      ((upper ++ [place.2]).map Segment.declaration).foldl Refresh.enclosingAfter none) :
    outline.IsPlace (upper.flatMap Segment.lines ++ place.2.above.reverse)
      (lower.flatMap Segment.lines ++ outline.tail) place where
  lines := by
    rw [Outline.lines, split, List.flatMap_append, List.flatMap_cons]
    simp only [Segment.lines, List.append_assoc, List.cons_append, List.nil_append]
  enclosing := by
    have through : upper.flatMap Segment.lines ++ place.2.above.reverse ++ [place.2.line] =
        (upper ++ [place.2]).flatMap Segment.lines := by
      rw [List.flatMap_append, List.flatMap_singleton, Segment.lines, List.append_assoc]
    rw [Refresh.enclosingIn, through, declarations_segments, inner]
  block := by
    rw [List.reverse_append, List.reverse_reverse, Block.run_append (isSheltered_segments upper),
      Segment.block]

theorem exists_lines {outline : Outline} {place : Option Text × Segment}
    (member : place ∈ enclosed none outline.segments) :
    ∃ higher below, outline.IsPlace higher below place := by
  obtain ⟨upper, lower, split, inner⟩ := mem_enclosed_iff.mp member
  exact ⟨_, _, isPlace_of_split split inner⟩

theorem exists_place {outline : Outline} {higher below : List Text} {line : Text}
    {declaration : Declaration} (cut : outline.lines = higher ++ line :: below)
    (recognized : Declaration.recognize? line.dropTerminator = some declaration) :
    ∃ place ∈ enclosed none outline.segments, place.2.line = line ∧
      place.2.declaration = declaration ∧ outline.IsPlace higher below place := by
  obtain ⟨upper, segment, lower, split, rfl, rfl⟩ :=
    exists_segment outline.plain cut recognized
  have member : (((upper ++ [segment]).map Segment.declaration).foldl Refresh.enclosingAfter none,
      segment) ∈ enclosed none outline.segments :=
    mem_enclosed_iff.mpr ⟨upper, lower, split, rfl⟩
  have own := segment.recognized
  rw [recognized] at own
  exact ⟨_, member, rfl, (Option.some.inj own).symm,
    { isPlace_of_split split rfl with lines := cut }⟩

end Outline

end DocComments
