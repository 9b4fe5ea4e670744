import DocComments.Proofs.Blocks
import DocComments.Refresh

/-! A file cut at its declarations. A segment goes from one declaration to the next and ends with
the line of the latter; what is left below the last declaration is the tail. Every file is cut so
without loss (`lines_ofLines`), and in one way only (`ofLines_lines`). -/

namespace DocComments

/-- A declaration line, with the lines down to it from the declaration before it. These are given
from the nearest to the farthest, and none of them is a declaration. -/
structure Segment where
  above : List Text
  line : Text
  declaration : Declaration
  plain : ∀ other ∈ above, Declaration.recognize? other.dropTerminator = none
  recognized : Declaration.recognize? line.dropTerminator = some declaration

structure Outline where
  segments : List Segment
  tail : List Text
  plain : ∀ line ∈ tail, Declaration.recognize? line.dropTerminator = none

namespace Segment

def lines (segment : Segment) : List Text := segment.above.reverse ++ [segment.line]

theorem hasAccess (segment : Segment) : Declaration.HasAccess segment.line :=
  Declaration.hasAccess_of_recognize? segment.recognized

end Segment

namespace Outline

def lines (outline : Outline) : List Text :=
  outline.segments.flatMap Segment.lines ++ outline.tail

def readFrom (above : List Text)
    (plain : ∀ line ∈ above, Declaration.recognize? line.dropTerminator = none) :
    List Text → Outline
  | [] => ⟨[], above.reverse, fun line member => plain line (List.mem_reverse.mp member)⟩
  | line :: below =>
    match recognized : Declaration.recognize? line.dropTerminator with
    | none =>
      readFrom (line :: above) (List.forall_mem_cons.mpr ⟨recognized, plain⟩) below
    | some declaration =>
      let rest := readFrom [] (fun _ member => absurd member List.not_mem_nil) below
      ⟨⟨above, line, declaration, plain, recognized⟩ :: rest.segments, rest.tail, rest.plain⟩

def ofLines (file : List Text) : Outline :=
  readFrom [] (fun _ member => absurd member List.not_mem_nil) file

theorem lines_readFrom (file above : List Text)
    (plain : ∀ line ∈ above, Declaration.recognize? line.dropTerminator = none) :
    (readFrom above plain file).lines = above.reverse ++ file := by
  induction file generalizing above with
  | nil => simp [readFrom, lines]
  | cons line below ih =>
      unfold readFrom
      split
      · next unrecognized => simpa using ih (line :: above) _
      · next declaration recognized =>
          have rest := ih [] (fun _ member => absurd member List.not_mem_nil)
          simp only [lines, List.reverse_nil, List.nil_append] at rest
          simp only [lines, List.flatMap_cons, Segment.lines, List.append_assoc, rest]
          rfl

theorem lines_ofLines (file : List Text) : (ofLines file).lines = file :=
  lines_readFrom file [] _

theorem readFrom_plain {lines : List Text}
    (unrecognized : ∀ line ∈ lines, Declaration.recognize? line.dropTerminator = none)
    (above below : List Text)
    (plain : ∀ line ∈ above, Declaration.recognize? line.dropTerminator = none)
    (whole : ∀ line ∈ lines.reverse ++ above, Declaration.recognize? line.dropTerminator = none) :
    readFrom above plain (lines ++ below) = readFrom (lines.reverse ++ above) whole below := by
  induction lines generalizing above with
  | nil => rfl
  | cons line lines ih =>
      rw [List.forall_mem_cons] at unrecognized
      rw [List.cons_append, readFrom]
      split
      · simp only [List.reverse_cons, List.append_assoc, List.singleton_append] at whole ⊢
        exact ih unrecognized.2 (line :: above) _ whole
      · next declaration recognized =>
          rw [unrecognized.1] at recognized
          cases recognized

theorem readFrom_segment (segment : Segment) (below : List Text) :
    readFrom [] (fun _ member => absurd member List.not_mem_nil) (segment.lines ++ below) =
      let rest := readFrom [] (fun _ member => absurd member List.not_mem_nil) below
      ⟨segment :: rest.segments, rest.tail, rest.plain⟩ := by
  have plain : ∀ line ∈ segment.above.reverse.reverse ++ [],
      Declaration.recognize? line.dropTerminator = none := by
    simpa using segment.plain
  rw [Segment.lines, List.append_assoc, List.singleton_append,
    readFrom_plain (by simpa using segment.plain) _ _ _ plain, readFrom]
  split
  · next unrecognized =>
      rw [segment.recognized] at unrecognized
      cases unrecognized
  · next declaration recognized =>
      obtain rfl : segment.declaration = declaration :=
        Option.some.inj (segment.recognized.symm.trans recognized)
      simp

/-- The lines of a file can be cut in no other way. -/
theorem ofLines_lines (outline : Outline) : ofLines outline.lines = outline := by
  obtain ⟨segments, tail, plain⟩ := outline
  unfold ofLines lines
  induction segments with
  | nil =>
      have whole : ∀ line ∈ tail.reverse ++ [],
          Declaration.recognize? line.dropTerminator = none := by
        simpa using plain
      have read := readFrom_plain plain [] [] (fun _ member => absurd member List.not_mem_nil) whole
      rw [List.append_nil] at read
      rw [List.flatMap_nil, List.nil_append, read]
      simp [readFrom]
  | cons segment below ih =>
      rw [List.flatMap_cons, List.append_assoc, readFrom_segment, ih]

def enclosed : Option Text → List Segment → List (Option Text × Segment)
  | _, [] => []
  | outer, segment :: below =>
    let inner := Refresh.enclosingAfter outer segment.declaration
    (inner, segment) :: enclosed inner below

theorem map_enclosed (outer : Option Text) (segments : List Segment) :
    (enclosed outer segments).map Prod.snd = segments := by
  induction segments generalizing outer with
  | nil => rfl
  | cons segment below ih => rw [enclosed, List.map_cons, ih]

theorem flatMap_enclosed {α : Type} (outer : Option Text) (segments : List Segment)
    (part : Segment → List α) :
    (enclosed outer segments).flatMap (fun place => part place.2) = segments.flatMap part := by
  rw [← List.flatMap_map Prod.snd part, map_enclosed]

end Outline

end DocComments
