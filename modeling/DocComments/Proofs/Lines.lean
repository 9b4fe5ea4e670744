import DocComments.Text.Blank
import DocComments.Text.Lines

/-! Lists of lines that a text is cut into. In such a list only the last line may lack its line
feed (`IsCut`), so lines can be put in and taken out anywhere above it without joining two of
them. -/

namespace DocComments

namespace Text

def IsComplete (line : Text) : Prop := ∃ content, '\n' ∉ content ∧ line = content ++ ['\n']

inductive IsCut : List Text → Prop
  | nil : IsCut []
  | last {line : Text} : line ≠ [] → '\n' ∉ line → IsCut [line]
  | cons {line : Text} {below : List Text} : IsComplete line → IsCut below → IsCut (line :: below)

theorem IsComplete.cons {line : Text} {character : Char} (different : character ≠ '\n')
    (complete : IsComplete line) : IsComplete (character :: line) := by
  obtain ⟨content, single, rfl⟩ := complete
  refine ⟨character :: content, ?_, rfl⟩
  rw [List.mem_cons, not_or]
  exact ⟨Ne.symm different, single⟩

theorem isComplete_lineFeed : IsComplete ['\n'] := ⟨[], by simp, rfl⟩

theorem IsCut.extendFirst {below : List Text} {character : Char} (different : character ≠ '\n')
    (cut : IsCut below) : IsCut (Text.extendFirst character below) := by
  cases cut with
  | nil => exact IsCut.last (by simp) (by simpa using Ne.symm different)
  | last nonempty single =>
      apply IsCut.last (by simp)
      rw [List.mem_cons, not_or]
      exact ⟨Ne.symm different, single⟩
  | cons complete rest => exact IsCut.cons (complete.cons different) rest

theorem isCut_lines (text : Text) : IsCut text.lines := by
  induction text with
  | nil => exact IsCut.nil
  | cons character rest ih =>
      rw [lines_cons, consLine]
      split
      · exact IsCut.cons isComplete_lineFeed ih
      · next different => exact ih.extendFirst different

/-- A text that ends with its last line can be cut apart from what follows. -/
theorem lines_append {above : Text} (ended : above = [] ∨ ['\n'] <:+ above) (below : Text) :
    lines (above ++ below) = lines above ++ lines below := by
  induction above with
  | nil => rfl
  | cons character rest ih =>
      have last : ['\n'] <:+ character :: rest := ended.resolve_left (by simp)
      rw [List.cons_append, lines_cons, lines_cons]
      rcases List.suffix_cons_iff.mp last with alone | later
      · obtain ⟨rfl, rfl⟩ := List.cons.inj alone
        rfl
      · rw [ih (Or.inr later)]
        have nonempty : lines rest ≠ [] := by
          intro empty
          have whole := flatten_lines rest
          rw [empty, List.flatten_nil] at whole
          rw [← whole] at later
          exact absurd later (by decide)
        obtain ⟨line, others, cut⟩ := List.exists_cons_of_ne_nil nonempty
        rw [cut, consLine, consLine]
        split <;> rfl

theorem lines_unterminated {line : Text} (nonempty : line ≠ []) (single : '\n' ∉ line) :
    lines line = [line] := by
  induction line with
  | nil => exact absurd rfl nonempty
  | cons character rest ih =>
      rw [List.mem_cons, not_or] at single
      rw [lines_cons, consLine, if_neg (Ne.symm single.1)]
      by_cases empty : rest = []
      · subst empty
        rfl
      · rw [ih empty single.2]
        rfl

theorem IsCut.lines_flatten {file : List Text} (cut : IsCut file) : lines file.flatten = file := by
  induction cut with
  | nil => rfl
  | last nonempty single => simpa using lines_unterminated nonempty single
  | cons complete _ ih =>
      obtain ⟨content, single, rfl⟩ := complete
      rw [List.flatten_cons, List.append_assoc, List.singleton_append,
        lines_append_lineFeed content _ single, ih]

theorem IsCut.complete_head {line : Text} {below : List Text} (cut : IsCut (line :: below))
    (lower : below ≠ []) : IsComplete line := by
  cases cut with
  | last _ _ => exact absurd rfl lower
  | cons complete _ => exact complete

theorem IsCut.tail {line : Text} {below : List Text} (cut : IsCut (line :: below)) :
    IsCut below := by
  cases cut with
  | last _ _ => exact IsCut.nil
  | cons _ rest => exact rest

theorem IsCut.lower {above below : List Text} (cut : IsCut (above ++ below)) : IsCut below := by
  induction above with
  | nil => exact cut
  | cons line above ih => exact ih cut.tail

theorem isCut_append {above below : List Text} (lower : below ≠ []) :
    IsCut (above ++ below) ↔ (∀ line ∈ above, IsComplete line) ∧ IsCut below := by
  induction above with
  | nil => simp
  | cons line above ih =>
      constructor
      · intro cut
        have complete : IsComplete line := cut.complete_head (by simp [lower])
        have rest := ih.mp cut.tail
        refine ⟨?_, rest.2⟩
        intro other member
        rcases List.mem_cons.mp member with rfl | member
        · exact complete
        · exact rest.1 other member
      · rintro ⟨complete, rest⟩
        apply IsCut.cons (complete line (by simp))
        exact ih.mpr ⟨fun other member => complete other (by simp [member]), rest⟩

theorem IsCut.exchange {line : Text} {below other : List Text} (cut : IsCut (line :: below))
    (rest : IsCut other) (last : below = [] → other = []) : IsCut (line :: other) := by
  by_cases empty : below = []
  · rw [last empty, ← empty]
    exact cut
  · exact IsCut.cons (cut.complete_head empty) rest

theorem isComplete_terminator {content line : Text} (single : '\n' ∉ content) :
    IsComplete (content ++ line.terminator) := by
  unfold terminator
  split
  · refine ⟨content ++ ['\r'], ?_, by simp⟩
    simpa using single
  · exact ⟨content, single, rfl⟩

theorem dropTerminator_start (line : Text) : line.dropTerminator <+: line := by
  have suffix := List.dropWhile_suffix isTerminator (l := line.reverse)
  simpa [dropTerminator] using List.reverse_prefix.mpr suffix

end Text

end DocComments
