import DocComments.Proofs.Grammar
import DocComments.Proofs.Refreshed

/-! Files moved to the right by a margin of spaces and tabs in front of every line. No line
changes its kind by the margin, so a pass over the moved file plans the same edits with the margin
in front of their lines (`plan_indentBy`). -/

namespace DocComments

namespace Text

def IsMargin (margin : Text) : Prop := ∀ character ∈ margin, character = ' ' ∨ character = '\t'

instance (margin : Text) : Decidable margin.IsMargin :=
  decidable_of_iff ((margin.all fun character => character = ' ' || character = '\t') = true)
    (by simp [IsMargin])

def indentBy (text margin : Text) : Text := (text.lines.map (margin ++ ·)).flatten

theorem IsComplete.infix_append {line part : Text} (complete : IsComplete line)
    (single : '\n' ∉ part) (rest : Text) :
    part <:+: line ++ rest ↔ part <:+: line ∨ part <:+: rest := by
  obtain ⟨content, _, rfl⟩ := complete
  rw [List.infix_append_iff_ne_nil]
  constructor
  · rintro (inside | inside | ⟨front, back, nonempty, _, rfl, ending, _⟩)
    · exact Or.inl inside
    · exact Or.inr inside
    · rcases List.suffix_concat_iff.mp ending with empty | ⟨front, rfl, _⟩
      · exact (nonempty empty).elim
      · exact (single (by simp)).elim
  · rintro (inside | inside)
    · exact Or.inl inside
    · exact Or.inr (Or.inl inside)

/-- What has no line feed is found in a text if it is found in one of the lines. -/
theorem IsCut.infix_flatten {file : List Text} (cut : IsCut file) {part : Text}
    (nonempty : part ≠ []) (single : '\n' ∉ part) :
    part <:+: file.flatten ↔ ∃ line ∈ file, part <:+: line := by
  induction cut with
  | nil => simpa using nonempty
  | last _ _ => simp
  | cons complete _ ih => simp [complete.infix_append single, ih]

theorem pair_suffix_append_iff {margin : Text}
    (outside : ∀ character ∈ margin, isTerminator character = false) (line : Text) :
    ['\r', '\n'] <:+ margin ++ line ↔ ['\r', '\n'] <:+ line := by
  constructor
  · intro ending
    rcases List.suffix_or_suffix_of_suffix ending (List.suffix_append margin line) with
      whole | ⟨front, cut⟩
    · exact whole
    · obtain ⟨before, same⟩ := ending
      rw [← cut, ← List.append_assoc] at same
      have start := List.append_cancel_right same
      cases front with
      | nil => exact ⟨[], cut.symm⟩
      | cons character front =>
          -- The pair would have to begin in the margin.
          have member : character ∈ ['\r', '\n'] := by simp [← cut]
          have kept := outside character (by simp [← start])
          simp only [List.mem_cons, List.not_mem_nil, or_false] at member
          rcases member with rfl | rfl
          · cases kept
          · cases kept
  · exact fun ending => ending.trans (List.suffix_append margin line)

section Margin

variable {margin : Text} (blank : IsMargin margin)

include blank

theorem IsMargin.isBlank : ∀ character ∈ margin, Text.isBlank character = true := by
  intro character member
  rcases blank character member with rfl | rfl
  · decide
  · decide

theorem IsMargin.isTerminator : ∀ character ∈ margin, Text.isTerminator character = false := by
  intro character member
  rcases blank character member with rfl | rfl
  · decide
  · decide

theorem IsMargin.lineFeed : '\n' ∉ margin :=
  fun member => absurd (blank.isTerminator _ member) (by decide)

theorem IsMargin.isCut_map {file : List Text} (cut : IsCut file) :
    IsCut (file.map (margin ++ ·)) := by
  induction cut with
  | nil => exact IsCut.nil
  | last nonempty single =>
      refine IsCut.last (by simp [nonempty]) ?_
      simpa using ⟨blank.lineFeed, single⟩
  | cons complete _ ih =>
      obtain ⟨content, single, rfl⟩ := complete
      refine IsCut.cons ⟨margin ++ content, ?_, by simp⟩ ih
      simpa using ⟨blank.lineFeed, single⟩

theorem IsMargin.lines_indentBy (text : Text) :
    (text.indentBy margin).lines = text.lines.map (margin ++ ·) :=
  (blank.isCut_map (isCut_lines text)).lines_flatten

theorem IsMargin.infix_append {part : Text} (shown : part.head?.any isSolid = true)
    (line : Text) : part <:+: margin ++ line ↔ part <:+: line := by
  obtain ⟨first, head, solid⟩ := (Option.any_eq_true _ _).mp shown
  apply infix_append_of_head head
  intro member
  rw [isSolid_iff, blank.isBlank first member] at solid
  cases solid

theorem IsMargin.occursIn_append (part : Text) (shown : part.head?.any isSolid = true)
    (line : Text) : occursIn part (margin ++ line) = occursIn part line := by
  rw [Bool.eq_iff_iff, occursIn_iff, occursIn_iff, blank.infix_append shown]

theorem IsMargin.occursIn_indentBy (part : Text) (shown : part.head?.any isSolid = true)
    (single : '\n' ∉ part) (text : Text) :
    occursIn part (text.indentBy margin) = occursIn part text := by
  have nonempty : part ≠ [] := by
    rintro rfl
    cases shown
  have cut := isCut_lines text
  have moved := (blank.isCut_map cut).infix_flatten nonempty single
  have stood := cut.infix_flatten nonempty single
  rw [flatten_lines] at stood
  rw [Bool.eq_iff_iff, occursIn_iff, occursIn_iff, indentBy, moved, stood]
  simp only [List.mem_map, exists_exists_and_eq_and, blank.infix_append shown]

theorem IsMargin.terminator_append (line : Text) :
    terminator (margin ++ line) = terminator line := by
  have pair := pair_suffix_append_iff blank.isTerminator line
  rw [← List.isSuffixOf_iff_suffix, ← List.isSuffixOf_iff_suffix, ← Bool.eq_iff_iff] at pair
  rw [terminator, terminator, pair]

theorem IsMargin.dropTerminator_append (line : Text) :
    dropTerminator (margin ++ line) = margin ++ dropTerminator line := by
  have stop : ∀ character ∈ margin.reverse.head?, Text.isTerminator character = false := by
    intro character last
    exact blank.isTerminator character (List.mem_reverse.mp (List.mem_of_head? last))
  rw [dropTerminator, List.reverse_append, dropWhile_append_stop stop]
  simp [dropTerminator]

theorem IsMargin.indentation_append (line : Text) :
    indentation (margin ++ line) = margin ++ indentation line := by
  apply List.takeWhile_append_of_pos
  intro character member
  simpa using blank character member

end Margin

end Text

namespace Declaration

theorem recognize?_append_of_blank {gap : Text}
    (blank : ∀ character ∈ gap, Text.isBlank character = true) (line : Text) :
    recognize? (gap ++ line) = recognize? line := by
  have words {mark : Char} (solid : Text.isBlank mark = false) :
      splitWords? mark (gap ++ line) = splitWords? mark line := by
    rw [← splitWords?_dropBlanks solid, Text.dropBlanks_append_of_blank blank,
      splitWords?_dropBlanks solid]
  have called : (gap ++ line).contains '(' = line.contains '(' := by
    have outside : '(' ∉ gap := fun member => absurd (blank _ member) (by decide)
    simp [outside]
  have types : type? (gap ++ line) = type? line := by
    rw [type?, type?, Text.words_append_of_blank blank]
  have methods : method? (gap ++ line) = method? line := by
    rw [method?_eq, method?_eq, words (by decide)]
  have properties : property? (gap ++ line) = property? line := by
    rw [property?_eq, property?_eq, words (by decide), called]
  rw [recognize?, recognize?, types, methods, properties]

end Declaration

namespace Block

def Located.mapLines (change : Text → Text) (block : Located) : Located where
  span := block.span
  lines := block.lines.map change

section Gap

variable {gap : Text} (blank : ∀ character ∈ gap, Text.isBlank character = true)

include blank

theorem isDocLine_append (line : Text) : isDocLine (gap ++ line) = isDocLine line := by
  rw [isDocLine, Text.dropBlanks_append_of_blank blank, isDocLine]

theorem isPassedOver_append (line : Text) : isPassedOver (gap ++ line) = isPassedOver line := by
  have blanks : isBlankLine (gap ++ line) = isBlankLine line := by
    rw [Bool.eq_iff_iff, isBlankLine_iff, isBlankLine_iff, Text.dropBlanks_append_of_blank blank]
  rw [isPassedOver, isPassedOver, blanks, isAttributeLine, isAttributeLine,
    Text.dropBlanks_append_of_blank blank]

theorem nearest?_map (above : List Text) :
    nearest? (above.map (gap ++ ·)) = (nearest? above).map (Located.mapLines (gap ++ ·)) := by
  have docs : isDocLine ∘ (gap ++ ·) = isDocLine := funext (isDocLine_append blank)
  have skipped : isPassedOver ∘ (gap ++ ·) = isPassedOver := funext (isPassedOver_append blank)
  have runs : run (above.map (gap ++ ·)) = (run above).map (gap ++ ·) := by
    simp only [run, List.dropWhile_map, List.takeWhile_map, docs, skipped]
  have rests : beyond (above.map (gap ++ ·)) = (beyond above).map (gap ++ ·) := by
    simp only [beyond, List.dropWhile_map, docs, skipped]
  rw [nearest?_eq, nearest?_eq, runs, rests]
  by_cases empty : run above = []
  · simp [empty]
  · simp [empty, Located.mapLines]

end Gap

end Block

namespace Edit

def mapLines (change : Text → Text) : Edit → Edit
  | replace start last lines => replace start last (lines.map change)
  | insert position lines => insert position (lines.map change)

theorem anchor_mapLines (change : Text → Text) (edit : Edit) :
    (edit.mapLines change).anchor = edit.anchor := by
  cases edit <;> rfl

theorem lines_mapLines (change : Text → Text) (edit : Edit) :
    (edit.mapLines change).lines = edit.lines.map change := by
  cases edit <;> rfl

theorem inOrder_map (change : Text → Text) (edits : List Edit) :
    inOrder (edits.map (mapLines change)) = (inOrder edits).map (mapLines change) := by
  unfold inOrder
  rw [List.map_mergeSort]
  intro first _ second _
  rw [anchor_mapLines, anchor_mapLines]

theorem splice_map (change : Text → Text) (file : List Text) (edits : List Edit) (next : Nat) :
    splice (file.map change) (edits.map (mapLines change)) next =
      (splice file edits next).map change := by
  induction edits generalizing next with
  | nil => simp [splice]
  | cons edit rest ih =>
      rw [List.map_cons, splice.eq_def, splice.eq_def file]
      dsimp only
      rw [anchor_mapLines, lines_mapLines, List.length_map]
      split
      · cases edit with
        | replace start last lines => simp [mapLines, ih]
        | insert position lines => simp [mapLines, ih]
      · simp

end Edit

namespace Refresh

section Margin

variable {margin : Text} (blank : margin.IsMargin)

include blank

theorem setLike_append (line : Text) (lines : List Text) :
    setLike (margin ++ line) lines = (setLike line lines).map (margin ++ ·) := by
  simp only [setLike, blank.indentation_append, blank.terminator_append, List.map_map,
    List.append_assoc, Function.comp_def]

theorem any_occursIn_map (part : Text) (shown : part.head?.any Text.isSolid = true)
    (block : List Text) :
    (block.map (margin ++ ·)).any (Text.occursIn part) = block.any (Text.occursIn part) := by
  rw [List.any_map]
  congr 1
  funext line
  exact blank.occursIn_append part shown line

theorem isPlaceholder_map (block : List Text) :
    isPlaceholder (block.map (margin ++ ·)) = isPlaceholder block := by
  have marked : isPlaceholderLine ∘ (margin ++ ·) = isPlaceholderLine := by
    funext line
    simp only [Function.comp_apply, isPlaceholderLine, Block.isDocLine_append blank.isBlank,
      Text.dropBlanks_append_of_blank blank.isBlank]
  rw [isPlaceholder, isPlaceholder, any_occursIn_map blank _ (by decide),
    List.any_map, marked]

theorem isStaleConversion_map (cues : FileCues) (name : Text) (block : List Text) :
    isStaleConversion cues name (block.map (margin ++ ·)) = isStaleConversion cues name block := by
  rw [isStaleConversion, isStaleConversion,
    any_occursIn_map blank _ (by decide)]

theorem isOutdated_map (cues : FileCues) (curated : Bool) (declaration : Declaration)
    (block : List Text) :
    isOutdated cues curated declaration (block.map (margin ++ ·)) =
      isOutdated cues curated declaration block := by
  simp only [isOutdated, isPlaceholder_map blank, isStaleConversion_map blank]

theorem edit?_map (setting : Setting) (enclosing : Option Text) (above : List Text) (line : Text)
    (declaration : Declaration) :
    edit? setting enclosing (above.map (margin ++ ·)) (margin ++ line) declaration =
      (edit? setting enclosing above line declaration).map (Edit.mapLines (margin ++ ·)) := by
  unfold edit?
  dsimp only
  rw [Block.nearest?_map blank.isBlank, setLike_append blank]
  cases Block.nearest? above with
  | none => simp [Edit.mapLines]
  | some block =>
      have changes (lines : List Text) :
          (block.lines.map (margin ++ ·) != lines.map (margin ++ ·)) = (block.lines != lines) := by
        rw [Bool.eq_iff_iff, bne_iff_ne, bne_iff_ne, ne_eq, ne_eq,
          List.map_inj_right fun _ _ same => List.append_cancel_left same]
      simp only [Option.map_some, Block.Located.mapLines, isOutdated_map blank, changes]
      split
      · rfl
      · rfl

theorem planFrom_map (setting : Setting) (above : List Text) (outer : Option Text)
    (below : List Text) :
    planFrom setting (above.map (margin ++ ·)) outer (below.map (margin ++ ·)) =
      (planFrom setting above outer below).map (Edit.mapLines (margin ++ ·)) := by
  induction below generalizing above outer with
  | nil => rfl
  | cons line below ih =>
      have onward := ih (line :: above)
      rw [List.map_cons] at onward
      rw [List.map_cons, planFrom, planFrom, blank.dropTerminator_append,
        Declaration.recognize?_append_of_blank blank.isBlank]
      cases Declaration.recognize? line.dropTerminator with
      | none => exact onward outer
      | some declaration =>
          dsimp only
          rw [onward, edit?_map blank, List.map_append]
          congr 1
          cases edit? setting (enclosingAfter outer declaration) above line declaration with
          | none => rfl
          | some edit => rfl

end Margin

end Refresh

theorem FileCues.ofText_indentBy {margin : Text} (blank : margin.IsMargin) (text : Text) :
    FileCues.ofText (text.indentBy margin) = FileCues.ofText text := by
  have converters := blank.occursIn_indentBy "Converters".toList (by decide) (by decide) text
  have helpers := blank.occursIn_indentBy "Helpers".toList (by decide) (by decide) text
  have values := blank.occursIn_indentBy "IValueConverter".toList (by decide) (by decide) text
  have data := blank.occursIn_indentBy "System.Windows.Data".toList (by decide) (by decide) text
  rw [ofText, ofText, converters, helpers, values, data]

theorem plan_indentBy {margin : Text} (blank : margin.IsMargin) (table : Curated.Table)
    (path text : Text) :
    plan table path (text.indentBy margin) =
      (plan table path text).map (Edit.mapLines (margin ++ ·)) := by
  rw [plan, plan, FileCues.ofText_indentBy blank, blank.lines_indentBy]
  exact Refresh.planFrom_map blank _ [] none text.lines

/-- A pass over an indented file: the same edits at the same places, with the margin in front of the
lines they bring, and the indented output. -/
theorem refreshed_indentBy {table : Curated.Table} (single : table.Avoids '\n') (path text : Text)
    {margin : Text} (blank : margin.IsMargin) :
    plan table path (text.indentBy margin) =
        (plan table path text).map (Edit.mapLines (margin ++ ·)) ∧
      refreshed table path (text.indentBy margin) =
        (refreshed table path text).indentBy margin := by
  refine ⟨plan_indentBy blank table path text, ?_⟩
  have cut := Outline.lines_ofLines text.lines
  have lines : (refreshed table path text).lines =
      Edit.splice text.lines (Edit.inOrder (plan table path text)) 0 := by
    rw [Outline.lines_refreshed single path cut, Outline.splice_plan table path cut]
  rw [refreshed, Edit.applyAll, blank.lines_indentBy, plan_indentBy blank, Edit.inOrder_map,
    Edit.splice_map, ← lines]
  rfl

theorem refreshed_indentBy_toColor :
    let path : Text := "Helpers/ColorHelper.cs".toList
    let text : Text := "/// 설명\r\n\r\n [Pure]\npublic string ToColor(string str)".toList
    let margin : Text := "\t ".toList
    Curated.Table.Avoids Curated.shipped '\n' ∧ margin.IsMargin ∧
      plan Curated.shipped path (text.indentBy margin) =
        (plan Curated.shipped path text).map (Edit.mapLines (margin ++ ·)) ∧
      refreshed Curated.shipped path (text.indentBy margin) =
        (refreshed Curated.shipped path text).indentBy margin := by
  have blank : Text.IsMargin "\t ".toList := by decide
  exact ⟨Curated.Table.avoids_shipped, blank,
    refreshed_indentBy Curated.Table.avoids_shipped _ _ blank⟩

end DocComments
