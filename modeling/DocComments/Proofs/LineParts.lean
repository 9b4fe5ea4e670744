import DocComments.Proofs.Heads
import DocComments.Proofs.Patterns

/-! The parts that the patterns of declaration lines share: the access word, a written type, and
the name, in front of a mark or up to a word boundary. Each has one way to match, told by the
words of the line. -/

namespace DocComments

namespace Pattern

def name : Pattern := sequence (one Declaration.isNameStart) (many (one Declaration.isNameCharacter))

section Name

variable {α : Type} {next : Cursor → Option α}

theorem attempt_name (cursor : Cursor)
    (longer : ∀ count, 0 < count →
      count < (cursor.ahead.takeWhile Declaration.isNameCharacter).length →
      next (cursor.advance count) = none) :
    name.attempt cursor next =
      if Declaration.isName (cursor.ahead.takeWhile Declaration.isNameCharacter) then
        next (cursor.past Declaration.isNameCharacter)
      else none := by
  rw [name, attempt, attempt]
  cases text : cursor.ahead with
  | nil => rfl
  | cons character rest =>
      rw [text] at longer
      by_cases start : Declaration.isNameStart character = true
      · have inside := Declaration.isNameCharacter_of_isNameStart start
        rw [List.takeWhile_cons_of_pos inside] at longer ⊢
        have further : ∀ count < ((cursor.advance 1).ahead.takeWhile Declaration.isNameCharacter).length,
            next ((cursor.advance 1).advance count) = none := by
          intro count bound
          rw [Cursor.advance_advance]
          apply longer
          · omega
          · simp [text] at bound ⊢
            omega
        have named : Declaration.isName (character :: rest.takeWhile Declaration.isNameCharacter) = true := by
          simp [Declaration.isName, start, inside]
        rw [attempt_many_one _ further, if_pos named, Cursor.past_advance_one text inside]
        simp [start]
      · have unnamed : ¬Declaration.isName
            ((character :: rest).takeWhile Declaration.isNameCharacter) = true := by
          rw [List.takeWhile_cons]
          split
          · simp [Declaration.isName, start]
          · simp [Declaration.isName]
        rw [if_neg unnamed, if_neg]
        simpa using start

theorem attempt_name_of_stops (stops : Stops Declaration.isNameCharacter next) (cursor : Cursor) :
    name.attempt cursor next =
      if Declaration.isName (cursor.ahead.takeWhile Declaration.isNameCharacter) then
        next (cursor.past Declaration.isNameCharacter)
      else none :=
  attempt_name cursor fun _ _ bound => stops _ (head?_drop_takeWhile bound)

theorem isVisible_name : IsVisible name :=
  (IsVisible.one fun character start => Declaration.isBlank_of_isNameCharacter character
    (Declaration.isNameCharacter_of_isNameStart start)).sequence _

def Answers (others : List Pattern) (next : Cursor → Option α)
    (answer : Text → List (Nat × Text) → Option α) : Prop :=
  ∀ cursor : Cursor, (row others).attempt cursor next = answer cursor.ahead cursor.groups

variable {others : List Pattern} {answer : Text → List (Nat × Text) → Option α} {mark : Char}

theorem attempt_blanks_mark (solid : Text.isBlank mark = false) (rest : Answers others next answer)
    (cursor : Cursor) :
    (row (blanks :: exactly [mark] :: others)).attempt cursor next =
      if cursor.ahead.dropBlanks.head? = some mark then
        answer cursor.ahead.dropBlanks.tail cursor.groups
      else none := by
  have visible : IsVisible (row (exactly [mark] :: others)) :=
    IsVisible.row_cons (IsVisible.exactly ⟨by simp, by simpa using solid⟩) others
  rw [attempt_row_cons, blanks, attempt_many_of_stops (visible.stops), attempt_row_cons, attempt, rest]
  simp only [Cursor.ahead_advance, Cursor.ahead_past, Cursor.groups_advance, Cursor.groups_past]
  change (if [mark].isPrefixOf cursor.ahead.dropBlanks = true then
    answer (cursor.ahead.dropBlanks.drop 1) cursor.groups else none) = _
  cases cursor.ahead.dropBlanks with
  | nil => simp
  | cons first below =>
      by_cases same : first = mark
      · simp [same]
      · simp [List.isPrefixOf, same, Ne.symm same]

theorem attempt_name_mark (outside : Declaration.isNameCharacter mark = false)
    (solid : Text.isBlank mark = false) (rest : Answers others next answer) (index : Nat)
    (cursor : Cursor) (visible : Text.StartsVisibly cursor.ahead) :
    (row (group index name :: blanks :: exactly [mark] :: others)).attempt cursor next =
      (Declaration.nameBefore? mark cursor.ahead).bind fun found =>
        answer found.2 ((index, found.1) :: cursor.groups) := by
  have stops : Stops Declaration.isNameCharacter fun after =>
      (row (blanks :: exactly [mark] :: others)).attempt
        (after.note index (after.readSince cursor)) next := by
    intro after accepted
    dsimp only
    rw [attempt_blanks_mark solid rest, Cursor.ahead_note, if_neg]
    cases text : after.ahead with
    | nil => simp [Text.dropBlanks]
    | cons character below =>
        have inside : Declaration.isNameCharacter character = true := by simpa [text] using accepted
        have shown := Declaration.isBlank_of_isNameCharacter character inside
        rw [Text.dropBlanks_of_visible (by simpa [Text.StartsVisibly] using shown)]
        rintro same
        obtain rfl : character = mark := by simpa using same
        simp [inside] at outside
  rw [attempt_row_cons, attempt, attempt_name_of_stops stops, attempt_blanks_mark solid rest,
    Cursor.readSince_past]
  simp only [Cursor.ahead_note, Cursor.groups_note, Cursor.ahead_past, Cursor.groups_past]
  rw [Declaration.nameBefore?_eq solid outside visible]
  split
  · split
    · rfl
    · rfl
  · rfl

theorem attempt_type (stops : Stops Text.isBlank next) (cursor : Cursor) :
    (sequence (several Declaration.isTypeCharacter) gap).attempt cursor next =
      if Declaration.StartsWithType cursor.ahead then next cursor.nextWord else none := by
  rw [attempt, attempt_several_word Declaration.isBlank_of_isTypeCharacter needsBlank_gap,
    attempt_gap stops, Cursor.ahead_past]
  by_cases written : Text.firstWord cursor.ahead ≠ [] ∧
      (Text.firstWord cursor.ahead).all Declaration.isTypeCharacter = true
  · rw [if_pos written]
    by_cases more : Text.behindWord cursor.ahead ≠ []
    · have blank := (behindWord_ne_nil_iff _).mp more
      have typed : Declaration.StartsWithType cursor.ahead := ⟨written, more⟩
      rw [if_pos typed]
      exact if_pos blank
    · have untyped : ¬Declaration.StartsWithType cursor.ahead := fun typed => more typed.2
      rw [if_neg untyped]
      exact if_neg (mt (behindWord_ne_nil_iff _).mpr more)
  · have untyped : ¬Declaration.StartsWithType cursor.ahead := fun typed => written typed.1
    rw [if_neg written, if_neg untyped]

theorem attempt_noted_type (stops : Stops Text.isBlank next) (index : Nat) (cursor : Cursor) :
    (sequence (group index (several Declaration.isTypeCharacter)) gap).attempt cursor next =
      if Declaration.StartsWithType cursor.ahead then
        next (cursor.nextWord.note index (Text.firstWord cursor.ahead))
      else none := by
  have noted : Stops Text.isBlank fun after =>
      next (after.note index (Text.firstWord cursor.ahead)) :=
    fun after blank => stops (after.note index _) blank
  have typed := attempt_type noted cursor
  rw [attempt] at typed ⊢
  rw [attempt_several_word Declaration.isBlank_of_isTypeCharacter needsBlank_gap] at typed
  rw [attempt, attempt_several_word Declaration.isBlank_of_isTypeCharacter
    (needsBlank_gap.note index fun after => after.readSince cursor), Cursor.readSince_past,
    attempt_gap stops, ← typed, attempt_gap noted]
  rfl

end Name

end Pattern

namespace Declaration

open Pattern

theorem isWordCharacter_read {cursor : Cursor} {count : Nat} (positive : 0 < count)
    (bound : count ≤ (cursor.ahead.takeWhile isNameCharacter).length) :
    (cursor.advance count).read.head?.any Text.isWordCharacter = true := by
  have start : cursor.ahead.take count = (cursor.ahead.takeWhile isNameCharacter).take count := by
    rw [List.prefix_iff_eq_take.mp (List.takeWhile_prefix isNameCharacter), List.take_take,
      Nat.min_eq_left bound]
  rcases List.eq_nil_or_concat ((cursor.ahead.takeWhile isNameCharacter).take count) with
    empty | ⟨front, last, shown⟩
  · have length := congrArg List.length empty
    rw [List.length_take, List.length_nil] at length
    omega
  · have member : last ∈ cursor.ahead.takeWhile isNameCharacter := by
      apply List.mem_of_mem_take
      rw [shown]
      simp
    have accepted := isWordCharacter_of_isNameCharacter (List.mem_takeWhile_imp member)
    rw [Cursor.advance, start, shown]
    simpa using accepted

theorem isWordCharacter_head {text : Text} (inside : text.head?.any isNameCharacter = true) :
    text.head?.any Text.isWordCharacter = true := by
  cases text with
  | nil => simp at inside
  | cons character rest => simpa using isWordCharacter_of_isNameCharacter (by simpa using inside)

theorem attempt_name_boundary (cursor : Cursor) :
    (row [group 2 Pattern.name, boundary]).attempt cursor Cursor.result =
      (leadingName? cursor.ahead).map fun name => (2, name) :: cursor.groups := by
  have longer : ∀ count, 0 < count → count < (cursor.ahead.takeWhile isNameCharacter).length →
      (row [boundary]).attempt
        ((cursor.advance count).note 2 ((cursor.advance count).readSince cursor)) Cursor.result =
        none := by
    intro count positive bound
    have before := isWordCharacter_read positive (Nat.le_of_lt bound)
    have behind := isWordCharacter_head (head?_drop_takeWhile bound)
    rw [attempt_row_cons, attempt]
    apply if_neg
    change ¬(((cursor.advance count).read.head?.any Text.isWordCharacter !=
      (cursor.ahead.drop count).head?.any Text.isWordCharacter) = true)
    rw [before, behind]
    decide
  rw [attempt_row_cons, attempt, attempt_name cursor longer, Cursor.readSince_past, leadingName?]
  by_cases named : isName (cursor.ahead.takeWhile isNameCharacter) = true
  · have positive : 0 < (cursor.ahead.takeWhile isNameCharacter).length :=
      List.length_pos_iff.mpr (isWord_of_isName named).1
    have before := isWordCharacter_read positive (Nat.le_refl _)
    rw [if_pos named, attempt_row_cons, attempt, attempt_row_nil, Cursor.ahead_note, Cursor.ahead_past]
    change (if ((cursor.advance _).read.head?.any Text.isWordCharacter != _) = true then _ else _) = _
    rw [before, named]
    cases (cursor.ahead.dropWhile isNameCharacter).head?.any Text.isWordCharacter with
    | false => rfl
    | true => rfl
  · simp [named]

def StartsWithAccess (line : Text) : Prop :=
  accessWords.contains (Text.firstWord line.dropBlanks) = true ∧ Text.behindWord line.dropBlanks ≠ []

instance (line : Text) : Decidable (StartsWithAccess line) :=
  inferInstanceAs (Decidable (accessWords.contains (Text.firstWord line.dropBlanks) = true ∧
    Text.behindWord line.dropBlanks ≠ []))

def behindAccess (line : Text) : Cursor := ((⟨[], line, []⟩ : Cursor).past Text.isBlank).nextWord

theorem ahead_behindAccess (line : Text) :
    (behindAccess line).ahead = Text.nextWord line.dropBlanks := by
  rw [behindAccess, Cursor.ahead_nextWord, Cursor.ahead_past]
  rfl

theorem groups_behindAccess (line : Text) : (behindAccess line).groups = [] := rfl

theorem startsVisibly_behindAccess (line : Text) : Text.StartsVisibly (behindAccess line).ahead :=
  Cursor.startsVisibly_nextWord _

theorem isWord_of_mem_accessWords : ∀ word ∈ accessWords, Text.IsWord word := by decide

theorem firstMatch?_access {others : List Pattern} (visible : (row others).IsVisible) (line : Text) :
    (row (blanks :: spaced accessWords :: others)).firstMatch? line =
      if StartsWithAccess line then (row others).attempt (behindAccess line) Cursor.result
      else none := by
  have start := (IsVisible.spaced isWord_of_mem_accessWords).row_cons others
  rw [firstMatch?, attempt_row_cons, blanks, attempt_many_of_stops start.stops, attempt_row_cons,
    attempt_spaced isWord_of_mem_accessWords visible.stops, Cursor.ahead_past]
  rfl

theorem splitWords?_dropBlanks {mark : Char} (solid : Text.isBlank mark = false) (text : Text) :
    splitWords? mark text.dropBlanks = splitWords? mark text := by
  ext ⟨words, behind⟩
  rw [splitWords?_eq_some_iff, splitWords?_eq_some_iff,
    Text.words_takeWhile_dropBlanks (passes_of_solid solid),
    Text.dropWhile_dropBlanks (passes_of_solid solid)]

theorem bind_afterAccess? {α : Type} {mark : Char} (solid : Text.isBlank mark = false)
    (unmarked : ∀ word ∈ accessWords, mark ∉ word)
    (read : List Text → Text → Option α) (empty : ∀ behind, read [] behind = none) (line : Text) :
    ((splitWords? mark line).bind fun cut => (afterAccess? cut.1).bind fun rest => read rest cut.2) =
      if StartsWithAccess line then
        (splitWords? mark (behindAccess line).ahead).bind fun cut => read cut.1 cut.2
      else none := by
  rw [← splitWords?_dropBlanks solid, ahead_behindAccess]
  split
  · next access =>
      have member := List.contains_iff_mem.mp access.1
      rw [splitWords?_nextWord solid ⟨rfl, access.2⟩ (isWord_of_mem_accessWords _ member).1
        (unmarked _ member)]
      cases splitWords? mark (Text.nextWord line.dropBlanks) with
      | none => rfl
      | some cut => simp [afterAccess?, member]
  · next other =>
      cases found : splitWords? mark line.dropBlanks with
      | none => rfl
      | some cut =>
          obtain ⟨words, behind⟩ := cut
          simp only [Option.bind_some]
          match words with
          | [] => rfl
          | [word] =>
              rw [afterAccess?]
              split
              · exact empty behind
              · rfl
          | word :: next :: others =>
              obtain ⟨first, _⟩ := isFirst_of_splitWords? (Text.startsVisibly_dropBlanks line) found
                (by simp)
              have foreign : ¬accessWords.contains word = true := by
                intro access
                rw [← first.1] at access
                exact other ⟨access, first.2⟩
              rw [afterAccess?, if_neg foreign]
              rfl

end Declaration

end DocComments
