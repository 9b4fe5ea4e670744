import DocComments.Proofs.LineParts

/-! The pattern of a type line. It matches what the words of the line tell, with the same kind and
name (`firstMatch?_typePattern`): no shorter name ends at a word boundary. -/

namespace DocComments

namespace Declaration

open Pattern

def typeKeywords : List Text :=
  [TypeKind.classType, .structType, .interfaceType, .enumType].map TypeKind.keyword

def typeNaming : List Pattern := [group 1 (oneOf typeKeywords), gap, group 2 Pattern.name, boundary]

def typePattern : Pattern :=
  row (blanks :: spaced accessWords :: many (spaced typeModifiers) :: typeNaming)

def typeOf? (notes : List (Nat × Text)) : Option Declaration := do
  return type (← TypeKind.ofKeyword? (← notes.lookup 1)) (← notes.lookup 2)

theorem typeOf?_pair (name word : Text) :
    typeOf? [(2, name), (1, word)] = (TypeKind.ofKeyword? word).map fun kind => type kind name := by
  change (TypeKind.ofKeyword? word).bind (fun kind => some (type kind name)) = _
  cases TypeKind.ofKeyword? word with
  | none => rfl
  | some kind => rfl

theorem isWord_of_mem_typeModifiers : ∀ word ∈ typeModifiers, Text.IsWord word := by decide

theorem isVisible_typeNaming : IsVisible (row typeNaming) :=
  ((IsVisible.oneOf (by decide)).group 1).row_cons _

theorem attempt_typeNaming (cursor : Cursor) :
    (row typeNaming).attempt cursor Cursor.result =
      if typeKeywords.contains (Text.firstWord cursor.ahead) ∧ Text.behindWord cursor.ahead ≠ [] then
        (leadingName? (Text.nextWord cursor.ahead)).map fun name =>
          (2, name) :: (1, Text.firstWord cursor.ahead) :: cursor.groups
      else none := by
  have ends : Stops Text.isBlank fun after =>
      (row [group 2 Pattern.name, boundary]).attempt after Cursor.result :=
    ((isVisible_name.group 2).row_cons _).stops
  have needs : NeedsBlank fun after =>
      (row [gap, group 2 Pattern.name, boundary]).attempt after Cursor.result := by
    simp only [attempt_row_cons gap]
    exact needsBlank_gap
  rw [typeNaming, attempt_row_cons, attempt, attempt_oneOf (by decide)
    (needs.note 1 fun after => after.readSince cursor), Cursor.readSince_past, attempt_row_cons,
    attempt_gap ends, attempt_name_boundary]
  simp only [Cursor.ahead_past, Cursor.ahead_note, Cursor.groups_past, Cursor.groups_note]
  by_cases keyword : typeKeywords.contains (Text.firstWord cursor.ahead) = true
  · rw [if_pos keyword]
    by_cases more : Text.behindWord cursor.ahead ≠ []
    · have both : typeKeywords.contains (Text.firstWord cursor.ahead) = true ∧
          Text.behindWord cursor.ahead ≠ [] := ⟨keyword, more⟩
      rw [if_pos both]
      exact if_pos ((behindWord_ne_nil_iff _).mp more)
    · have single : ¬(typeKeywords.contains (Text.firstWord cursor.ahead) = true ∧
          Text.behindWord cursor.ahead ≠ []) := fun both => more both.2
      rw [if_neg single]
      exact if_neg (mt (behindWord_ne_nil_iff _).mpr more)
  · rw [if_neg keyword, if_neg fun both => keyword both.1]

theorem typeHead?_modified {word : Text} {rest : List Text}
    (modifier : typeModifiers.contains word = true) : typeHead? (word :: rest) = typeHead? rest :=
  if_pos modifier

theorem contains_typeKeywords (word : Text) :
    typeKeywords.contains word = (TypeKind.ofKeyword? word).isSome := by
  cases found : TypeKind.ofKeyword? word with
  | none =>
      rw [TypeKind.ofKeyword?, List.find?_eq_none] at found
      rw [Option.isSome_none, Bool.eq_false_iff, ne_eq, List.contains_iff_mem, typeKeywords, List.mem_map]
      rintro ⟨kind, member, rfl⟩
      exact found kind member (beq_self_eq_true _)
  | some kind =>
      obtain rfl := (TypeKind.ofKeyword?_eq_some_iff word kind).mp found
      cases kind <;> decide

theorem typeHead?_named {word : Text} {rest : List Text}
    (unmodified : ¬typeModifiers.contains word = true) :
    typeHead? (word :: rest) = (TypeKind.ofKeyword? word).bind fun kind =>
      rest.head?.bind fun named => (leadingName? named).map (type kind) := by
  have outside : word ∉ typeModifiers := by simpa using unmodified
  cases found : TypeKind.ofKeyword? word with
  | none => simp [typeHead?, found, outside]
  | some kind =>
      cases rest with
      | nil => simp [typeHead?]
      | cons named others => simp [typeHead?, found, outside]

theorem attempt_modified_type (cursor : Cursor) (visible : Text.StartsVisibly cursor.ahead)
    (fresh : cursor.groups = []) :
    ((row (many (spaced typeModifiers) :: typeNaming)).attempt cursor Cursor.result).bind typeOf? =
      typeHead? (Text.words cursor.ahead) := by
  have foreign : ∀ word ∈ typeModifiers, ¬typeKeywords.contains word = true := by decide
  induction size : cursor.ahead.length using Nat.strongRecOn generalizing cursor with
  | ind length ih =>
      rw [attempt_row_cons, attempt_many_spaced isWord_of_mem_typeModifiers isVisible_typeNaming.stops,
        attempt_typeNaming]
      by_cases nothing : cursor.ahead = []
      · rw [nothing, Text.words_nil]
        rfl
      rw [Text.words_of_visible visible nothing]
      split
      · next word =>
          have modifier := List.contains_iff_mem.mp word.1
          have shorter : cursor.nextWord.ahead.length < length := by
            rw [← size, Cursor.ahead_nextWord]
            exact Text.length_nextWord_lt word.2
          have later := ih _ shorter cursor.nextWord cursor.startsVisibly_nextWord fresh rfl
          rw [attempt_row_cons, Cursor.ahead_nextWord, Text.nextWord, Text.words_dropBlanks] at later
          -- Given back, a modifier is no keyword.
          rw [if_neg fun both => foreign _ modifier both.1, Option.or_none, typeHead?_modified word.1,
            later]
      · next other =>
          by_cases modifier : typeModifiers.contains (Text.firstWord cursor.ahead) = true
          · have last : Text.behindWord cursor.ahead = [] := by
              by_contra more
              exact other ⟨modifier, more⟩
            rw [if_neg fun both => both.2 last, typeHead?_modified modifier, last, Text.words_nil]
            rfl
          · rw [typeHead?_named modifier, leadingName?_nextWord, contains_typeKeywords, fresh]
            cases keyword : TypeKind.ofKeyword? (Text.firstWord cursor.ahead) with
            | none => rfl
            | some kind =>
                by_cases last : Text.behindWord cursor.ahead = []
                · rw [if_neg fun both => both.2 last, last, Text.words_nil]
                  rfl
                · rw [if_pos ⟨rfl, last⟩]
                  cases (Text.words (Text.behindWord cursor.ahead)).head? with
                  | none => rfl
                  | some named =>
                      cases naming : leadingName? named with
                      | none => simp [naming]
                      | some name => simp [naming, typeOf?_pair, keyword]

theorem firstMatch?_typePattern (line : Text) :
    (typePattern.firstMatch? line).bind typeOf? = type? line := by
  have visible : IsVisible (row (many (spaced typeModifiers) :: typeNaming)) :=
    (IsVisible.spaced isWord_of_mem_typeModifiers).row_many isVisible_typeNaming
  rw [typePattern, firstMatch?_access visible, type?, ← Text.words_dropBlanks, Option.bind_eq_bind]
  by_cases nothing : Text.dropBlanks line = []
  · have other : ¬StartsWithAccess line := by
      intro access
      rw [StartsWithAccess, nothing] at access
      exact access.2 rfl
    rw [if_neg other, nothing, Text.words_nil]
    rfl
  rw [Text.words_of_visible (Text.startsVisibly_dropBlanks line) nothing, afterAccess?]
  split
  · next access =>
      rw [attempt_modified_type _ (startsVisibly_behindAccess line) (groups_behindAccess line),
        ahead_behindAccess, Text.nextWord, Text.words_dropBlanks, if_pos access.1]
      rfl
  · next other =>
      split
      · next member =>
          have last : Text.behindWord line.dropBlanks = [] := by
            by_contra more
            exact other ⟨member, more⟩
          rw [last, Text.words_nil]
          rfl
      · rfl

end Declaration

end DocComments
