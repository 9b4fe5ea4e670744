import DocComments.Proofs.LineParts

/-! The pattern of a property line. It matches what the words of the line tell, with the same name
(`firstMatch?_propertyPattern`); that `static` may be a modifier or the type makes no difference.
-/

namespace DocComments

namespace Declaration

open Pattern

def propertySignature : List Pattern :=
  [sequence (several isTypeCharacter) gap, group 1 Pattern.name, blanks, exactly ['{']]

def propertyPattern : Pattern :=
  row (blanks :: spaced accessWords :: optional (spaced ["static".toList]) :: propertySignature)

theorem attempt_propertySignature (cursor : Cursor) (visible : Text.StartsVisibly cursor.ahead) :
    (row propertySignature).attempt cursor Cursor.result =
      (splitWords? '{' cursor.ahead).bind fun cut => (typedName? cut.1).bind fun found =>
        some ((1, found.2) :: cursor.groups) := by
  have solid : Text.isBlank '{' = false := by decide
  have rest : Answers [] Cursor.result fun _ notes => some notes := fun _ => attempt_row_nil _
  have ends : Stops Text.isBlank fun after =>
      (row [group 1 Pattern.name, blanks, exactly ['{']]).attempt after Cursor.result :=
    ((isVisible_name.group 1).row_cons _).stops
  have named := attempt_name_mark (by decide) solid rest 1 cursor.nextWord
    cursor.startsVisibly_nextWord
  rw [Cursor.ahead_nextWord, Cursor.groups_nextWord] at named
  have typed := bind_nameBefore?_nextWord solid (by decide) visible fun found _ =>
    some ((1, found.2) :: cursor.groups)
  rw [propertySignature, attempt_row_cons, attempt_type ends, named]
  exact typed

theorem isVisible_propertySignature : IsVisible (row propertySignature) :=
  (((IsVisible.one isBlank_of_isTypeCharacter).sequence _).sequence gap).row_cons _

def propertyHead? : List Text → Option Text
  | [modifier, written, name] =>
    if modifier = "static".toList then (typedName? [written, name]).map Prod.snd else none
  | words => (typedName? words).map Prod.snd

theorem attempt_modified_property (cursor : Cursor) (visible : Text.StartsVisibly cursor.ahead) :
    (row (optional (spaced ["static".toList]) :: propertySignature)).attempt cursor Cursor.result =
      (splitWords? '{' cursor.ahead).bind fun cut => (propertyHead? cut.1).bind fun name =>
        some ((1, name) :: cursor.groups) := by
  have solid : Text.isBlank '{' = false := by decide
  have word : ∀ word ∈ ["static".toList], Text.IsWord word := by decide
  have unmarked : '{' ∉ "static".toList := by decide
  rw [attempt_row_cons, attempt_optional, attempt_spaced word isVisible_propertySignature.stops,
    attempt_propertySignature cursor visible,
    attempt_propertySignature cursor.nextWord cursor.startsVisibly_nextWord]
  split
  · next modifier =>
      have first : Text.firstWord cursor.ahead = "static".toList := by simpa using modifier.1
      have cut := splitWords?_nextWord solid ⟨first, modifier.2⟩ (word _ (by simp)).1 unmarked
      rw [cut, Cursor.ahead_nextWord, Cursor.groups_nextWord]
      cases splitWords? '{' (Text.nextWord cursor.ahead) with
      | none => rfl
      | some cut =>
          obtain ⟨words, behind⟩ := cut
          match words with
          | [] => rfl
          -- Here `static` is given back and becomes the type.
          | [name] =>
              change Option.or none ((typedName? ["static".toList, name]).bind _) =
                ((typedName? ["static".toList, name]).map Prod.snd).bind _
              rw [Option.none_or, Option.bind_map]
              rfl
          | [written, name] =>
              change ((typedName? [written, name]).bind _).or none =
                ((typedName? [written, name]).map Prod.snd).bind _
              rw [Option.or_none, Option.bind_map]
              rfl
          | written :: name :: further :: others => rfl
  · next other =>
      rw [Option.none_or]
      cases found : splitWords? '{' cursor.ahead with
      | none => rfl
      | some cut =>
          obtain ⟨words, behind⟩ := cut
          match words with
          | [] => rfl
          | [name] => rfl
          | [written, name] =>
              change (typedName? [written, name]).bind _ =
                ((typedName? [written, name]).map Prod.snd).bind _
              rw [Option.bind_map]
              rfl
          | [modifier, written, name] =>
              obtain ⟨first, _⟩ := isFirst_of_splitWords? visible found (by simp)
              have different : modifier ≠ "static".toList := by
                rintro rfl
                exact other ⟨by simp [first.1], first.2⟩
              rw [Option.bind_some, Option.bind_some, propertyHead?, if_neg different]
              rfl
          | modifier :: written :: name :: further :: others => rfl

def propertyOf? (notes : List (Nat × Text)) : Option Declaration := (notes.lookup 1).map property

theorem property?_eq (line : Text) :
    property? line = if line.contains '(' then none else
      (splitWords? '{' line).bind fun cut => (afterAccess? cut.1).bind fun rest =>
        (propertyHead? rest).map property := by
  rw [property?]
  split
  · rfl
  · rw [splitWords?]
    cases splitAt? '{' line with
    | none => rfl
    | some cut =>
        obtain ⟨head, behind⟩ := cut
        simp only [Option.bind_eq_bind, Option.bind_some, Option.map_some]
        cases afterAccess? (Text.words head) with
        | none => rfl
        | some rest =>
            simp only [Option.bind_some]
            rcases rest with _ | ⟨first, _ | ⟨second, _ | ⟨name, _ | ⟨further, others⟩⟩⟩⟩
            · rfl
            · rfl
            · by_cases whole : (first.all isTypeCharacter && isName second) = true
              · simp only [propertyHead?, typedName?, if_pos whole, Option.map_some]
              · simp only [propertyHead?, typedName?, if_neg whole, Option.map_none]
            · by_cases static : first = "static".toList
              · by_cases whole : (second.all isTypeCharacter && isName name) = true
                · simp only [propertyHead?, typedName?, static, if_pos whole, Option.map_some,
                    ↓reduceIte, decide_true, Bool.true_and]
                · simp only [propertyHead?, typedName?, static, if_neg whole, Option.map_none,
                    ↓reduceIte, decide_true, Bool.true_and]
              · simp only [propertyHead?, Option.map_none, static, decide_false, Bool.false_and,
                  Bool.false_eq_true, ↓reduceIte]
            · rfl

theorem firstMatch?_propertyPattern (line : Text) :
    (if line.contains '(' then none else (propertyPattern.firstMatch? line).bind propertyOf?) =
      property? line := by
  have visible : IsVisible (row (optional (spaced ["static".toList]) :: propertySignature)) :=
    (IsVisible.spaced (by decide)).row_optional isVisible_propertySignature
  rw [property?_eq, propertyPattern, firstMatch?_access visible,
    bind_afterAccess? (by decide) (by decide)
      (fun rest _ => (propertyHead? rest).map property) (fun _ => rfl),
    attempt_modified_property _ (startsVisibly_behindAccess line), groups_behindAccess]
  split
  · rfl
  · split
    · have read : ∀ words, ((propertyHead? words).bind fun name =>
          (some [(1, name)]).bind propertyOf?) = (propertyHead? words).map property := by
        intro words
        cases propertyHead? words with
        | none => rfl
        | some name => rfl
      simp only [Option.bind_assoc, read]
    · rfl

end Declaration

end DocComments
