import DocComments.Proofs.LineParts

/-! The pattern of a method line. A modifier can be read again as the return type or as the name,
once what stands behind it does not match; still the pattern matches what the words of the line
tell, with the same parts (`firstMatch?_methodPattern`). -/

namespace DocComments

namespace Declaration

open Pattern

def signatureEnd : Pattern :=
  either (exactly ['{']) (either (exactly "=>".toList) (either (exactly "where".toList)
    (either (exactly [':']) finish)))

def parameterList : List Pattern :=
  [group 3 (many (one (· ≠ ')'))), exactly [')'], blanks, signatureEnd]

def closed? (text : Text) : Option Text :=
  (splitAt? ')' text).bind fun cut => if isSignatureEnd cut.2 then some cut.1 else none

theorem or_of_ite {α : Type} (first second : Bool) (value : α) :
    (if first then some value else none).or (if second then some value else none) =
      if first || second then some value else none := by
  cases first <;> simp

theorem attempt_signatureEnd (cursor : Cursor) :
    signatureEnd.attempt cursor Cursor.result =
      if cursor.ahead.isEmpty ||
          [['{'], "=>".toList, "where".toList, [':']].any (·.isPrefixOf cursor.ahead) then
        some cursor.groups
      else none := by
  simp only [signatureEnd, attempt, Cursor.result, Cursor.groups_advance, or_of_ite, List.any_cons,
    List.any_nil, Bool.or_false]
  rw [Bool.or_comm cursor.ahead.isEmpty]
  simp only [Bool.or_assoc]

theorem isVisible_signatureEnd : IsVisible signatureEnd := by
  refine .either (.exactly ?_) (.either (.exactly ?_) (.either (.exactly ?_)
    (.either (.exactly ?_) .finish)))
  all_goals decide

theorem attempt_parameterList :
    Answers parameterList Cursor.result fun text notes =>
      (closed? text).map fun params => (3, params) :: notes := by
  intro cursor
  have stops : Stops (fun character => decide (character ≠ ')')) fun after =>
      (row [exactly [')'], blanks, signatureEnd]).attempt (after.note 3 (after.readSince cursor))
        Cursor.result := by
    intro after other
    dsimp only
    rw [attempt_row_cons, attempt, if_neg]
    intro closes
    cases text : after.ahead with
    | nil => simp [text] at other
    | cons character below =>
        rw [Cursor.ahead_note, text] at closes
        have same : ')' = character := by simpa [List.isPrefixOf] using closes
        simp [text, ← same] at other
  have ends : Stops Text.isBlank fun after => (row [signatureEnd]).attempt after Cursor.result :=
    (isVisible_signatureEnd.row_cons []).stops
  dsimp only
  rw [parameterList, attempt_row_cons, attempt, attempt_many_of_stops stops, Cursor.readSince_past,
    attempt_row_cons, attempt, closed?, splitAt?, Cursor.ahead_note, Cursor.ahead_past]
  have stop := List.head?_dropWhile_not (fun other => decide (other ≠ ')')) cursor.ahead
  cases rest : cursor.ahead.dropWhile (fun character => decide (character ≠ ')')) with
  | nil => rfl
  | cons closing behind =>
      rw [rest] at stop
      obtain rfl : closing = ')' := by simpa using stop
      rw [if_pos (by simp), attempt_row_cons, blanks, attempt_many_of_stops ends, attempt_row_cons]
      simp only [attempt_row_nil, attempt_signatureEnd, Cursor.ahead_past, Cursor.ahead_advance,
        Cursor.ahead_note, rest, Option.bind_some]
      change (if isSignatureEnd behind = true then
        some ((3, cursor.ahead.takeWhile (· ≠ ')')) :: cursor.groups) else none) = _
      split
      · rfl
      · rfl

def signatureNotes (opened : Text) (head : Option Text × Text) (notes : List (Nat × Text)) :
    Option (List (Nat × Text)) :=
  (closed? opened).map fun params =>
    (3, params) :: (2, head.2) :: ((head.1.map fun written => (1, written)).toList ++ notes)

def plainHead? : List Text → Option (Option Text × Text)
  | [name] => if isName name then some (none, name) else none
  | [written, name] =>
    if written.all isTypeCharacter && isName name then some (some written, name) else none
  | _ => none

def signature : List Pattern :=
  [optional (sequence (group 1 (several isTypeCharacter)) gap), group 2 Pattern.name, blanks,
    exactly ['(']] ++ parameterList

theorem attempt_signature (cursor : Cursor) (visible : Text.StartsVisibly cursor.ahead) :
    (row signature).attempt cursor Cursor.result =
      (splitWords? '(' cursor.ahead).bind fun cut => (plainHead? cut.1).bind fun head =>
        signatureNotes cut.2 head cursor.groups := by
  have solid : Text.isBlank '(' = false := by decide
  have named := attempt_name_mark (by decide) solid attempt_parameterList 2
  have ends : Stops Text.isBlank fun after =>
      (row (group 2 Pattern.name :: blanks :: exactly ['('] :: parameterList)).attempt after
        Cursor.result := ((isVisible_name.group 2).row_cons _).stops
  have typed := bind_nameBefore?_nextWord solid (by decide) visible fun found opened =>
    signatureNotes opened (some found.1, found.2) cursor.groups
  have inner := named (cursor.nextWord.note 1 (Text.firstWord cursor.ahead))
    cursor.startsVisibly_nextWord
  rw [Cursor.ahead_note, Cursor.ahead_nextWord] at inner
  rw [signature]
  change (row (optional _ :: group 2 Pattern.name :: blanks :: exactly ['('] :: parameterList)).attempt
    cursor Cursor.result = _
  rw [attempt_row_cons, attempt_optional, attempt_noted_type ends, named cursor visible, inner]
  change (if StartsWithType cursor.ahead then (nameBefore? '(' (Text.nextWord cursor.ahead)).bind
    fun found => signatureNotes found.2 (some (Text.firstWord cursor.ahead), found.1) cursor.groups
    else none).or _ = _
  rw [typed, nameBefore?]
  cases splitWords? '(' cursor.ahead with
  | none => rfl
  | some cut =>
      obtain ⟨words, behind⟩ := cut
      rcases words with _ | ⟨name, _ | ⟨last, _ | ⟨further, others⟩⟩⟩
      · rfl
      · by_cases named : isName name = true
        · simp [plainHead?, typedName?, signatureNotes, named]
        · simp [plainHead?, typedName?, named]
      · by_cases whole : (name.all isTypeCharacter && isName last) = true
        · simp only [plainHead?, typedName?, if_pos whole, Option.bind_some, Option.bind_none,
            Option.or_none]
        · simp only [plainHead?, typedName?, if_neg whole, Option.bind_some, Option.bind_none,
            Option.or_none]
      · rfl

theorem isWord_of_mem_methodModifiers : ∀ word ∈ methodModifiers, Text.IsWord word := by decide

theorem isVisible_signature : IsVisible (row signature) := by
  have written : IsVisible (several isTypeCharacter) :=
    (IsVisible.one isBlank_of_isTypeCharacter).sequence _
  exact ((written.group 1).sequence gap).row_optional ((isVisible_name.group 2).row_cons _)

theorem signatureNotes_eq_none_iff {opened : Text} {head : Option Text × Text}
    {notes : List (Nat × Text)} : signatureNotes opened head notes = none ↔ closed? opened = none := by
  rw [signatureNotes, Option.map_eq_none_iff]

theorem methodHead?_modified {word name : Text} {others : List Text}
    (modifier : methodModifiers.contains word = true) :
    methodHead? (word :: name :: others) = methodHead? (name :: others) :=
  if_pos modifier

theorem methodHead?_unmodified {word name : Text} {others : List Text}
    (unmodified : ¬methodModifiers.contains word = true) :
    methodHead? (word :: name :: others) = plainHead? (word :: name :: others) := by
  rw [methodHead?, if_neg unmodified]
  cases others with
  | nil => rfl
  | cons further others => rfl

/-- A modifier is given back to the signature only where the words behind it are no signature; with the
modifier in front of them they are none either, or one that ends at the same place. -/
theorem attempt_modified_signature (cursor : Cursor) (visible : Text.StartsVisibly cursor.ahead) :
    (row (many (spaced methodModifiers) :: signature)).attempt cursor Cursor.result =
      (splitWords? '(' cursor.ahead).bind fun cut => (methodHead? cut.1).bind fun head =>
        signatureNotes cut.2 head cursor.groups := by
  have unmarked : ∀ word ∈ methodModifiers, '(' ∉ word := by decide
  have solid : Text.isBlank '(' = false := by decide
  induction size : cursor.ahead.length using Nat.strongRecOn generalizing cursor with
  | ind length ih =>
      rw [attempt_row_cons, attempt_many_spaced isWord_of_mem_methodModifiers isVisible_signature.stops,
        attempt_signature cursor visible]
      split
      · next word =>
          have modifier := List.contains_iff_mem.mp word.1
          have shorter : cursor.nextWord.ahead.length < length := by
            rw [← size, Cursor.ahead_nextWord]
            exact Text.length_nextWord_lt word.2
          -- First the modifier is read as one, with all that may follow behind it.
          have later := ih _ shorter cursor.nextWord cursor.startsVisibly_nextWord rfl
          rw [attempt_row_cons] at later
          have nonempty := (isWord_of_mem_methodModifiers _ modifier).1
          have cut := splitWords?_nextWord solid ⟨rfl, word.2⟩ nonempty (unmarked _ modifier)
          rw [later, cut, Cursor.ahead_nextWord, Cursor.groups_nextWord]
          cases splitWords? '(' (Text.nextWord cursor.ahead) with
          | none => rfl
          | some cut =>
              obtain ⟨words, behind⟩ := cut
              simp only [Option.map_some, Option.bind_some]
              -- Then it is given back, as the name or as the return type of the one word behind it.
              match words with
              | [] => simp [methodHead?, plainHead?]
              | [name] =>
                  rw [methodHead?_modified word.1]
                  by_cases last : isName name = true
                  -- Both readings end with the same parameter list, so the second fails with the first.
                  · cases ended : closed? behind with
                    | none =>
                        have nothing : ∀ head notes, signatureNotes behind head notes = none :=
                          fun _ _ => signatureNotes_eq_none_iff.mpr ended
                        simp [nothing]
                    | some params => simp [methodHead?, signatureNotes, last, ended]
                  · simp [methodHead?, plainHead?, last]
              | name :: further :: others => simp [methodHead?_modified word.1, plainHead?]
      · next other =>
          cases found : splitWords? '(' cursor.ahead with
          | none => rfl
          | some cut =>
              obtain ⟨words, behind⟩ := cut
              simp only [Option.bind_some]
              match words with
              | [] => rfl
              | [name] => rfl
              | written :: name :: others =>
                  obtain ⟨first, nonempty⟩ := isFirst_of_splitWords? visible found (by simp)
                  have unmodified : methodModifiers.contains written ≠ true := by
                    intro modifier
                    rw [← first.1] at modifier
                    exact other ⟨modifier, first.2⟩
                  rw [methodHead?_unmodified unmodified]

def methodPattern : Pattern :=
  row (blanks :: spaced accessWords :: many (spaced methodModifiers) :: signature)

def methodOf? (notes : List (Nat × Text)) : Option Declaration := do
  return method (← notes.lookup 2) (notes.lookup 1) (← notes.lookup 3)

theorem bind_methodOf? (opened : Text) (head : Option Text × Text) :
    (signatureNotes opened head []).bind methodOf? =
      (closed? opened).map fun params => method head.2 head.1 params := by
  obtain ⟨returnType, name⟩ := head
  rw [signatureNotes]
  cases closed? opened with
  | none => rfl
  | some params =>
      cases returnType with
      | none => rfl
      | some written => rfl

theorem map_closed? {α : Type} (opened : Text) (answer : Text → α) :
    (closed? opened).map answer = (splitAt? ')' opened).bind fun cut =>
      if isSignatureEnd cut.2 then some (answer cut.1) else none := by
  rw [closed?]
  cases splitAt? ')' opened with
  | none => rfl
  | some cut => by_cases ends : isSignatureEnd cut.2 = true <;> simp [ends]

def methodFrom? (words : List Text) (opened : Text) : Option Declaration :=
  (methodHead? words).bind fun head => (signatureNotes opened head []).bind methodOf?

theorem method?_eq (line : Text) :
    method? line = (splitWords? '(' line).bind fun cut => (afterAccess? cut.1).bind fun rest =>
      methodFrom? rest cut.2 := by
  simp only [methodFrom?, bind_methodOf?, map_closed?, method?, splitWords?, Option.bind_eq_bind,
    Option.bind_map]
  rfl

theorem firstMatch?_methodPattern (line : Text) :
    (methodPattern.firstMatch? line).bind methodOf? = method? line := by
  have visible : IsVisible (row (many (spaced methodModifiers) :: signature)) :=
    (IsVisible.spaced isWord_of_mem_methodModifiers).row_many isVisible_signature
  rw [methodPattern, firstMatch?_access visible, method?_eq,
    bind_afterAccess? (by decide) (by decide) methodFrom? (fun _ => rfl)]
  split
  · rw [attempt_modified_signature _ (startsVisibly_behindAccess line), groups_behindAccess]
    simp only [methodFrom?, Option.bind_assoc]
  · rfl

end Declaration

end DocComments
