import DocComments.Proofs.WordRuns

/-! The words of an identifier by the positions of its characters. Main statement: the words are
the only cut of the letters and digits that keeps two of them together exactly when they stand
side by side and the rule for neighbours allows it (`fragments_exact`). -/

namespace DocComments

namespace Identifier

def IsLetter (name : Text) (position : Nat) : Prop :=
  (name[position]?).any Char.isAlphanum = true

def letterNumber (name : Text) (position : Nat) : Nat :=
  (name.take position).countP Char.isAlphanum

def wordNumber : List Text → Nat → Nat
  | [], _ => 0
  | word :: words, letter =>
    if letter < word.length then 0 else wordNumber words (letter - word.length) + 1

def ShareWord (name : Text) (words : List Text) (first second : Nat) : Prop :=
  wordNumber words (letterNumber name first) = wordNumber words (letterNumber name second)

def BelongTogether (name : Text) (position : Nat) : Prop :=
  ∃ first second, name[position]? = some first ∧ name[position + 1]? = some second ∧
    (first.isLower = true ∧ second.isLower = true ∨ first.isDigit = true ∧ second.isDigit = true ∨
      first.isUpper = true ∧ second.isLower = true ∨
      first.isUpper = true ∧ second.isUpper = true ∧
        ∀ third, name[position + 2]? = some third → third.isLower = false)

/-- A cut of an identifier into words: nothing but letters and digits, all of them and in their order,
with neighbours together where they belong together and nothing together across a separator. -/
structure IsSplit (name : Text) (words : List Text) : Prop where
  letters : words.flatten = name.filter Char.isAlphanum
  nonempty : ∀ word ∈ words, word ≠ []
  neighbours : ∀ position, IsLetter name position → IsLetter name (position + 1) →
    (ShareWord name words position (position + 1) ↔ BelongTogether name position)
  apart : ∀ first middle last, first < middle → middle < last → IsLetter name first →
    ¬IsLetter name middle → IsLetter name last → ¬ShareWord name words first last

@[simp] theorem letterNumber_zero (name : Text) : letterNumber name 0 = 0 := rfl

theorem letterNumber_separator {character : Char} (separates : character.isAlphanum = false)
    (rest : Text) (position : Nat) :
    letterNumber (character :: rest) (position + 1) = letterNumber rest position := by
  simp [letterNumber, separates]

theorem letterNumber_letter {character : Char} (letter : character.isAlphanum = true)
    (rest : Text) (position : Nat) :
    letterNumber (character :: rest) (position + 1) = letterNumber rest position + 1 := by
  simp [letterNumber, letter]

theorem getElem?_letterNumber {name : Text} {position : Nat} (letter : IsLetter name position) :
    (name.filter Char.isAlphanum)[letterNumber name position]? = name[position]? := by
  induction name generalizing position with
  | nil => cases letter
  | cons character rest ih =>
      cases position with
      | zero =>
          have kept : character.isAlphanum = true := letter
          simp [kept]
      | succ position =>
          have later := ih (show IsLetter rest position from letter)
          cases kept : character.isAlphanum with
          | false => simpa [kept, letterNumber_separator kept] using later
          | true => simpa [kept, letterNumber_letter kept] using later

theorem wordNumber_succ (character : Char) (word : Text) (words : List Text) (letter : Nat) :
    wordNumber ((character :: word) :: words) (letter + 1) = wordNumber (word :: words) letter := by
  simp [wordNumber]

theorem wordNumber_empty (words : List Text) (letter : Nat) :
    wordNumber ([] :: words) letter = wordNumber words letter + 1 := by
  simp [wordNumber]

theorem wordNumber_zero {word : Text} (nonempty : word ≠ []) (words : List Text) :
    wordNumber (word :: words) 0 = 0 :=
  if_pos (List.length_pos_iff.mpr nonempty)

theorem shareWord_separator {character : Char} (separates : character.isAlphanum = false)
    (rest : Text) (words : List Text) (first second : Nat) :
    ShareWord (character :: rest) words (first + 1) (second + 1) ↔
      ShareWord rest words first second := by
  unfold ShareWord
  rw [letterNumber_separator separates, letterNumber_separator separates]

theorem shareWord_last {character : Char} (letter : character.isAlphanum = true)
    (rest : Text) (words : List Text) (first second : Nat) :
    ShareWord (character :: rest) ([character] :: words) (first + 1) (second + 1) ↔
      ShareWord rest words first second := by
  unfold ShareWord
  rw [letterNumber_letter letter, letterNumber_letter letter, wordNumber_succ, wordNumber_succ,
    wordNumber_empty, wordNumber_empty]
  exact Nat.add_right_cancel_iff

theorem shareWord_joined {character : Char} (letter : character.isAlphanum = true)
    (rest word : Text) (words : List Text) (first second : Nat) :
    ShareWord (character :: rest) ((character :: word) :: words) (first + 1) (second + 1) ↔
      ShareWord rest (word :: words) first second := by
  unfold ShareWord
  rw [letterNumber_letter letter, letterNumber_letter letter, wordNumber_succ, wordNumber_succ]

theorem not_shareWord_last {character : Char} (letter : character.isAlphanum = true)
    (rest : Text) (words : List Text) (second : Nat) :
    ¬ShareWord (character :: rest) ([character] :: words) 0 (second + 1) := by
  unfold ShareWord
  rw [letterNumber_letter letter, wordNumber_succ, wordNumber_empty]
  exact (Nat.succ_ne_zero _).symm

theorem shareWord_front {character : Char} (letter : character.isAlphanum = true) (rest : Text)
    {word : Text} (nonempty : word ≠ []) (words : List Text) (second : Nat) :
    ShareWord (character :: rest) ((character :: word) :: words) 0 (second + 1) ↔
      ShareWord rest (word :: words) 0 second := by
  unfold ShareWord
  rw [letterNumber_letter letter, wordNumber_succ, letterNumber_zero, letterNumber_zero,
    wordNumber_zero (List.cons_ne_nil _ _), wordNumber_zero nonempty]

theorem belongTogether_zero (character : Char) (rest : Text) :
    BelongTogether (character :: rest) 0 ↔ joins character rest = true := by
  cases rest with
  | nil => simp [BelongTogether, joins]
  | cons next after =>
      cases after <;> simp [BelongTogether, joins, or_assoc, and_assoc]

theorem isLetter_of_joins {character : Char} {rest : Text} (joined : joins character rest = true) :
    IsLetter rest 0 := by
  have head := (isAlphanum_of_joins joined).2
  rwa [List.head?_eq_getElem?] at head

/-- A cut of what follows a character is one of the whole identifier, if it is right about that
character. -/
theorem IsSplit.cons {character : Char} {rest : Text} {words others : List Text}
    (tail : IsSplit rest others)
    (letters : words.flatten = (character :: rest).filter Char.isAlphanum)
    (nonempty : ∀ word ∈ words, word ≠ [])
    (shift : ∀ first second, ShareWord (character :: rest) words (first + 1) (second + 1) ↔
      ShareWord rest others first second)
    (neighbour : character.isAlphanum = true → IsLetter rest 0 →
      (ShareWord (character :: rest) words 0 1 ↔ joins character rest = true))
    (gap : character.isAlphanum = true → ∀ middle last, middle < last → ¬IsLetter rest middle →
      IsLetter rest last → ¬ShareWord (character :: rest) words 0 (last + 1)) :
    IsSplit (character :: rest) words where
  letters := letters
  nonempty := nonempty
  neighbours := by
    intro position first second
    cases position with
    | zero => rw [belongTogether_zero, neighbour first second]
    | succ position => exact (shift _ _).trans (tail.neighbours position first second)
  apart := by
    intro first middle last before behind start separator stop
    cases middle with
    | zero => omega
    | succ middle =>
        cases last with
        | zero => omega
        | succ last =>
            cases first with
            | zero => exact gap start middle last (by omega) separator stop
            | succ first =>
                rw [shift]
                exact tail.apart first middle last (by omega) (by omega) start separator stop

theorem IsSplit.tail {character : Char} {rest : Text} {words others : List Text}
    (split : IsSplit (character :: rest) words)
    (letters : others.flatten = rest.filter Char.isAlphanum)
    (nonempty : ∀ word ∈ others, word ≠ [])
    (shift : ∀ first second, ShareWord (character :: rest) words (first + 1) (second + 1) ↔
      ShareWord rest others first second) :
    IsSplit rest others where
  letters := letters
  nonempty := nonempty
  neighbours := fun position first second =>
    (shift _ _).symm.trans (split.neighbours (position + 1) first second)
  apart := by
    intro first middle last before behind start separator stop
    rw [← shift]
    exact split.apart (first + 1) (middle + 1) (last + 1) (by omega) (by omega) start separator stop

theorem isSplit_fragments (name : Text) : IsSplit name (fragments name) := by
  induction name with
  | nil =>
      refine ⟨rfl, by simp [fragments], ?_, ?_⟩
      · intro position letter
        cases letter
      · intro first middle last _ _ letter
        cases letter
  | cons character rest ih =>
      have letters := flatten_fragments (character :: rest)
      cases letter : character.isAlphanum with
      | false =>
          rw [fragments_separator letter] at letters ⊢
          exact ih.cons letters ih.nonempty (shareWord_separator letter rest _)
            (by simp [letter]) (by simp [letter])
      | true =>
          cases joined : joins character rest with
          | false =>
              rw [fragments_last letter joined] at letters ⊢
              refine ih.cons letters ?_ (shareWord_last letter rest _) ?_ ?_
              · exact List.forall_mem_cons.mpr ⟨List.cons_ne_nil _ _, ih.nonempty⟩
              · intro _ _
                rw [joined]
                exact iff_of_false (not_shareWord_last letter rest _ 0) Bool.false_ne_true
              · intro _ _ last _ _ _
                exact not_shareWord_last letter rest _ last
          | true =>
              obtain ⟨word, words, first⟩ := exists_fragments_of_joins joined
              rw [fragments_joined joined, first, Text.extendFirst] at letters ⊢
              rw [first] at ih
              have nonempty := List.forall_mem_cons.mp ih.nonempty
              have next := isLetter_of_joins joined
              refine ih.cons letters ?_ (shareWord_joined letter rest word words) ?_ ?_
              · exact List.forall_mem_cons.mpr ⟨List.cons_ne_nil _ _, nonempty.2⟩
              · intro _ _
                rw [joined]
                exact iff_of_true ((shareWord_front letter rest nonempty.1 words 0).mpr rfl) rfl
              · intro _ middle last below separator stop
                rw [shareWord_front letter rest nonempty.1]
                have inside : 0 < middle := by
                  rw [Nat.pos_iff_ne_zero]
                  rintro rfl
                  exact separator next
                exact ih.apart 0 middle last inside below next separator stop

theorem exists_first_letter {name : Text} (letters : name.filter Char.isAlphanum ≠ []) :
    ∃ position, IsLetter name position ∧ letterNumber name position = 0 := by
  induction name with
  | nil => exact absurd rfl letters
  | cons character rest ih =>
      cases letter : character.isAlphanum with
      | true => exact ⟨0, letter, rfl⟩
      | false =>
          obtain ⟨position, found, first⟩ := ih (by simpa [letter] using letters)
          exact ⟨position + 1, found, by rw [letterNumber_separator letter, first]⟩

theorem IsSplit.joins_eq_false {character : Char} {rest : Text} {words : List Text}
    (letter : character.isAlphanum = true)
    (split : IsSplit (character :: rest) ([character] :: words)) : joins character rest = false := by
  rw [Bool.eq_false_iff]
  intro joined
  have together := (split.neighbours 0 letter (isLetter_of_joins joined)).mpr ((belongTogether_zero _ _).mpr joined)
  exact not_shareWord_last letter rest words 0 together

theorem IsSplit.joins_eq_true {character : Char} {rest word : Text} {words : List Text}
    (letter : character.isAlphanum = true) (longer : word ≠ [])
    (split : IsSplit (character :: rest) ((character :: word) :: words)) :
    joins character rest = true := by
  have letters := split.letters
  rw [List.filter_cons_of_pos letter, List.flatten_cons, List.cons_append, List.cons.injEq] at letters
  have more : rest.filter Char.isAlphanum ≠ [] := by
    rw [← letters.2]
    simp [longer]
  obtain ⟨position, next, first⟩ := exists_first_letter more
  have together :
      ShareWord (character :: rest) ((character :: word) :: words) 0 (position + 1) := by
    rw [shareWord_front letter rest longer, ShareWord, first]
    rfl
  -- A separator behind the character would part it from the second letter of its word.
  by_cases beside : IsLetter rest 0
  · rw [← belongTogether_zero]
    refine (split.neighbours 0 letter beside).mp ?_
    exact (shareWord_front letter rest longer words 0).mpr rfl
  · cases position with
    | zero => exact absurd next beside
    | succ position =>
        exact absurd together
          (split.apart 0 1 (position + 1 + 1) (by omega) (by omega) letter beside next)

theorem IsSplit.eq_fragments {name : Text} {words : List Text} (split : IsSplit name words) :
    fragments name = words := by
  -- Without its first character the identifier is cut the same way, except that the word of a letter
  -- gets shorter by it or disappears.
  induction name generalizing words with
  | nil =>
      cases words with
      | nil => rfl
      | cons word words =>
          have letters := split.letters
          simp [split.nonempty word (by simp)] at letters
  | cons character rest ih =>
      have letters := split.letters
      cases letter : character.isAlphanum with
      | false =>
          rw [List.filter_cons_of_neg (by simp [letter])] at letters
          rw [fragments_separator letter]
          exact ih (split.tail letters split.nonempty (shareWord_separator letter rest words))
      | true =>
          rw [List.filter_cons_of_pos letter] at letters
          cases words with
          | nil => cases letters
          | cons word words =>
              have nonempty := List.forall_mem_cons.mp split.nonempty
              cases word with
              | nil => exact absurd rfl nonempty.1
              | cons first word =>
                  rw [List.flatten_cons, List.cons_append, List.cons.injEq] at letters
                  obtain ⟨rfl, letters⟩ := letters
                  cases word with
                  | nil =>
                      have others := ih (split.tail letters nonempty.2 (shareWord_last letter rest words))
                      rw [fragments_last letter (split.joins_eq_false letter), others]
                  | cons second word =>
                      have longer := List.cons_ne_nil second word
                      rw [← List.flatten_cons] at letters
                      have others := ih (split.tail letters
                        (List.forall_mem_cons.mpr ⟨longer, nonempty.2⟩)
                        (shareWord_joined letter rest _ words))
                      rw [fragments_joined (split.joins_eq_true letter longer), others]
                      rfl

/-- The words that a scan in runs finds are those of the rule for neighbours, and no other cut of the
identifier keeps that rule. The letter at a position is the one with its number in the joined words. -/
theorem fragments_exact (name : Text) :
    scan name = fragments name ∧ (∀ words, fragments name = words ↔ IsSplit name words) ∧
      ∀ position, IsLetter name position →
        (fragments name).flatten[letterNumber name position]? = name[position]? := by
  refine ⟨scan_eq name, fun words => ⟨?_, IsSplit.eq_fragments⟩, ?_⟩
  · rintro rfl
    exact isSplit_fragments name
  · intro position letter
    rw [flatten_fragments, getElem?_letterNumber letter]

theorem fragments_exact_capitals :
    IsLetter "_XMLValue2".toList 4 ∧
      IsSplit "_XMLValue2".toList ["XML".toList, "Value".toList, "2".toList] ∧
      (fragments "_XMLValue2".toList).flatten[letterNumber "_XMLValue2".toList 4]? = some 'V' := by
  have letter : IsLetter "_XMLValue2".toList 4 := rfl
  obtain ⟨_, split, found⟩ := fragments_exact "_XMLValue2".toList
  exact ⟨letter, (split _).mp (by decide), (found 4 letter).trans (by decide)⟩

end Identifier

end DocComments
