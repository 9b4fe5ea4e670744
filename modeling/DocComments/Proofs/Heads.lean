import DocComments.Proofs.FirstWord
import DocComments.Proofs.Letters

/-! The head of a declaration line: its words in front of a mark such as the parenthesis of a
parameter list, taken one by one, with the text behind the mark. -/

namespace DocComments

namespace Text

theorem inRanges_eq_false {ranges others : List (Nat × Nat)}
    (apart : (others.all fun other => ranges.all fun range =>
      range.2 < other.1 || other.2 < range.1) = true) {character : Char}
    (member : inRanges ranges character = true) : inRanges others character = false := by
  simp only [List.all_eq_true, Bool.or_eq_true, decide_eq_true_eq] at apart
  simp only [inRanges, List.any_eq_true, Bool.and_eq_true, decide_eq_true_eq] at member
  obtain ⟨range, listed, inside⟩ := member
  rw [inRanges, List.any_eq_false]
  intro other also
  have between := apart other also range listed
  simp only [Bool.and_eq_true, decide_eq_true_eq]
  omega

end Text

namespace Declaration

theorem toNat_of_isTypeCharacter {character : Char} (accepted : isTypeCharacter character = true) :
    0x21 ≤ character.toNat ∧ character.toNat ≤ 0x7E := by
  simp only [isTypeCharacter, isNameCharacter, Bool.or_eq_true, isAlphanum_iff, isLower_iff, isUpper_iff,
    isDigit_iff, decide_eq_true_eq, List.contains_iff_mem] at accepted
  rcases accepted with ((lower | upper | digit) | rfl) | mark
  · omega
  · omega
  · omega
  · decide
  · have marks : ∀ mark ∈ ['<', '>', ',', '[', ']', '.', '?'],
        0x21 ≤ mark.toNat ∧ mark.toNat ≤ 0x7E := by simp
    exact marks character mark

theorem isBlank_of_isTypeCharacter (character : Char) (accepted : isTypeCharacter character = true) :
    Text.isBlank character = false := by
  have inside : Text.inRanges [(0x21, 0x7E)] character = true := by
    simpa [Text.inRanges] using toNat_of_isTypeCharacter accepted
  exact Text.inRanges_eq_false (by decide) inside

theorem isTypeCharacter_of_isNameCharacter {character : Char}
    (accepted : isNameCharacter character = true) : isTypeCharacter character = true := by
  simp [isTypeCharacter, accepted]

theorem isNameCharacter_of_isNameStart {character : Char} (start : isNameStart character = true) :
    isNameCharacter character = true := by
  simp only [isNameStart, isNameCharacter, Char.isAlphanum, Bool.or_eq_true] at start ⊢
  rcases start with letter | underscore
  · exact Or.inl (Or.inl letter)
  · exact Or.inr underscore

theorem isBlank_of_isNameCharacter (character : Char) (accepted : isNameCharacter character = true) :
    Text.isBlank character = false :=
  isBlank_of_isTypeCharacter character (isTypeCharacter_of_isNameCharacter accepted)

theorem isWordCharacter_of_isBlank {character : Char} (blank : Text.isBlank character = true) :
    Text.isWordCharacter character = false := by
  have unnamed : isNameCharacter character = false := by
    rw [Bool.eq_false_iff]
    intro named
    simp [isBlank_of_isNameCharacter character named] at blank
  rw [isNameCharacter] at unnamed
  rw [Text.isWordCharacter, unnamed, Bool.false_or]
  exact Text.inRanges_eq_false (by decide +kernel) blank

theorem isWordCharacter_of_isNameCharacter {character : Char}
    (accepted : isNameCharacter character = true) : Text.isWordCharacter character = true := by
  rw [isNameCharacter] at accepted
  rw [Text.isWordCharacter, accepted, Bool.true_or]

theorem splitAt?_eq_some_iff {mark : Char} {text head behind : Text} :
    splitAt? mark text = some (head, behind) ↔
      text.takeWhile (· ≠ mark) = head ∧ text.dropWhile (· ≠ mark) = mark :: behind := by
  have stop := List.head?_dropWhile_not (fun other => decide (other ≠ mark)) text
  unfold splitAt?
  cases rest : text.dropWhile (· ≠ mark) with
  | nil => simp
  | cons first below =>
      rw [rest] at stop
      obtain rfl : first = mark := by simpa using stop
      simp

theorem differs_of_not_mem {mark : Char} {text : Text} (outside : mark ∉ text) :
    ∀ character ∈ text, decide (character ≠ mark) = true := by
  intro character member
  have different : character ≠ mark := by
    rintro rfl
    exact outside member
  simpa using different

theorem splitAt?_append {mark : Char} {head : Text} (single : mark ∉ head) (behind : Text) :
    splitAt? mark (head ++ mark :: behind) = some (head, behind) := by
  have inside := differs_of_not_mem single
  rw [splitAt?_eq_some_iff, List.dropWhile_append_of_pos inside, List.takeWhile_append_of_pos inside]
  simp

theorem eq_append_of_splitAt? {mark : Char} {text head behind : Text}
    (cut : splitAt? mark text = some (head, behind)) :
    text = head ++ mark :: behind ∧ mark ∉ head := by
  obtain ⟨rfl, rest⟩ := splitAt?_eq_some_iff.mp cut
  rw [← rest]
  refine ⟨List.takeWhile_append_dropWhile.symm, ?_⟩
  intro member
  simpa using List.mem_takeWhile_imp member

def splitWords? (mark : Char) (text : Text) : Option (List Text × Text) :=
  (splitAt? mark text).map fun cut => (cut.1.words, cut.2)

theorem splitWords?_eq_some_iff {mark : Char} {text behind : Text} {words : List Text} :
    splitWords? mark text = some (words, behind) ↔
      Text.words (text.takeWhile (· ≠ mark)) = words ∧
        text.dropWhile (· ≠ mark) = mark :: behind := by
  rw [splitWords?, Option.map_eq_some_iff]
  constructor
  · rintro ⟨cut, found, same⟩
    obtain ⟨rfl, rfl⟩ := Prod.mk.inj same
    obtain ⟨head, rest⟩ := splitAt?_eq_some_iff.mp found
    exact ⟨congrArg Text.words head, rest⟩
  · rintro ⟨head, rest⟩
    exact ⟨_, splitAt?_eq_some_iff.mpr ⟨rfl, rest⟩, Prod.ext head rfl⟩

def nameBefore? (mark : Char) (text : Text) : Option (Text × Text) :=
  (splitWords? mark text).bind fun cut =>
    match cut.1 with
    | [name] => if isName name then some (name, cut.2) else none
    | _ => none

theorem isNameCharacter_of_isName {name : Text} (named : isName name = true) {character : Char}
    (member : character ∈ name) : isNameCharacter character = true := by
  simp only [isName, Bool.and_eq_true, List.all_eq_true] at named
  exact named.2 character member

theorem isWord_of_isName {name : Text} (named : isName name = true) : Text.IsWord name := by
  refine ⟨?_, fun _ member => isBlank_of_isNameCharacter _ (isNameCharacter_of_isName named member)⟩
  rintro rfl
  cases named

theorem takeWhile_isNameCharacter {name behind : Text} (named : isName name = true)
    (stop : ∀ character ∈ behind.head?, isNameCharacter character = false) :
    (name ++ behind).takeWhile isNameCharacter = name ∧
      (name ++ behind).dropWhile isNameCharacter = behind := by
  have inside : ∀ character ∈ name, isNameCharacter character = true :=
    fun _ member => isNameCharacter_of_isName named member
  rw [takeWhile_append_stop stop, dropWhile_append_stop stop, List.takeWhile_eq_self_iff.mpr inside,
    List.dropWhile_eq_nil_iff.mpr inside, List.nil_append]
  exact ⟨rfl, rfl⟩

def StartsWithType (text : Text) : Prop :=
  (Text.firstWord text ≠ [] ∧ (Text.firstWord text).all isTypeCharacter = true) ∧
    Text.behindWord text ≠ []

instance (text : Text) : Decidable (StartsWithType text) :=
  inferInstanceAs (Decidable ((Text.firstWord text ≠ [] ∧
    (Text.firstWord text).all isTypeCharacter = true) ∧ Text.behindWord text ≠ []))

section Mark

variable {mark : Char} (solid : Text.isBlank mark = false)

include solid

theorem passes_of_solid (character : Char) (blank : Text.isBlank character = true) :
    decide (character ≠ mark) = true := by
  have different : character ≠ mark := by
    rintro rfl
    simp [solid] at blank
  simpa using different

theorem splitWords?_nextWord {text word : Text} (first : Text.IsFirst word text) (nonempty : word ≠ [])
    (outside : mark ∉ word) :
    splitWords? mark text =
      (splitWords? mark (Text.nextWord text)).map fun cut => (word :: cut.1, cut.2) := by
  ext ⟨words, behind⟩
  rw [Option.map_eq_some_iff]
  have through := differs_of_not_mem outside
  have head := first.words_takeWhile (passes_of_solid solid) nonempty through
  have rest := first.dropWhile_next (passes_of_solid solid) through
  constructor
  · intro found
    obtain ⟨cut, marked⟩ := splitWords?_eq_some_iff.mp found
    refine ⟨(_, behind), splitWords?_eq_some_iff.mpr ⟨rfl, rest.trans marked⟩, ?_⟩
    rw [← cut, head]
  · rintro ⟨⟨others, below⟩, found, same⟩
    obtain ⟨rfl, rfl⟩ := Prod.mk.inj same
    obtain ⟨cut, marked⟩ := splitWords?_eq_some_iff.mp found
    refine splitWords?_eq_some_iff.mpr ⟨?_, rest.symm.trans marked⟩
    rw [head, cut]

omit solid in
theorem isFirst_of_splitWords? {text word behind : Text} {rest : List Text}
    (visible : Text.StartsVisibly text)
    (cut : splitWords? mark text = some (word :: rest, behind)) (more : rest ≠ []) :
    Text.IsFirst word text ∧ word ≠ [] :=
  have found := splitWords?_eq_some_iff.mp cut
  ⟨Text.isFirst_of_words visible found.1 more,
    Text.ne_nil_of_mem_words (found.1 ▸ List.mem_cons_self)⟩

theorem nameBefore?_eq_some_iff (outside : isNameCharacter mark = false) {text : Text}
    (visible : Text.StartsVisibly text) {name behind : Text} :
    nameBefore? mark text = some (name, behind) ↔ isName name = true ∧
      ∃ gap : Text, (∀ character ∈ gap, Text.isBlank character = true) ∧
        text = name ++ (gap ++ mark :: behind) := by
  constructor
  · intro found
    rw [nameBefore?, Option.bind_eq_some_iff] at found
    obtain ⟨⟨words, below⟩, cut, found⟩ := found
    obtain ⟨head, rest⟩ := splitWords?_eq_some_iff.mp cut
    split at found
    · next word only =>
        rw [Option.ite_none_right_eq_some, Option.some.injEq, Prod.mk.injEq] at found
        obtain ⟨named, rfl, rfl⟩ := found
        obtain ⟨gap, whole, blank⟩ := Text.exists_gap_of_words_single visible (head.trans only)
        rw [rest] at whole
        exact ⟨named, gap, blank, whole⟩
    · cases found
  · rintro ⟨named, gap, blank, rfl⟩
    have word := isWord_of_isName named
    have through : ∀ character ∈ name, decide (character ≠ mark) = true := by
      apply differs_of_not_mem
      intro member
      simp [isNameCharacter_of_isName named member] at outside
    have stop : (mark :: behind).head?.any (fun other => decide (other ≠ mark)) = false := by simp
    have parts := Text.words_takeWhile_single (passes_of_solid solid) word.1 word.2 through blank stop
    rw [nameBefore?, splitWords?_eq_some_iff.mpr parts, Option.bind_some]
    exact if_pos named

theorem parts_of_nameBefore? (outside : isNameCharacter mark = false) {text : Text}
    (visible : Text.StartsVisibly text) {name behind : Text}
    (found : nameBefore? mark text = some (name, behind)) :
    text.takeWhile isNameCharacter = name ∧
      Text.dropBlanks (text.dropWhile isNameCharacter) = mark :: behind := by
  obtain ⟨named, gap, blank, rfl⟩ := (nameBefore?_eq_some_iff solid outside visible).mp found
  have stop : ∀ character ∈ (gap ++ mark :: behind).head?, isNameCharacter character = false := by
    intro character first
    cases gap with
    | nil =>
        obtain rfl : mark = character := by simpa using first
        exact outside
    | cons other below =>
        obtain rfl : other = character := by simpa using first
        rw [Bool.eq_false_iff]
        intro inside
        simp [isBlank_of_isNameCharacter other inside] at blank
  obtain ⟨front, rest⟩ := takeWhile_isNameCharacter named stop
  have shown : Text.StartsVisibly (mark :: behind) := by simpa [Text.StartsVisibly] using solid
  rw [rest, Text.dropBlanks_append_of_blank blank, Text.dropBlanks_of_visible shown]
  exact ⟨front, rfl⟩

theorem nameBefore?_eq (outside : isNameCharacter mark = false) {text : Text}
    (visible : Text.StartsVisibly text) :
    nameBefore? mark text =
      if isName (text.takeWhile isNameCharacter) then
        if (Text.dropBlanks (text.dropWhile isNameCharacter)).head? = some mark then
          some (text.takeWhile isNameCharacter,
            (Text.dropBlanks (text.dropWhile isNameCharacter)).tail)
        else none
      else none := by
  cases found : nameBefore? mark text with
  | some cut =>
      have named := ((nameBefore?_eq_some_iff solid outside visible).mp found).1
      obtain ⟨front, rest⟩ := parts_of_nameBefore? solid outside visible found
      rw [front, rest, if_pos named]
      exact (if_pos rfl).symm
  | none =>
      split
      · next named =>
          apply (if_neg _).symm
          intro marked
          obtain ⟨behind, rest⟩ := List.head?_eq_some_iff.mp marked
          have whole : text = text.takeWhile isNameCharacter ++
              ((text.dropWhile isNameCharacter).takeWhile Text.isBlank ++ mark :: behind) := by
            rw [← rest, Text.dropBlanks, List.takeWhile_append_dropWhile,
              List.takeWhile_append_dropWhile]
          have cut := (nameBefore?_eq_some_iff solid outside visible).mpr
            ⟨named, _, fun _ member => List.mem_takeWhile_imp member, whole⟩
          rw [cut] at found
          cases found
      · rfl

def typedName? : List Text → Option (Text × Text)
  | [written, name] =>
    if written.all isTypeCharacter && isName name then some (written, name) else none
  | _ => none

theorem bind_nameBefore?_nextWord {α : Type} (outside : isTypeCharacter mark = false) {text : Text}
    (visible : Text.StartsVisibly text) (answer : Text × Text → Text → Option α) :
    (if StartsWithType text then
      (nameBefore? mark (Text.nextWord text)).bind fun found =>
        answer (Text.firstWord text, found.1) found.2
      else none) =
      (splitWords? mark text).bind fun cut => (typedName? cut.1).bind fun found =>
        answer found cut.2 := by
  split
  · next typed =>
      have written := List.all_eq_true.mp typed.1.2
      have unwritten : mark ∉ Text.firstWord text := by
        intro member
        simp [written _ member] at outside
      rw [nameBefore?, splitWords?_nextWord solid ⟨rfl, typed.2⟩ typed.1.1 unwritten]
      cases splitWords? mark (Text.nextWord text) with
      | none => rfl
      | some cut =>
          obtain ⟨words, behind⟩ := cut
          match words with
          | [] => rfl
          | [name] =>
              have accepted : (Text.firstWord text).all isTypeCharacter = true := typed.1.2
              cases last : isName name with
              | true => simp only [Option.map_some, Option.bind_some, typedName?, accepted, last,
                  Bool.and_self, ↓reduceIte]
              | false => simp only [Option.map_some, Option.bind_some, Option.bind_none, typedName?,
                  last, Bool.and_false, Bool.false_eq_true, ↓reduceIte]
          | name :: further :: others => rfl
  · next untyped =>
      cases found : splitWords? mark text with
      | none => rfl
      | some cut =>
          obtain ⟨words, behind⟩ := cut
          match words with
          | [] => rfl
          | [name] => rfl
          | [written, name] =>
              obtain ⟨first, nonempty⟩ := isFirst_of_splitWords? visible found (by simp)
              have other : ¬(written.all isTypeCharacter && isName name) = true := by
                intro both
                obtain ⟨inside, _⟩ := Bool.and_eq_true_iff.mp both
                rw [← first.1] at nonempty inside
                exact untyped ⟨⟨nonempty, inside⟩, first.2⟩
              rw [Option.bind_some, typedName?, if_neg other, Option.bind_none]
          | written :: name :: further :: others => rfl

end Mark

theorem leadingName?_firstWord (text : Text) :
    leadingName? (Text.firstWord text) = leadingName? text := by
  have blank : (Text.behindWord text).head?.any Text.isWordCharacter = false := by
    rw [Option.any_eq_false]
    intro character first
    have more : Text.behindWord text ≠ [] := by
      intro empty
      simp [empty] at first
    have separates := Text.isBlank_head_behindWord more
    rw [first] at separates
    simp [isWordCharacter_of_isBlank separates]
  have edge : ((Text.firstWord text).dropWhile isNameCharacter).head?.any Text.isWordCharacter =
      (text.dropWhile isNameCharacter).head?.any Text.isWordCharacter := by
    rw [← Text.dropWhile_firstWord isBlank_of_isNameCharacter text]
    cases (Text.firstWord text).dropWhile isNameCharacter with
    | nil => exact blank.symm
    | cons character rest => rfl
  rw [leadingName?, leadingName?, Text.takeWhile_firstWord isBlank_of_isNameCharacter, edge]

theorem leadingName?_nextWord (text : Text) :
    leadingName? (Text.nextWord text) = (Text.words (Text.behindWord text)).head?.bind leadingName? := by
  rw [← Text.words_dropBlanks, ← Text.nextWord]
  by_cases nothing : Text.nextWord text = []
  · rw [nothing, Text.words_nil]
    rfl
  · rw [Text.words_of_visible (Text.startsVisibly_nextWord text) nothing, List.head?_cons,
      Option.bind_some, leadingName?_firstWord]

end Declaration

end DocComments
