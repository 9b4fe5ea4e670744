import DocComments.Declaration.Recognition
import DocComments.Proofs.Phrases
import DocComments.Proofs.Verbs

/-! What the sentences keep of a name. The object of a sentence is every word of the name but the
first, so it is what stands behind a verb, or behind the `I` of an interface, exactly where the
verb or the `I` is a word of the name by itself (`flatten_tail_iff`). -/

namespace DocComments

namespace Identifier

def EndsCapital (behind : Text) : Prop :=
  behind.head?.any Char.isLower = false ∧
    (behind.head?.any Char.isUpper = true → behind.tail.head?.any Char.isLower = true)

def IsSetOff (behind word : Text) : Prop :=
  word.tail.all Char.isLower = true ∧ behind.head?.any Char.isLower = false ∨
    word.all Char.isUpper = true ∧ EndsCapital behind

theorem joins_eq_false_iff {capital : Char} (upper : capital.isUpper = true) (behind : Text) :
    joins capital behind = false ↔ EndsCapital behind := by
  unfold EndsCapital
  cases behind with
  | nil => simp [joins]
  | cons next after => simp [joins_of_isUpper upper]

theorem isWordBefore_small {first : Char} (small : first.isLower = true) (behind word : Text) :
    IsWordBefore behind (first :: word) ↔
      word.all Char.isLower = true ∧ behind.head?.any Char.isLower = false := by
  induction word generalizing first with
  | nil =>
      have letter : first.isAlphanum = true := isAlphanum_iff.mpr (Or.inl small)
      cases behind with
      | nil => simp [IsWordBefore, letter, joins]
      | cons next after => simp [IsWordBefore, letter, joins_of_isLower small]
  | cons next word ih =>
      rw [IsWordBefore, List.cons_append, joins_of_isLower small, List.all_cons, Bool.and_eq_true,
        and_assoc]
      exact and_congr_right fun later => ih later

theorem isWordBefore_capital {first : Char} (upper : first.isUpper = true) {behind word : Text}
    (letters : ∀ character ∈ word, character.isLower = true ∨ character.isUpper = true)
    (start : (word ++ behind).head?.any Char.isLower = false) :
    IsWordBefore behind (first :: word) ↔ word.all Char.isUpper = true ∧ EndsCapital behind := by
  induction word generalizing first with
  | nil =>
      have letter : first.isAlphanum = true := isAlphanum_iff.mpr (Or.inr (Or.inl upper))
      rw [IsWordBefore, joins_eq_false_iff upper]
      simp [letter]
  | cons next word ih =>
      rw [List.forall_mem_cons] at letters
      have notSmall : next.isLower = false := start
      have capital : next.isUpper = true := letters.1.resolve_left (by simp [notSmall])
      rw [IsWordBefore, List.cons_append, joins_of_isUpper upper, notSmall, capital, List.all_cons,
        capital]
      cases after : (word ++ behind).head?.any Char.isLower with
      | false => simpa using ih capital letters.2 after
      | true =>
          -- The small letter is behind the word, because a word of capitals has none.
          refine iff_of_false (by simp) ?_
          rintro ⟨capitals, ends⟩
          cases word with
          | nil =>
              rw [List.nil_append, ends.1] at after
              cases after
          | cons third word =>
              have other : third.isUpper = true := by
                rw [Bool.true_and, List.all_cons, Bool.and_eq_true] at capitals
                exact capitals.1
              have small : third.isLower = true := after
              exact not_isUpper_of_isLower small other

theorem isWordBefore_iff_isSetOff {word : Text} (long : 2 ≤ word.length)
    (letters : ∀ character ∈ word, character.isLower = true ∨ character.isUpper = true)
    (behind : Text) : IsWordBefore behind word ↔ IsSetOff behind word := by
  cases word with
  | nil => simp at long
  | cons first word =>
      cases word with
      | nil => simp at long
      | cons second word =>
          rw [List.forall_mem_cons, List.forall_mem_cons] at letters
          obtain ⟨front, next, others⟩ := letters
          unfold IsSetOff
          rw [List.tail_cons]
          rcases front with small | upper
          · rw [isWordBefore_small small]
            simp [not_isUpper_of_isLower small]
          · rcases next with small | capital
            · rw [IsWordBefore, List.cons_append, joins_of_isUpper upper, small, Bool.true_or,
                isWordBefore_small small]
              simp [small, not_isUpper_of_isLower small]
            · have start : (second :: word ++ behind).head?.any Char.isLower = false :=
                isLower_of_isUpper capital
              rw [isWordBefore_capital upper (List.forall_mem_cons.mpr ⟨Or.inr capital, others⟩) start]
              simp [upper, capital, isLower_of_isUpper capital]

theorem fragments_append_iff {word rest : Text} (nonempty : word ≠ [])
    (letters : ∀ character ∈ word, character.isAlphanum = true) :
    (∃ others, fragments (word ++ rest) = word :: others) ↔ IsWordBefore rest word := by
  constructor
  · rintro ⟨others, cut⟩
    obtain ⟨gap, behind, whole, separators, first, _⟩ := fragments_eq_cons_iff.mp cut
    cases gap with
    | nil =>
        rw [List.nil_append, List.append_cancel_left_eq] at whole
        rwa [whole]
    | cons separator gap =>
        obtain ⟨front, word, rfl⟩ := List.exists_cons_of_ne_nil nonempty
        rw [List.cons_append, List.cons_append, List.cons.injEq] at whole
        have letter := letters front (List.mem_cons_self ..)
        rw [whole.1, separators separator (List.mem_cons_self ..)] at letter
        cases letter
  · intro whole
    exact ⟨_, fragments_append whole⟩

/-- All words but the first hold the letters and digits behind some letters at the front of a name exactly
if those letters are the first word. -/
theorem flatten_tail_iff {front : Text} (nonempty : front ≠ [])
    (letters : ∀ character ∈ front, character.isAlphanum = true) (rest : Text) :
    (fragments (front ++ rest)).tail.flatten = rest.filter Char.isAlphanum ↔
      IsWordBefore rest front := by
  have whole := flatten_fragments (front ++ rest)
  rw [List.filter_append, List.filter_eq_self.mpr letters] at whole
  rw [← fragments_append_iff nonempty letters]
  cases cut : fragments (front ++ rest) with
  | nil =>
      rw [cut] at whole
      exact absurd (List.append_eq_nil_iff.mp whole.symm).1 nonempty
  | cons word others =>
      rw [cut, List.flatten_cons] at whole
      rw [List.tail_cons]
      constructor
      · intro same
        rw [same, List.append_cancel_right_eq] at whole
        exact ⟨others, by rw [whole]⟩
      · rintro ⟨_, same⟩
        rw [(List.cons.inj same).1, List.append_cancel_left_eq] at whole
        exact whole

theorem isAlphanum_of_isLetter {character : Char}
    (letter : character.isLower = true ∨ character.isUpper = true) : character.isAlphanum = true :=
  isAlphanum_iff.mpr (letter.imp_right Or.inl)

theorem filter_phrase_tail (name : Text) :
    (phrase (fragments name).tail).filter (· != ' ') = (fragments name).tail.flatten := by
  apply filter_phrase
  intro word member blank
  have letter := isAlphanum_of_mem_fragments (List.mem_of_mem_tail member) blank
  cases letter

end Identifier

namespace Summary

namespace VerbRule

structure Fires (rule : VerbRule) (verb name : Text) (cues : FileCues) : Prop where
  first : ruleFor? name = some rule
  listed : verb ∈ rule.verbs
  begins : verb <+: name.lower
  ordinary : converterSentence? name cues = none

def Says (rule : VerbRule) (rest sentence : Text) : Prop :=
  sentence = rule.bare ∧ rest.filter Char.isAlphanum = [] ∨
    ∃ object, sentence = object ++ rule.ending ∧
      object.filter (· != ' ') = rest.filter Char.isAlphanum

theorem says_sentence_iff {rule : VerbRule} (member : rule ∈ allVerbRules) (name rest : Text) :
    rule.Says rest (rule.sentence (Identifier.fragments name).tail) ↔
      (Identifier.fragments name).tail.flatten = rest.filter Char.isAlphanum := by
  have table : allVerbRules.all (fun rule => !rule.ending.isSuffixOf rule.bare) = true := by
    decide +kernel
  have apart : ¬rule.ending <:+ rule.bare := by
    have entry := List.all_eq_true.mp table rule member
    rw [Bool.not_eq_true', Bool.eq_false_iff, ne_eq, List.isSuffixOf_iff_suffix] at entry
    exact entry
  rw [← Identifier.filter_phrase_tail]
  unfold Says sentence
  split
  · next none =>
    rw [List.isEmpty_iff] at none
    rw [none]
    constructor
    · rintro (⟨_, nothing⟩ | ⟨object, same, _⟩)
      · exact nothing.symm
      · exact absurd ⟨object, same.symm⟩ apart
    · intro nothing
      exact Or.inl ⟨rfl, nothing.symm⟩
  · constructor
    · rintro (⟨same, _⟩ | ⟨object, same, letters⟩)
      · exact absurd ⟨_, same⟩ apart
      · rw [List.append_cancel_right_eq] at same
        rwa [same]
    · intro letters
      exact Or.inr ⟨_, rfl, letters⟩

theorem Fires.mem {rule : VerbRule} {verb name : Text} {cues : FileCues}
    (fires : rule.Fires verb name cues) : rule ∈ allVerbRules :=
  (ruleFor?_eq_some_iff.mp fires.first).1

theorem Fires.letters {rule : VerbRule} {verb name : Text} {cues : FileCues}
    (fires : rule.Fires verb name cues) :
    2 ≤ (name.take verb.length).length ∧ ∀ character ∈ name.take verb.length,
      character.isLower = true ∨ character.isUpper = true := by
  have table : allVerbRules.all (fun rule => rule.verbs.all fun verb =>
      decide (Text.IsPlain verb) && decide (2 ≤ verb.length)) = true := by decide
  have entry := List.all_eq_true.mp (List.all_eq_true.mp table rule fires.mem) verb fires.listed
  rw [Bool.and_eq_true, decide_eq_true_eq, decide_eq_true_eq] at entry
  obtain ⟨length, letters⟩ := Text.letters_of_begins entry.1 fires.begins
  exact ⟨entry.2.trans_eq length.symm, letters⟩

/-- The sentence of a member says all that stands behind the verb of its name exactly where the verb is
set off from it. -/
theorem says_rest_iff {rule : VerbRule} {verb name : Text} {cues : FileCues}
    (fires : rule.Fires verb name cues) {kind : MemberKind}
    (member : kind = .method ∨ kind = .property) (typeKind : Option TypeKind) :
    rule.Says (name.drop verb.length) (summarize name kind typeKind cues) ↔
      Identifier.IsSetOff (name.drop verb.length) (name.take verb.length) := by
  obtain ⟨long, letters⟩ := fires.letters
  have nonempty : name.take verb.length ≠ [] := by
    intro empty
    simp [empty] at long
  have words := Identifier.flatten_tail_iff nonempty
    (fun character inside => Identifier.isAlphanum_of_isLetter (letters character inside))
    (name.drop verb.length)
  rw [List.take_append_drop] at words
  have spoken : summarize name kind typeKind cues = rule.sentence (Identifier.fragments name).tail := by
    rcases member with rfl | rfl
    · exact ofMember_of_rule fires.first fires.ordinary .method
    · exact ofMember_of_rule fires.first fires.ordinary .property
  rw [spoken, says_sentence_iff fires.mem, words,
    Identifier.isWordBefore_iff_isSetOff long letters]

theorem says_rest_xmlValue :
    ∃ rule : VerbRule,
      rule.Fires "get".toList "GetXMLValue2".toList (FileCues.ofText []) ∧
        Identifier.IsSetOff "XMLValue2".toList "Get".toList ∧
        rule.Says "XMLValue2".toList
          (summarize "GetXMLValue2".toList .method none (FileCues.ofText [])) := by
  have fires : VerbRule.Fires
      ⟨["get".toList], "를(을) 가져옵니다.".toList, "값을 가져옵니다.".toList⟩ "get".toList
      "GetXMLValue2".toList (FileCues.ofText []) := ⟨rfl, by decide, by decide, rfl⟩
  have off : Identifier.IsSetOff "XMLValue2".toList "Get".toList := Or.inl (by decide)
  exact ⟨_, fires, off, (says_rest_iff fires (Or.inl rfl) none).mpr off⟩

/-- A name in small letters is a single word, so that the bare sentence hides what is behind its verb. -/
theorem getname_unsaid :
    Declaration.isName "getname".toList = true ∧
      ∃ rule : VerbRule, rule.Fires "get".toList "getname".toList (FileCues.ofText []) ∧
        summarize "getname".toList .method none (FileCues.ofText []) = rule.bare ∧
        ¬rule.Says "name".toList
          (summarize "getname".toList .method none (FileCues.ofText [])) := by
  have fires : VerbRule.Fires
      ⟨["get".toList], "를(을) 가져옵니다.".toList, "값을 가져옵니다.".toList⟩ "get".toList
      "getname".toList (FileCues.ofText []) := ⟨rfl, by decide, by decide, rfl⟩
  have spoken : summarize "getname".toList .method none (FileCues.ofText []) = _ :=
    ofMember_of_rule fires.first fires.ordinary .method
  refine ⟨by decide, _, fires, by decide, ?_⟩
  rw [spoken, says_sentence_iff fires.mem]
  decide

end VerbRule

theorem ofInterface_cons (rest : Text) :
    ofInterface ('I' :: rest) =
      if 1 < (Identifier.fragments ('I' :: rest)).length then
        Identifier.phrase (Identifier.fragments ('I' :: rest)).tail ++
          " 인터페이스를 정의합니다.".toList
      else "인터페이스를 정의합니다.".toList := by
  simp only [ofInterface, List.head?_cons, decide_true, Bool.true_and, decide_eq_true_eq]

/-- The phrase for an interface is all that stands behind the `I` of its name exactly where the `I` is a
word by itself, if there is a phrase. -/
theorem interface_phrase_iff (rest : Text) (cues : FileCues) :
    (∀ object, summarize ('I' :: rest) .type (some .interfaceType) cues =
          object ++ " 인터페이스를 정의합니다.".toList →
        object.filter (· != ' ') = rest.filter Char.isAlphanum) ↔
      (Identifier.fragments ('I' :: rest)).length ≤ 1 ∨ Identifier.EndsCapital rest := by
  have words := Identifier.flatten_tail_iff (List.cons_ne_nil 'I' [])
    (List.forall_mem_singleton.mpr rfl) rest
  rw [List.singleton_append, ← Identifier.filter_phrase_tail] at words
  have alone : Identifier.IsWordBefore rest ['I'] ↔ Identifier.EndsCapital rest :=
    (and_iff_right rfl).trans (Identifier.joins_eq_false_iff rfl rest)
  change (∀ object, ofInterface ('I' :: rest) = _ → _) ↔ _
  rw [ofInterface_cons, ← alone, ← words]
  split
  · next several =>
    constructor
    · intro whole
      exact Or.inr (whole _ rfl)
    · rintro (single | whole) object same
      · omega
      · rw [List.append_cancel_right_eq] at same
        rwa [← same]
  · next single =>
    refine iff_of_true ?_ (Or.inl (by omega))
    intro object same
    have lengths := congrArg List.length same
    rw [List.length_append] at lengths
    have longer : "인터페이스를 정의합니다.".toList.length < " 인터페이스를 정의합니다.".toList.length := by
      decide
    omega

/-- An abbreviation behind the `I` goes on in its word, and is lost with it. -/
theorem ixmlParser_unsaid :
    Declaration.isName "IXMLParser".toList = true ∧
      ∃ object, summarize "IXMLParser".toList .type (some .interfaceType) (FileCues.ofText []) =
          object ++ " 인터페이스를 정의합니다.".toList ∧
        object.filter (· != ' ') ≠ "XMLParser".toList.filter Char.isAlphanum :=
  ⟨by decide, "Parser".toList, by decide, by decide⟩

end Summary

end DocComments
