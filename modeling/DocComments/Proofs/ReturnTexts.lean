import DocComments.Proofs.Phrases
import DocComments.Proofs.Verbs

/-! What a summary tells about the returned value. The words that it is searched for stand in no
phrase, so the ending of a rule decides, and with it the verb at the front of the name
(`ofSummary_eq_iff`). Where the name itself gives a hint, the summary says the same. -/

namespace DocComments

namespace Returns

theorem occursIn_append {object : Text}
    (plain : ∀ character ∈ object, character = ' ' ∨ character.isAlphanum = true) (part : Text)
    (first : Char) (head : part.head? = some first)
    (strange : first.isAlphanum = false ∧ first ≠ ' ') (ending : Text) :
    Text.occursIn part (object ++ ending) = Text.occursIn part ending := by
  have absent : first ∉ object := by
    intro member
    rcases plain first member with blank | letter
    · exact strange.2 blank
    · simp [strange.1] at letter
  rw [Bool.eq_iff_iff, Text.occursIn_iff, Text.occursIn_iff, Text.infix_append_of_head head absent]

theorem ofSummary_append {object : Text}
    (plain : ∀ character ∈ object, character = ' ' ∨ character.isAlphanum = true) (ending : Text) :
    ofSummary (object ++ ending) = ofSummary ending := by
  have condition := occursIn_append plain "여부".toList '여' rfl (by decide) ending
  have success := occursIn_append plain "성공".toList '성' rfl (by decide) ending
  have conversion := occursIn_append plain "변환".toList '변' rfl (by decide) ending
  rw [ofSummary, ofSummary, condition, success, conversion]

def ofVerb (verb : Text) : Text :=
  if verb = "try".toList then success
  else if verb = "is".toList ∨ verb = "has".toList then condition
  else if verb = "to".toList ∨ verb = "convert".toList then conversion
  else generic

theorem ofSummary_sentence {rule : Summary.VerbRule} (member : rule ∈ Summary.allVerbRules)
    {verb : Text} (listed : verb ∈ rule.verbs) (name : Text) :
    ofSummary (rule.sentence (Identifier.fragments name).tail) = ofVerb verb := by
  have table : Summary.allVerbRules.all (fun rule => rule.verbs.all fun verb =>
      ofSummary rule.bare == ofVerb verb && ofSummary rule.ending == ofVerb verb) = true := by
    decide +kernel
  have entry := List.all_eq_true.mp (List.all_eq_true.mp table rule member) verb listed
  rw [Bool.and_eq_true, beq_iff_eq, beq_iff_eq] at entry
  unfold Summary.VerbRule.sentence
  split
  · exact entry.1
  · rw [ofSummary_append _ rule.ending, entry.2]
    intro character inside
    refine (Identifier.mem_phrase inside).imp_right fun letter => ?_
    obtain ⟨word, later, inside⟩ := List.mem_flatten.mp letter
    exact Identifier.isAlphanum_of_mem_fragments (List.mem_of_mem_tail later) inside

theorem ofSummary_of_verb {rule : Summary.VerbRule} (member : rule ∈ Summary.allVerbRules)
    {verb : Text} (listed : verb ∈ rule.verbs) {name : Text} (begins : verb <+: name.lower)
    (cues : FileCues) : ofSummary (Summary.ofMember name .method cues) = ofVerb verb := by
  have found := Summary.ruleFor?_eq_some_iff.mpr ⟨member, verb, listed, begins⟩
  cases conversion : Summary.converterSentence? name cues with
  | none => rw [Summary.ofMember_of_rule found conversion, ofSummary_sentence member listed]
  | some sentence =>
      -- The sentences for converters tell what the ones that they stand in for would tell.
      have table : ∀ entry ∈ Summary.converterSentences, (Summary.ruleFor? entry.1).map (fun rule =>
          ofSummary (rule.sentence (Identifier.fragments entry.1).tail)) = some (ofSummary entry.2) := by
        decide
      have same := table _ (Summary.mem_of_converterSentence? conversion)
      rw [found, Option.map_some, Option.some.injEq, ofSummary_sentence member listed] at same
      rw [Summary.ofMember_of_converter conversion, same]

def IsPredicate (name : Text) : Prop :=
  name = "Contains".toList ∨ name = "StartsWith".toList ∨ name = "EndsWith".toList

theorem isPredicate_iff (name : Text) :
    IsPredicate name ↔ (Summary.predicateSentences.lookup name).isSome = true := by
  constructor
  · rintro (rfl | rfl | rfl) <;> rfl
  · intro known
    obtain ⟨sentence, found⟩ := Option.isSome_iff_exists.mp known
    have member := entry_mem_of_lookup found
    simp only [Summary.predicateSentences, List.mem_cons, List.not_mem_nil, or_false,
      Prod.mk.injEq] at member
    exact member.imp And.left (Or.imp And.left And.left)

theorem ofSummary_of_unruled {name : Text} (unruled : Summary.ruleFor? name = none)
    (cues : FileCues) :
    IsPredicate name ∧ ofSummary (Summary.ofMember name .method cues) = condition ∨
      ¬IsPredicate name ∧ ofSummary (Summary.ofMember name .method cues) = generic := by
  rw [Summary.ofMember_of_unruled unruled, isPredicate_iff]
  cases found : Summary.predicateSentences.lookup name with
  | none =>
      refine Or.inr ⟨by simp, ?_⟩
      rw [Option.getD_none, if_neg (by decide)]
      decide
  | some sentence =>
      have table : ∀ text ∈ Summary.predicateSentences.map Prod.snd, ofSummary text = condition := by
        decide
      exact Or.inl ⟨rfl, table sentence (mem_of_lookup_eq_some found)⟩

theorem ofSummary_of_predicate {name : Text} (predicate : IsPredicate name) (cues : FileCues) :
    ofSummary (Summary.ofMember name .method cues) = condition := by
  have unruled : Summary.ruleFor? name = none := by
    rcases predicate with rfl | rfl | rfl <;> rfl
  rcases ofSummary_of_unruled unruled cues with told | other
  · exact told.2
  · exact absurd predicate other.1

theorem texts_apart :
    (success ≠ condition ∧ success ≠ conversion ∧ success ≠ generic) ∧
      (condition ≠ conversion ∧ condition ≠ generic) ∧ conversion ≠ generic := by
  decide

def verbsFor (text : Text) : List Text :=
  (Summary.allVerbRules.flatMap Summary.VerbRule.verbs).filter fun verb => ofVerb verb == text

theorem mem_verbsFor_iff (text verb : Text) :
    verb ∈ verbsFor text ↔
      (∃ rule ∈ Summary.allVerbRules, verb ∈ rule.verbs) ∧ ofVerb verb = text := by
  rw [verbsFor, List.mem_filter, List.mem_flatMap, beq_iff_eq]

theorem verbsFor_texts :
    verbsFor success = ["try".toList] ∧ verbsFor condition = ["is".toList, "has".toList] ∧
      verbsFor conversion = ["to".toList, "convert".toList] := by
  decide

/-- Anything special is told by a verb at the front of the name, or the name is that of a predicate. -/
theorem ofSummary_eq_iff (name : Text) (cues : FileCues) {text : Text} (special : text ≠ generic) :
    ofSummary (Summary.ofMember name .method cues) = text ↔
      (∃ verb ∈ verbsFor text, verb <+: name.lower) ∨ IsPredicate name ∧ text = condition := by
  constructor
  · intro told
    cases found : Summary.ruleFor? name with
    | none =>
        rcases ofSummary_of_unruled found cues with ⟨predicate, same⟩ | ⟨_, same⟩
        · exact Or.inr ⟨predicate, told.symm.trans same⟩
        · exact absurd (told.symm.trans same) special
    | some rule =>
        obtain ⟨member, verb, listed, begins⟩ := Summary.ruleFor?_eq_some_iff.mp found
        have same := ofSummary_of_verb member listed begins cues
        rw [told] at same
        exact Or.inl ⟨verb, (mem_verbsFor_iff text verb).mpr ⟨⟨rule, member, listed⟩, same.symm⟩, begins⟩
  · rintro (⟨verb, telling, begins⟩ | ⟨predicate, rfl⟩)
    · obtain ⟨⟨rule, member, listed⟩, rfl⟩ := (mem_verbsFor_iff text verb).mp telling
      exact ofSummary_of_verb member listed begins cues
    · exact ofSummary_of_predicate predicate cues

theorem ofSummary_eq_success_iff (name : Text) (cues : FileCues) :
    ofSummary (Summary.ofMember name .method cues) = success ↔ "try".toList <+: name.lower := by
  obtain ⟨⟨noCondition, _, special⟩, _⟩ := texts_apart
  rw [ofSummary_eq_iff name cues special, verbsFor_texts.1]
  simp [noCondition]

theorem ofSummary_eq_condition_iff (name : Text) (cues : FileCues) :
    ofSummary (Summary.ofMember name .method cues) = condition ↔
      "is".toList <+: name.lower ∨ "has".toList <+: name.lower ∨ IsPredicate name := by
  obtain ⟨_, ⟨_, special⟩, _⟩ := texts_apart
  rw [ofSummary_eq_iff name cues special, verbsFor_texts.2.1]
  simp [or_assoc]

theorem ofSummary_eq_conversion_iff (name : Text) (cues : FileCues) :
    ofSummary (Summary.ofMember name .method cues) = conversion ↔
      "to".toList <+: name.lower ∨ "convert".toList <+: name.lower := by
  obtain ⟨_, ⟨noConversion, _⟩, special⟩ := texts_apart
  rw [ofSummary_eq_iff name cues special, verbsFor_texts.2.2]
  simp [noConversion.symm]

theorem ofSummary_eq_generic_iff (summary : Text) :
    ofSummary summary = generic ↔ ¬ofSummary summary = success ∧ ¬ofSummary summary = condition ∧
      ¬ofSummary summary = conversion := by
  obtain ⟨⟨_, _, noSuccess⟩, ⟨_, noCondition⟩, noConversion⟩ := texts_apart
  unfold ofSummary
  split
  · split
    · simp [noSuccess]
    · simp [noCondition]
  · split
    · simp [noConversion]
    · simp [noSuccess.symm, noCondition.symm, noConversion.symm]

theorem ofName?_cases {name hint : Text} (hinted : ofName? name = some hint) :
    "try".toList <+: name.lower ∧ hint = success ∨
      ("is".toList <+: name.lower ∨ "has".toList <+: name.lower ∨ IsPredicate name) ∧
        hint = condition := by
  unfold ofName? at hinted
  split at hinted
  · next trial =>
    rw [List.isPrefixOf_iff_prefix] at trial
    exact Or.inl ⟨Text.lower_begins trial, (Option.some.inj hinted).symm⟩
  · split at hinted
    · next question =>
      rw [Bool.or_eq_true, Bool.or_eq_true, List.isPrefixOf_iff_prefix, List.isPrefixOf_iff_prefix,
        ← isPredicate_iff, or_assoc] at question
      exact Or.inr ⟨question.imp Text.lower_begins (Or.imp_left Text.lower_begins),
        (Option.some.inj hinted).symm⟩
    · cases hinted

/-- A hint that the name gives is what the summary tells, and the summary tells it by the verb at the front
of the name, whatever the rest of the name is and what the file is about. -/
theorem returns_agree (name : Text) (cues : FileCues) :
    let told := ofSummary (summarize name .method none cues)
    (∀ hint, ofName? name = some hint → told = hint) ∧
      (told = success ↔ "try".toList <+: name.lower) ∧
      (told = condition ↔
        "is".toList <+: name.lower ∨ "has".toList <+: name.lower ∨ IsPredicate name) ∧
      (told = conversion ↔ "to".toList <+: name.lower ∨ "convert".toList <+: name.lower) ∧
      (told = generic ↔ ¬"try".toList <+: name.lower ∧
        ¬("is".toList <+: name.lower ∨ "has".toList <+: name.lower ∨ IsPredicate name) ∧
        ¬("to".toList <+: name.lower ∨ "convert".toList <+: name.lower)) := by
  intro told
  have success := ofSummary_eq_success_iff name cues
  have condition := ofSummary_eq_condition_iff name cues
  have conversion := ofSummary_eq_conversion_iff name cues
  refine ⟨?_, success, condition, conversion, ?_⟩
  · intro hint hinted
    rcases ofName?_cases hinted with ⟨trial, rfl⟩ | ⟨question, rfl⟩
    · exact success.mpr trial
    · exact condition.mpr question
  · rw [← success, ← condition, ← conversion]
    exact ofSummary_eq_generic_iff _

theorem returns_agree_tryConvert :
    ofName? "TryConvert".toList = some success ∧
      ofSummary (summarize "TryConvert".toList .method none (FileCues.ofText [])) = success := by
  have hinted : ofName? "TryConvert".toList = some success := by decide
  exact ⟨hinted, (returns_agree "TryConvert".toList (FileCues.ofText [])).1 success hinted⟩

end Returns

end DocComments
