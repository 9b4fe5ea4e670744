import DocComments.Proofs.LowerCase
import DocComments.Proofs.Sentences

/-! Verbs at the front of a name. No verb begins another one, so at most one rule is about a name,
whatever the order of the rules (`ruleFor?_eq_some_iff`), and that rule makes the sentence of a
member unless one for converters comes before it (`ofMember_of_rule`). -/

namespace DocComments

namespace Summary

def allVerbRules : List VerbRule := verbRules ++ lateVerbRules

def ruleFor? (name : Text) : Option VerbRule :=
  allVerbRules.find? fun rule => rule.appliesTo name.lower

namespace VerbRule

theorem appliesTo_iff {rule : VerbRule} {lowered : Text} :
    rule.appliesTo lowered = true ↔ ∃ verb ∈ rule.verbs, verb <+: lowered := by
  simp only [appliesTo, List.any_eq_true, List.isPrefixOf_iff_prefix]

def isApartFrom (rule other : VerbRule) : Bool :=
  rule.verbs.all fun verb => other.verbs.all fun rival =>
    !verb.isPrefixOf rival && !rival.isPrefixOf verb

theorem not_appliesTo_of_isApartFrom {rule other : VerbRule} (apart : rule.isApartFrom other = true)
    {lowered : Text} (applies : rule.appliesTo lowered = true) : ¬other.appliesTo lowered = true := by
  intro rivals
  obtain ⟨verb, member, begins⟩ := appliesTo_iff.mp applies
  obtain ⟨rival, own, start⟩ := appliesTo_iff.mp rivals
  have parted := List.all_eq_true.mp (List.all_eq_true.mp apart verb member) rival own
  rw [Bool.and_eq_true, Bool.not_eq_true', Bool.not_eq_true', Bool.eq_false_iff, Bool.eq_false_iff,
    ne_eq, ne_eq, List.isPrefixOf_iff_prefix, List.isPrefixOf_iff_prefix] at parted
  rcases List.prefix_or_prefix_of_prefix begins start with inside | inside
  · exact parted.1 inside
  · exact parted.2 inside

theorem find?_appliesTo {rules : List VerbRule}
    (apart : rules.Pairwise fun rule other => rule.isApartFrom other = true) {rule : VerbRule}
    (member : rule ∈ rules) {lowered : Text} (applies : rule.appliesTo lowered = true) :
    rules.find? (fun other => other.appliesTo lowered) = some rule := by
  induction rules with
  | nil => cases member
  | cons first others ih =>
      rw [List.pairwise_cons] at apart
      rcases List.mem_cons.mp member with rfl | later
      · exact List.find?_cons_of_pos applies
      · have passed : ¬first.appliesTo lowered = true := by
          intro earlier
          exact not_appliesTo_of_isApartFrom (apart.1 rule later) earlier applies
        rw [List.find?_cons_of_neg (p := fun other : VerbRule => other.appliesTo lowered) passed]
        exact ih apart.2 later

end VerbRule

theorem ruleFor?_eq_some_iff {name : Text} {rule : VerbRule} :
    ruleFor? name = some rule ↔ rule ∈ allVerbRules ∧ ∃ verb ∈ rule.verbs, verb <+: name.lower := by
  rw [← VerbRule.appliesTo_iff]
  constructor
  · intro found
    exact ⟨List.mem_of_find?_eq_some found,
      List.find?_some (p := fun other : VerbRule => other.appliesTo name.lower) found⟩
  · rintro ⟨member, applies⟩
    have apart : allVerbRules.Pairwise fun rule other => rule.isApartFrom other = true := by decide
    exact VerbRule.find?_appliesTo apart member applies

theorem map_ruleFor? (name : Text) :
    ((ruleFor? name).map fun rule => rule.sentence (Identifier.fragments name).tail) =
      (verbSentence? verbRules name).or (verbSentence? lateVerbRules name) := by
  rw [ruleFor?, allVerbRules, List.find?_append, Option.map_or]
  rfl

theorem mem_of_converterSentence? {name sentence : Text} {cues : FileCues}
    (found : converterSentence? name cues = some sentence) : (name, sentence) ∈ converterSentences := by
  unfold converterSentence? at found
  split at found
  · exact entry_mem_of_lookup found
  · cases found

theorem ofMember_of_rule {name : Text} {rule : VerbRule} (found : ruleFor? name = some rule)
    {cues : FileCues} (ordinary : converterSentence? name cues = none) (kind : MemberKind) :
    ofMember name kind cues = rule.sentence (Identifier.fragments name).tail := by
  have sentence := map_ruleFor? name
  rw [found, Option.map_some] at sentence
  simp only [ofMember, ordinary, Option.orElse_eq_orElse, Option.orElse_eq_or, Option.none_or]
  rw [← Option.or_assoc, ← sentence]
  rfl

theorem ofMember_of_converter {name sentence : Text} {cues : FileCues}
    (found : converterSentence? name cues = some sentence) (kind : MemberKind) :
    ofMember name kind cues = sentence := by
  have early : ∀ entry ∈ converterSentences, verbSentence? verbRules entry.1 = none := by decide
  have unruled := early _ (mem_of_converterSentence? found)
  simp only [ofMember, unruled, found, Option.orElse_eq_orElse, Option.orElse_eq_or, Option.none_or,
    Option.some_or, Option.getD_some]

theorem converterSentence?_of_unruled {name : Text} (unruled : ruleFor? name = none)
    (cues : FileCues) : converterSentence? name cues = none := by
  have ruled : ∀ entry ∈ converterSentences, (ruleFor? entry.1).isSome = true := by decide
  cases found : converterSentence? name cues with
  | none => rfl
  | some sentence =>
      have rule := ruled _ (mem_of_converterSentence? found)
      rw [unruled] at rule
      cases rule

theorem ofMember_of_unruled {name : Text} (unruled : ruleFor? name = none) (kind : MemberKind)
    (cues : FileCues) :
    ofMember name kind cues = (predicateSentences.lookup name).getD
      (if kind = .property then
        Identifier.phrase (Identifier.fragments name) ++ "를(을) 가져오거나 설정합니다.".toList
      else "동작을 수행합니다.".toList) := by
  have sentence := map_ruleFor? name
  rw [unruled, Option.map_none] at sentence
  simp only [ofMember, converterSentence?_of_unruled unruled, Option.orElse_eq_orElse,
    Option.orElse_eq_or, Option.none_or]
  rw [← Option.or_assoc, ← sentence, Option.none_or]

end Summary

end DocComments
