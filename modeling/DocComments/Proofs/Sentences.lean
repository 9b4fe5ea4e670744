import DocComments.Wording.Parameter
import DocComments.Wording.Returns

/-! The characters of the wording. No sentence that is made up from a name breaks its line, and
none begins with the word that templates leave to be filled in. -/

namespace DocComments

/-- The characters that made-up sentences keep to: no terminators, and not the second letter of the
word for an unwritten summary. -/
def isSentenceCharacter (character : Char) : Bool :=
  character ≠ '\n' && character ≠ '\r' && character ≠ '명'

def IsSentence (text : Text) : Prop := text.all isSentenceCharacter = true

instance (text : Text) : Decidable (IsSentence text) :=
  inferInstanceAs (Decidable (text.all isSentenceCharacter = true))

theorem isSentence_append {left right : Text} (first : IsSentence left) (second : IsSentence right) :
    IsSentence (left ++ right) := by
  unfold IsSentence at first second ⊢
  rw [List.all_append, first, second]
  rfl

theorem IsSentence.not_mem {text : Text} (sentence : IsSentence text) {character : Char}
    (excluded : isSentenceCharacter character = false) : character ∉ text := by
  intro member
  have kept := List.all_eq_true.mp sentence character member
  rw [excluded] at kept
  cases kept

theorem isSentenceCharacter_of_isAlphanum {character : Char}
    (alphanumeric : character.isAlphanum = true) : isSentenceCharacter character = true := by
  simp only [isSentenceCharacter, Bool.and_eq_true, decide_eq_true_eq]
  refine ⟨⟨?_, ?_⟩, ?_⟩
  · rintro rfl
    exact absurd alphanumeric (by decide)
  · rintro rfl
    exact absurd alphanumeric (by decide)
  · rintro rfl
    exact absurd alphanumeric (by decide)

namespace Identifier

theorem isAlphanum_of_mem_fragments {name word : Text} (member : word ∈ fragments name)
    {character : Char} (inside : character ∈ word) : character.isAlphanum = true := by
  have part : character ∈ (fragments name).flatten := List.mem_flatten.mpr ⟨word, member, inside⟩
  rw [flatten_fragments] at part
  exact (List.mem_filter.mp part).2

theorem isSentence_phrase {words : List Text} (each : ∀ word ∈ words, IsSentence word) :
    IsSentence (phrase words) := by
  induction words with
  | nil => rfl
  | cons word rest ih =>
      have first := each word (by simp)
      cases rest with
      | nil =>
          have alone : phrase [word] = word := by simp [phrase, List.intercalate]
          rwa [alone]
      | cons next rest =>
          have apart : phrase (word :: next :: rest) = word ++ ([' '] ++ phrase (next :: rest)) := by
            simp [phrase, List.intercalate]
          rw [apart]
          apply isSentence_append first
          apply isSentence_append (by decide)
          exact ih fun other member => each other (by simp [member])

theorem isSentence_of_mem_fragments {name word : Text} (member : word ∈ fragments name) :
    IsSentence word := by
  rw [IsSentence, List.all_eq_true]
  intro character inside
  exact isSentenceCharacter_of_isAlphanum (isAlphanum_of_mem_fragments member inside)

theorem isSentence_phrase_fragments (name : Text) : IsSentence (phrase (fragments name)) :=
  isSentence_phrase fun _ member => isSentence_of_mem_fragments member

theorem isSentence_phrase_tail (name : Text) : IsSentence (phrase (fragments name).tail) :=
  isSentence_phrase fun _ member => isSentence_of_mem_fragments (List.mem_of_mem_tail member)

end Identifier

theorem entry_mem_of_lookup {entries : List (Text × Text)} {key value : Text}
    (found : entries.lookup key = some value) : (key, value) ∈ entries := by
  obtain ⟨before, after, rfl, _⟩ := List.lookup_eq_some_iff.mp found
  simp

theorem mem_of_lookup_eq_some {entries : List (Text × Text)} {key value : Text}
    (found : entries.lookup key = some value) : value ∈ entries.map Prod.snd :=
  List.mem_map_of_mem (entry_mem_of_lookup found)

namespace Summary

theorem isSentence_of_verbSentence? {rules : List VerbRule}
    (wording : ∀ rule ∈ rules, IsSentence rule.ending ∧ IsSentence rule.bare) {name sentence : Text}
    (found : verbSentence? rules name = some sentence) : IsSentence sentence := by
  obtain ⟨rule, first, rfl⟩ := Option.map_eq_some_iff.mp found
  have parts := wording rule (List.mem_of_find?_eq_some first)
  unfold VerbRule.sentence
  split
  · exact parts.2
  · exact isSentence_append (Identifier.isSentence_phrase_tail name) parts.1

theorem isSentence_of_lookup {sentences : List (Text × Text)}
    (wording : ∀ sentence ∈ sentences.map Prod.snd, IsSentence sentence) {name sentence : Text}
    (found : sentences.lookup name = some sentence) : IsSentence sentence :=
  wording sentence (mem_of_lookup_eq_some found)

theorem isSentence_ofMember (name : Text) (kind : MemberKind) (cues : FileCues) :
    IsSentence (ofMember name kind cues) := by
  have known : ∀ sentence, (verbSentence? verbRules name <|> converterSentence? name cues <|>
      verbSentence? lateVerbRules name <|> predicateSentences.lookup name) = some sentence →
      IsSentence sentence := by
    intro sentence found
    simp only [Option.orElse_eq_orElse, Option.orElse_eq_or, Option.or_eq_some_iff] at found
    rcases found with verb | ⟨_, converter | ⟨_, late | ⟨_, predicate⟩⟩⟩
    · exact isSentence_of_verbSentence? (by decide +kernel) verb
    · unfold converterSentence? at converter
      split at converter
      · exact isSentence_of_lookup (by decide +kernel) converter
      · cases converter
    · exact isSentence_of_verbSentence? (by decide +kernel) late
    · exact isSentence_of_lookup (by decide +kernel) predicate
  unfold ofMember
  generalize (verbSentence? verbRules name <|> converterSentence? name cues <|>
    verbSentence? lateVerbRules name <|> predicateSentences.lookup name) = sentence? at known ⊢
  cases sentence? with
  | some sentence => exact known sentence rfl
  | none =>
      dsimp only [Option.getD_none]
      split
      · exact isSentence_append (Identifier.isSentence_phrase_fragments name) (by decide)
      · decide

theorem isSentence_ofInterface (name : Text) : IsSentence (ofInterface name) := by
  unfold ofInterface
  dsimp only
  split
  · exact isSentence_append (Identifier.isSentence_phrase_tail name) (by decide)
  · decide

theorem isSentence_ofClass (name : Text) (cues : FileCues) : IsSentence (ofClass name cues) := by
  unfold ofClass
  split
  · decide
  · split
    · decide
    · split
      · decide
      · split
        · decide
        · exact isSentence_append (Identifier.isSentence_phrase_fragments name) (by decide)

theorem isSentence_ofType (name : Text) (kind : Option TypeKind) (cues : FileCues) :
    IsSentence (ofType name kind cues) := by
  unfold ofType
  split
  · exact isSentence_ofInterface name
  · decide
  · exact isSentence_ofClass name cues

theorem isSentence_ofConstructor (name : Text) : IsSentence (ofConstructor name) := by
  unfold ofConstructor
  apply isSentence_append _ (by decide)
  exact isSentence_append (by decide) (Identifier.isSentence_phrase_fragments name)

end Summary

theorem isSentence_summarize (name : Text) (kind : MemberKind) (typeKind : Option TypeKind)
    (cues : FileCues) : IsSentence (summarize name kind typeKind cues) := by
  cases kind with
  | type => exact Summary.isSentence_ofType name typeKind cues
  | constructor => exact Summary.isSentence_ofConstructor name
  | method => exact Summary.isSentence_ofMember name .method cues
  | property => exact Summary.isSentence_ofMember name .property cues

theorem isSentence_ofSummary (summary : Text) : IsSentence (Returns.ofSummary summary) := by
  unfold Returns.ofSummary
  split
  · split <;> decide
  · split <;> decide

theorem isSentence_ofName? {name sentence : Text} (found : Returns.ofName? name = some sentence) :
    IsSentence sentence := by
  unfold Returns.ofName? at found
  split at found
  · obtain rfl := Option.some.inj found
    decide
  · split at found
    · obtain rfl := Option.some.inj found
      decide
    · cases found

theorem isSentence_describe (name : Text) : IsSentence (Parameters.describe name) := by
  unfold Parameters.describe
  cases found : Parameters.descriptions.lookup name.lower with
  | none => decide
  | some description => exact Summary.isSentence_of_lookup (by decide +kernel) found

end DocComments
