import DocComments.Proofs.WordRuns

/-! Phrases read back. A word of an identifier cannot be cut again, and a blank behind it changes
nothing about that, so cutting a phrase gives the words that it was put together from
(`fragments_phrase_iff`). -/

namespace DocComments

namespace Identifier

theorem joins_of_small_behind {character next : Char} {after other : Text}
    (joined : joins character (next :: after) = true)
    (small : other.head?.any Char.isLower = true → after.head?.any Char.isLower = true) :
    joins character (next :: other) = true := by
  simp only [joins] at joined ⊢
  cases behind : other.head?.any Char.isLower with
  | true => rwa [small behind] at joined
  | false => grind

theorem IsWordBefore.of_separator {rest other word : Text} (whole : IsWordBefore rest word)
    (apart : other.head?.any Char.isAlphanum = false) : IsWordBefore other word := by
  have noSmall : other.head?.any Char.isLower = false := by
    cases other with
    | nil => rfl
    | cons character other =>
        rw [List.head?_cons, Option.any_some, Bool.eq_false_iff] at apart ⊢
        exact fun small => apart (isAlphanum_iff.mpr (Or.inl small))
  induction word with
  | nil => cases whole
  | cons character more ih =>
      cases more with
      | nil => exact ⟨whole.1, joins_eq_false apart character⟩
      | cons next more =>
          refine ⟨joins_of_small_behind whole.1 ?_, ih whole.2⟩
          cases more with
          | nil => simp [noSmall]
          | cons third more => exact id

theorem fragments_eq_singleton_iff (word : Text) :
    fragments word = [word] ↔ IsWordBefore [] word := by
  constructor
  · intro whole
    obtain ⟨gap, rest, cut, _, first, _⟩ := fragments_eq_cons_iff.mp whole
    have lengths := congrArg List.length cut
    simp only [List.length_append] at lengths
    have none : rest = [] := List.length_eq_zero_iff.mp (by omega)
    rwa [none] at first
  · intro whole
    have cut := fragments_append whole
    rwa [List.append_nil] at cut

theorem fragments_of_mem {name word : Text} (member : word ∈ fragments name) :
    fragments word = [word] := by
  rw [fragments_eq_singleton_iff]
  generalize cut : fragments name = words at member
  induction words generalizing name with
  | nil => cases member
  | cons first words ih =>
      obtain ⟨_, rest, _, _, whole, others⟩ := fragments_eq_cons_iff.mp cut
      rcases List.mem_cons.mp member with rfl | member
      · exact whole.of_separator rfl
      · exact ih others member

theorem fragments_word_blank {word : Text} (whole : fragments word = [word]) (rest : Text) :
    fragments (word ++ ' ' :: rest) = word :: fragments rest := by
  rw [fragments_eq_singleton_iff] at whole
  rw [fragments_append (whole.of_separator rfl), fragments_separator rfl]

theorem phrase_cons_cons (word next : Text) (others : List Text) :
    phrase (word :: next :: others) = word ++ ' ' :: phrase (next :: others) := by
  rw [phrase, List.intercalate_cons_cons, List.append_assoc]
  rfl

theorem mem_phrase {words : List Text} {character : Char} (member : character ∈ phrase words) :
    character = ' ' ∨ character ∈ words.flatten := by
  induction words with
  | nil => cases member
  | cons word others ih =>
      cases others with
      | nil =>
          rw [phrase, List.intercalate_singleton] at member
          exact Or.inr (by simpa using member)
      | cons next others =>
          rw [phrase_cons_cons, List.mem_append, List.mem_cons] at member
          rw [List.flatten_cons, List.mem_append]
          rcases member with inside | blank | later
          · exact Or.inr (Or.inl inside)
          · exact Or.inl blank
          · exact (ih later).imp_right Or.inr

theorem filter_phrase {words : List Text} (solid : ∀ word ∈ words, ' ' ∉ word) :
    (phrase words).filter (· != ' ') = words.flatten := by
  induction words with
  | nil => rfl
  | cons word others ih =>
      rw [List.forall_mem_cons] at solid
      have own : word.filter (· != ' ') = word := by
        rw [List.filter_eq_self]
        intro character member
        rw [bne_iff_ne]
        rintro rfl
        exact solid.1 member
      cases others with
      | nil =>
          rw [phrase, List.intercalate_singleton, own, List.flatten_singleton]
      | cons next others =>
          rw [phrase_cons_cons, List.filter_append, own, List.filter_cons_of_neg (by decide),
            ih solid.2]
          rfl

/-- Words can be read back from their phrase exactly when none of them can be cut. -/
theorem fragments_phrase_iff (words : List Text) :
    fragments (phrase words) = words ↔ ∀ word ∈ words, fragments word = [word] := by
  constructor
  · intro back word member
    rw [← back] at member
    exact fragments_of_mem member
  · intro whole
    induction words with
    | nil => rfl
    | cons word others ih =>
        rw [List.forall_mem_cons] at whole
        cases others with
        | nil => rw [phrase, List.intercalate_singleton, whole.1]
        | cons next others =>
            rw [phrase_cons_cons, fragments_word_blank whole.1, ih whole.2]

theorem fragments_phrase (name : Text) : fragments (phrase (fragments name)) = fragments name :=
  (fragments_phrase_iff _).mpr fun _ => fragments_of_mem

/-- The words of an identifier can be read back from its phrase, so two identifiers have one phrase only
if they have the same words. The phrase has the letters and digits of the identifier. -/
theorem phrase_reads_back (name : Text) :
    fragments (phrase (fragments name)) = fragments name ∧
      (∀ other, phrase (fragments name) = phrase (fragments other) ↔
        fragments name = fragments other) ∧
      (phrase (fragments name)).filter Char.isAlphanum = name.filter Char.isAlphanum := by
  refine ⟨fragments_phrase name, fun other => ⟨?_, congrArg phrase⟩, ?_⟩
  · intro same
    rw [← fragments_phrase name, same, fragments_phrase other]
  · rw [← flatten_fragments, fragments_phrase, flatten_fragments]

end Identifier

end DocComments
