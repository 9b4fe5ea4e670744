import DocComments.Proofs.Letters
import DocComments.Text.LowerCase
import Mathlib.Data.List.Induction

/-! Small letters. Few characters outside ASCII have one of ASCII (`lowerCharacter_cases`). So a
lowered text begins with a verb only where letters do (`letters_of_begins`), and an ending without
`k` is found in it where it stands in the text itself (`suffix_lower_iff`). -/

namespace DocComments

namespace Text

theorem isLetter_of_toLower {character : Char} (small : character.toLower.isLower = true) :
    character.isLower = true ∨ character.isUpper = true := by
  unfold Char.toLower at small
  split at small
  · next capital => exact Or.inr (decide_eq_true capital)
  · exact Or.inl small

theorem toLower_of_not_ascii {character : Char} (outside : 0x80 ≤ character.toNat) :
    character.toLower = character := by
  have noCapital : ¬character.isUpper = true := by
    rw [isUpper_iff]
    omega
  unfold Char.toLower
  rw [dif_neg fun capital => noCapital (decide_eq_true capital)]

theorem toNat_ofNat (number : Nat) :
    (Char.ofNat number).toNat = number ∨ (Char.ofNat number).toNat = 0 := by
  by_cases valid : number.isValidChar
  · rw [Char.ofNat, dif_pos valid]
    exact Or.inl rfl
  · rw [Char.ofNat, dif_neg valid]
    exact Or.inr rfl

def IsUsual (small : Char) : Prop := small.toNat ≠ 0 ∧ small.toNat < 0x80 ∧ small ≠ 'k'

instance (small : Char) : Decidable (IsUsual small) := inferInstanceAs (Decidable (_ ∧ _ ∧ _))

theorem CaseRun.not_isUsual_lower {run : CaseRun} (member : run ∈ caseRuns) {character : Char}
    (covered : run.covers character = true) : ¬IsUsual (run.lower character) := by
  have table : caseRuns.all (fun run => run.first == 0x212A && run.last == 0x212A &&
      run.offset == -8383 || decide (0x80 ≤ (run.first : Int) + run.offset)) = true := by decide
  simp only [covers, Bool.and_eq_true, decide_eq_true_eq] at covered
  have bounds := List.all_eq_true.mp table run member
  simp only [Bool.or_eq_true, Bool.and_eq_true, beq_iff_eq, decide_eq_true_eq] at bounds
  rintro ⟨visible, small, usual⟩
  rcases bounds with ⟨⟨first, last⟩, offset⟩ | outside
  · have sign : character.toNat = 0x212A := by omega
    rw [lower, sign, offset] at usual
    exact usual rfl
  · rw [lower] at small visible
    have number := toNat_ofNat ((character.toNat : Int) + run.offset).toNat
    omega

theorem isUsual_of_isLower {small : Char} (letter : small.isLower = true) (usual : small ≠ 'k') :
    IsUsual small := by
  rw [isLower_iff] at letter
  exact ⟨by omega, by omega, usual⟩

theorem lower_cons (character : Char) (rest : Text) :
    lower (character :: rest) = lowerCharacter character ++ lower rest := rfl

theorem lower_append (first second : Text) : lower (first ++ second) = lower first ++ lower second :=
  List.flatMap_append

theorem lower_begins {start name : Text} (begins : start <+: name) : lower start <+: lower name := by
  obtain ⟨rest, rfl⟩ := begins
  rw [lower_append]
  exact List.prefix_append _ _

/-- One capital has two characters for its small letter, and only the first of them is of ASCII. -/
theorem lowerCharacter_cases (character : Char) :
    (∃ small, lowerCharacter character = [small] ∧ (IsUsual small → character.toLower = small)) ∨
      ∃ mark, lowerCharacter character = ['i', mark] ∧ 0x80 ≤ mark.toNat := by
  unfold lowerCharacter
  split
  · exact Or.inl ⟨_, rfl, fun _ => rfl⟩
  · next outside =>
    split
    · exact Or.inr ⟨_, rfl, by decide⟩
    · split
      · next run found =>
        have member := List.mem_of_find?_eq_some found
        have covered := List.find?_some (p := fun run : CaseRun => run.covers character) found
        exact Or.inl ⟨_, rfl, fun usual => absurd usual (CaseRun.not_isUsual_lower member covered)⟩
      · exact Or.inl ⟨_, rfl, fun usual => absurd usual.2.1 outside⟩

theorem lowerCharacter_of_toLower {character : Char} (usual : IsUsual character.toLower) :
    lowerCharacter character = [character.toLower] := by
  rcases Nat.lt_or_ge character.toNat 0x80 with small | outside
  · rw [lowerCharacter, if_pos small]
  · rw [toLower_of_not_ascii outside] at usual
    exact absurd usual.2.1 (by omega)

/-- Small letters that come from nothing but single letters, where they begin a lowered text: no `k`,
which is also the small letter of the sign for kelvin, and no `i` at the end, which could be the front
of a capital with a dot. -/
def IsPlain (verb : Text) : Prop :=
  (verb.all fun letter => letter.isLower && letter != 'k') = true ∧ verb.getLast? ≠ some 'i'

instance (verb : Text) : Decidable (IsPlain verb) :=
  inferInstanceAs (Decidable (_ ∧ _))

theorem letters_of_begins {verb name : Text} (plain : IsPlain verb) (begins : verb <+: name.lower) :
    (name.take verb.length).length = verb.length ∧
      ∀ character ∈ name.take verb.length, character.isLower = true ∨ character.isUpper = true := by
  induction verb generalizing name with
  | nil => simp
  | cons small verb ih =>
      obtain ⟨letters, last⟩ := plain
      rw [List.all_cons, Bool.and_eq_true, Bool.and_eq_true, bne_iff_ne] at letters
      cases name with
      | nil => exact absurd (List.prefix_nil.mp begins) (List.cons_ne_nil _ _)
      | cons character rest =>
          rw [lower_cons] at begins
          rcases lowerCharacter_cases character with ⟨front, lowered, own⟩ | ⟨mark, lowered, outside⟩
          · rw [lowered, List.singleton_append, List.cons_prefix_cons] at begins
            obtain ⟨rfl, begins⟩ := begins
            have same := own (isUsual_of_isLower letters.1.1 letters.1.2)
            have letter := isLetter_of_toLower (same.symm ▸ letters.1.1)
            have later : IsPlain verb := by
              refine ⟨letters.2, ?_⟩
              cases verb with
              | nil => simp
              | cons next verb => rwa [List.getLast?_cons_cons] at last
            obtain ⟨length, each⟩ := ih later begins
            rw [List.length_cons, List.take_succ_cons, List.length_cons, length]
            exact ⟨rfl, List.forall_mem_cons.mpr ⟨letter, each⟩⟩
          · -- Behind the `i` of the capital with a dot comes the dot, which no verb has.
            rw [lowered, List.cons_append, List.cons_prefix_cons] at begins
            obtain ⟨rfl, begins⟩ := begins
            cases verb with
            | nil => exact absurd rfl last
            | cons next verb =>
                obtain ⟨rfl, _⟩ := List.cons_prefix_cons.mp begins
                have next := letters.2
                rw [List.all_cons, Bool.and_eq_true, Bool.and_eq_true, isLower_iff] at next
                omega

theorem concat_suffix_concat_iff (first second : Text) (last final : Char) :
    first ++ [last] <:+ second ++ [final] ↔ first <:+ second ∧ last = final := by
  rw [List.suffix_concat_iff]
  constructor
  · rintro (empty | ⟨front, same, inside⟩)
    · simp at empty
    · obtain ⟨rfl, final⟩ := List.append_inj' same rfl
      exact ⟨inside, by simpa using final⟩
  · rintro ⟨inside, rfl⟩
    exact Or.inr ⟨first, rfl, inside⟩

theorem concat_suffix_lower_iff {last : Char} (usual : IsUsual last) (front start : Text)
    (character : Char) :
    front ++ [last] <:+ lower (start ++ [character]) ↔
      front <:+ lower start ∧ last = character.toLower := by
  have alone : lower [character] = lowerCharacter character := List.flatMap_singleton ..
  rw [lower_append, alone]
  constructor
  · intro ends
    rcases lowerCharacter_cases character with ⟨small, lowered, own⟩ | ⟨mark, lowered, outside⟩
    · rw [lowered, concat_suffix_concat_iff] at ends
      obtain ⟨inside, rfl⟩ := ends
      exact ⟨inside, (own usual).symm⟩
    · have behind : lower start ++ ['i', mark] = (lower start ++ ['i']) ++ [mark] := by simp
      rw [lowered, behind, concat_suffix_concat_iff] at ends
      exact absurd usual.2.1 (by rw [ends.2]; omega)
  · rintro ⟨inside, rfl⟩
    rw [lowerCharacter_of_toLower usual, concat_suffix_concat_iff]
    exact ⟨inside, rfl⟩

/-- Small letters at the end of a lowered text are those of its own last characters, one by one. -/
theorem suffix_lower_iff {ending : Text} (usual : ∀ small ∈ ending, IsUsual small) (text : Text) :
    ending <:+ text.lower ↔ ending <:+ text.map Char.toLower := by
  induction ending using List.reverseRecOn generalizing text with
  | nil => simp
  | append_singleton front last ih =>
      rw [List.forall_mem_append, List.forall_mem_singleton] at usual
      cases text using List.reverseRecOn with
      | nil => simp [lower]
      | append_singleton start character _ =>
          rw [concat_suffix_lower_iff usual.2, ih usual.1, List.map_append, List.map_singleton,
            concat_suffix_concat_iff]

end Text

end DocComments
