import DocComments.Identifier
import DocComments.Proofs.Letters
import DocComments.Proofs.Words

/-! The words of an identifier as pieces of it. In a word each character joins the next one
(`IsWordBefore`), and what stands behind it is cut on its own (`fragments_eq_cons_iff`). So a scan
that takes whole runs of small letters, capitals and digits finds the same words (`scan_eq`). -/

namespace DocComments

namespace Identifier

theorem joins_of_isLower {character next : Char} (small : character.isLower = true) (after : Text) :
    joins character (next :: after) = next.isLower := by
  simp [joins, small, not_isUpper_of_isLower small, not_isDigit_of_isLower small]

theorem joins_of_isDigit {character next : Char} (digit : character.isDigit = true) (after : Text) :
    joins character (next :: after) = next.isDigit := by
  have small : ¬character.isLower = true := fun small => not_isDigit_of_isLower small digit
  have capital : ¬character.isUpper = true := fun capital => not_isDigit_of_isUpper capital digit
  simp [joins, small, capital, digit]

theorem joins_of_isUpper {character next : Char} (capital : character.isUpper = true) (after : Text) :
    joins character (next :: after) =
      (next.isLower || next.isUpper && !after.head?.any Char.isLower) := by
  simp [joins, capital, isLower_of_isUpper capital, not_isDigit_of_isUpper capital]

theorem isAlphanum_of_joins {character : Char} {rest : Text} (joined : joins character rest = true) :
    character.isAlphanum = true ∧ rest.head?.any Char.isAlphanum = true := by
  cases rest with
  | nil => cases joined
  | cons next after =>
      simp only [joins, Bool.or_eq_true, Bool.and_eq_true] at joined
      rw [List.head?_cons, Option.any_some, isAlphanum_iff, isAlphanum_iff]
      rcases joined with ((both | both) | both) | both
      · exact ⟨Or.inl both.1, Or.inl both.2⟩
      · exact ⟨Or.inr (Or.inr both.1), Or.inr (Or.inr both.2)⟩
      · exact ⟨Or.inr (Or.inl both.1), Or.inl both.2⟩
      · exact ⟨Or.inr (Or.inl both.1.1), Or.inr (Or.inl both.1.2)⟩

theorem joins_eq_false {rest : Text} (apart : rest.head?.any Char.isAlphanum = false)
    (character : Char) : joins character rest = false := by
  rw [Bool.eq_false_iff]
  intro joined
  rw [(isAlphanum_of_joins joined).2] at apart
  cases apart

theorem fragments_separator {character : Char} (separates : character.isAlphanum = false)
    (rest : Text) : fragments (character :: rest) = fragments rest := by
  simp [fragments, separates]

theorem fragments_joined {character : Char} {rest : Text} (joined : joins character rest = true) :
    fragments (character :: rest) = Text.extendFirst character (fragments rest) := by
  simp [fragments, (isAlphanum_of_joins joined).1, joined]

theorem fragments_last {character : Char} {rest : Text} (letter : character.isAlphanum = true)
    (apart : joins character rest = false) :
    fragments (character :: rest) = [character] :: fragments rest := by
  simp [fragments, letter, apart]

def IsWordBefore (rest : Text) : Text → Prop
  | [] => False
  | [last] => last.isAlphanum = true ∧ joins last rest = false
  | character :: next :: more =>
    joins character (next :: more ++ rest) = true ∧ IsWordBefore rest (next :: more)

theorem fragments_append {word rest : Text} (whole : IsWordBefore rest word) :
    fragments (word ++ rest) = word :: fragments rest := by
  induction word with
  | nil => cases whole
  | cons character more ih =>
      cases more with
      | nil => exact fragments_last whole.1 whole.2
      | cons next more =>
          rw [List.cons_append, fragments_joined whole.1, ih whole.2]
          rfl

theorem fragments_eq_nil_iff (name : Text) :
    fragments name = [] ↔ ∀ character ∈ name, character.isAlphanum = false := by
  induction name with
  | nil => simp [fragments]
  | cons character rest ih =>
      rw [List.forall_mem_cons]
      cases letter : character.isAlphanum with
      | false => simp [fragments_separator letter, ih]
      | true =>
          refine iff_of_false ?_ (by simp)
          cases joined : joins character rest with
          | false => simp [fragments_last letter joined]
          | true =>
              rw [fragments_joined joined]
              cases fragments rest <;> simp [Text.extendFirst]

theorem exists_fragments_of_joins {character : Char} {rest : Text}
    (joined : joins character rest = true) :
    ∃ word words, fragments rest = word :: words := by
  have next := (isAlphanum_of_joins joined).2
  cases cut : fragments rest with
  | cons word words => exact ⟨word, words, rfl⟩
  | nil =>
      cases rest with
      | nil => cases next
      | cons first rest =>
          rw [fragments_eq_nil_iff] at cut
          simp [cut first (by simp)] at next

theorem fragments_eq_cons_iff {name word : Text} {words : List Text} :
    fragments name = word :: words ↔ ∃ gap rest, name = gap ++ (word ++ rest) ∧
      (∀ character ∈ gap, character.isAlphanum = false) ∧ IsWordBefore rest word ∧
      fragments rest = words := by
  constructor
  · intro cut
    induction name generalizing word with
    | nil => cases cut
    | cons character rest ih =>
        cases letter : character.isAlphanum with
        | false =>
            rw [fragments_separator letter] at cut
            obtain ⟨gap, behind, rfl, separators, whole, others⟩ := ih cut
            exact ⟨character :: gap, behind, rfl, by simpa [letter] using separators, whole, others⟩
        | true =>
            cases joined : joins character rest with
            | false =>
                rw [fragments_last letter joined] at cut
                obtain ⟨rfl, others⟩ := List.cons.inj cut
                exact ⟨[], rest, rfl, by simp, ⟨letter, joined⟩, others⟩
            | true =>
                obtain ⟨start, others, first⟩ := exists_fragments_of_joins joined
                rw [fragments_joined joined, first] at cut
                obtain ⟨rfl, rfl⟩ := List.cons.inj cut
                obtain ⟨gap, behind, rfl, separators, whole, others⟩ := ih first
                -- The word goes on right behind the character, so there is no gap.
                cases gap with
                | nil =>
                    cases start with
                    | nil => cases whole
                    | cons next more => exact ⟨[], behind, rfl, by simp, ⟨joined, whole⟩, others⟩
                | cons separator gap =>
                    have next := (isAlphanum_of_joins joined).2
                    simp [separators separator (by simp)] at next
  · rintro ⟨gap, rest, rfl, separators, whole, rfl⟩
    induction gap with
    | nil => exact fragments_append whole
    | cons character gap ih =>
        rw [List.forall_mem_cons] at separators
        rw [List.cons_append, fragments_separator separators.1, ih separators.2]

def scan : Text → List Text
  | [] => []
  | character :: rest =>
    if character.isLower then
      (character :: rest.takeWhile Char.isLower) :: scan (rest.dropWhile Char.isLower)
    else if character.isUpper then
      let more := (rest.takeWhile Char.isUpper).length
      let behind := rest.dropWhile Char.isUpper
      if !behind.head?.any Char.isLower then
        (character :: rest.takeWhile Char.isUpper) :: scan behind
      else if 0 < more then
        (character :: rest).take more :: scan ((character :: rest).drop more)
      else (character :: rest.takeWhile Char.isLower) :: scan (rest.dropWhile Char.isLower)
    else if character.isDigit then
      (character :: rest.takeWhile Char.isDigit) :: scan (rest.dropWhile Char.isDigit)
    else scan rest
termination_by name => name.length
decreasing_by
  all_goals simp only [List.length_cons, List.length_drop]
  · exact Nat.lt_succ_of_le (List.dropWhile_sublist _).length_le
  · exact Nat.lt_succ_of_le (List.dropWhile_sublist _).length_le
  · omega
  · exact Nat.lt_succ_of_le (List.dropWhile_sublist _).length_le
  · exact Nat.lt_succ_of_le (List.dropWhile_sublist _).length_le
  · exact Nat.lt_succ_self _

theorem isWordBefore_run {kind : Char → Bool}
    (letters : ∀ character, kind character = true → character.isAlphanum = true)
    (nextOf : ∀ {character next : Char}, kind character = true →
      ∀ after, joins character (next :: after) = kind next)
    {character : Char} (first : kind character = true) (rest : Text) :
    IsWordBefore (rest.dropWhile kind) (character :: rest.takeWhile kind) := by
  induction rest generalizing character with
  | nil => exact ⟨letters character first, rfl⟩
  | cons next after ih =>
      cases same : kind next with
      | false =>
          rw [List.takeWhile_cons_of_neg (by simp [same]), List.dropWhile_cons_of_neg (by simp [same])]
          exact ⟨letters character first, by rw [nextOf first, same]⟩
      | true =>
          rw [List.takeWhile_cons_of_pos same, List.dropWhile_cons_of_pos same]
          exact ⟨by rw [List.cons_append, nextOf first, same], ih same⟩

theorem isWordBefore_capitals {word rest : Text} (nonempty : word ≠ [])
    (capitals : ∀ character ∈ word, character.isUpper = true)
    (apart : ∀ character : Char, character.isUpper = true → joins character rest = false)
    (noSmall : rest.head?.any Char.isLower = false) : IsWordBefore rest word := by
  induction word with
  | nil => exact absurd rfl nonempty
  | cons character more ih =>
      rw [List.forall_mem_cons] at capitals
      cases more with
      | nil => exact ⟨isAlphanum_iff.mpr (Or.inr (Or.inl capitals.1)), apart _ capitals.1⟩
      | cons next more =>
          refine ⟨?_, ih (List.cons_ne_nil _ _) capitals.2⟩
          have second : (more ++ rest).head?.any Char.isLower = false := by
            cases more with
            | nil => exact noSmall
            | cons third more =>
                exact isLower_of_isUpper (capitals.2 third (by simp))
          rw [List.cons_append, joins_of_isUpper capitals.1, capitals.2 next (by simp), second]
          simp

theorem joins_capital_eq_false {rest : Text} (noSmall : rest.head?.any Char.isLower = false)
    (noCapital : rest.head?.any Char.isUpper = false) {character : Char}
    (capital : character.isUpper = true) : joins character rest = false := by
  cases rest with
  | nil => rfl
  | cons next after =>
      rw [List.head?_cons, Option.any_some] at noSmall noCapital
      rw [joins_of_isUpper capital, noSmall, noCapital]
      rfl

theorem fragments_run {kind : Char → Bool}
    (letters : ∀ character, kind character = true → character.isAlphanum = true)
    (nextOf : ∀ {character next : Char}, kind character = true →
      ∀ after, joins character (next :: after) = kind next)
    {character : Char} (first : kind character = true) (rest : Text) :
    fragments (character :: rest) =
      (character :: rest.takeWhile kind) :: fragments (rest.dropWhile kind) := by
  have cut := fragments_append (isWordBefore_run letters nextOf first rest)
  rwa [List.cons_append, List.takeWhile_append_dropWhile] at cut

theorem fragments_small {character : Char} (small : character.isLower = true) (rest : Text) :
    fragments (character :: rest) =
      (character :: rest.takeWhile Char.isLower) :: fragments (rest.dropWhile Char.isLower) :=
  fragments_run (fun _ letter => isAlphanum_iff.mpr (Or.inl letter)) joins_of_isLower small rest

theorem fragments_digits {character : Char} (digit : character.isDigit = true) (rest : Text) :
    fragments (character :: rest) =
      (character :: rest.takeWhile Char.isDigit) :: fragments (rest.dropWhile Char.isDigit) :=
  fragments_run (fun _ letter => isAlphanum_iff.mpr (Or.inr (Or.inr letter))) joins_of_isDigit digit
    rest

theorem fragments_capitals {character : Char} (capital : character.isUpper = true) {rest : Text}
    (noSmall : (rest.dropWhile Char.isUpper).head?.any Char.isLower = false) :
    fragments (character :: rest) =
      (character :: rest.takeWhile Char.isUpper) :: fragments (rest.dropWhile Char.isUpper) := by
  have capitals : ∀ other ∈ character :: rest.takeWhile Char.isUpper, other.isUpper = true :=
    List.forall_mem_cons.mpr ⟨capital, fun _ => List.mem_takeWhile_imp⟩
  have cut := fragments_append (isWordBefore_capitals (List.cons_ne_nil _ _) capitals
    (fun _ => joins_capital_eq_false noSmall (any_head?_dropWhile _ _)) noSmall)
  rwa [List.cons_append, List.takeWhile_append_dropWhile] at cut

/-- The last capital before a small letter begins a new word. -/
theorem fragments_capitals_append {capitals behind : Text} {last : Char} (nonempty : capitals ≠ [])
    (upper : ∀ other ∈ capitals, other.isUpper = true) (capital : last.isUpper = true)
    (followed : behind.head?.any Char.isLower = true) :
    fragments (capitals ++ last :: behind) = capitals :: fragments (last :: behind) := by
  have noSmall : last.isLower = false := isLower_of_isUpper capital
  have apart : ∀ other : Char, other.isUpper = true → joins other (last :: behind) = false := by
    intro other first
    rw [joins_of_isUpper first, noSmall, followed]
    simp
  exact fragments_append (isWordBefore_capitals nonempty upper apart noSmall)

theorem fragments_capital_small {character : Char} (capital : character.isUpper = true) {rest : Text}
    (followed : rest.head?.any Char.isLower = true) :
    fragments (character :: rest) =
      (character :: rest.takeWhile Char.isLower) :: fragments (rest.dropWhile Char.isLower) := by
  cases rest with
  | nil => cases followed
  | cons next after =>
      have small : next.isLower = true := followed
      have joined : joins character (next :: after) = true := by
        rw [joins_of_isUpper capital, small]
        rfl
      rw [fragments_joined joined, fragments_small small, List.takeWhile_cons_of_pos small,
        List.dropWhile_cons_of_pos small]
      rfl

theorem scan_eq (name : Text) : scan name = fragments name := by
  fun_induction scan name with
  | case1 => rfl
  | case2 character rest small ih => rw [ih, fragments_small small]
  | case3 character rest small capital behind noSmall ih =>
      rw [Bool.not_eq_true'] at noSmall
      rw [ih, fragments_capitals capital noSmall]
  | case4 character rest small capital more behind followed several ih =>
      rw [Bool.not_eq_true', Bool.not_eq_false] at followed
      rcases List.eq_nil_or_concat (rest.takeWhile Char.isUpper) with none | ⟨init, last, run⟩
      · simp [more, none] at several
      · rw [List.concat_eq_append] at run
        have capitals : ∀ other ∈ init ++ [last], other.isUpper = true := by
          rw [← run]
          exact fun _ => List.mem_takeWhile_imp
        rw [List.forall_mem_append, List.forall_mem_singleton] at capitals
        have whole : character :: rest = (character :: init) ++ last :: behind := by
          rw [← List.takeWhile_append_dropWhile (p := Char.isUpper) (l := rest), run]
          simp [behind]
        have length : more = (character :: init).length := by simp [more, run]
        have cut := fragments_capitals_append (List.cons_ne_nil character init)
          (List.forall_mem_cons.mpr ⟨capital, capitals.1⟩) capitals.2 followed
        rw [ih, whole, length, List.take_left, List.drop_left, cut]
  | case5 character rest small capital more behind followed single ih =>
      rw [Bool.not_eq_true', Bool.not_eq_false] at followed
      have none : rest.takeWhile Char.isUpper = [] := List.length_eq_zero_iff.mp (by omega)
      have same : behind = rest := by
        have cut := List.takeWhile_append_dropWhile (p := Char.isUpper) (l := rest)
        rwa [none, List.nil_append] at cut
      rw [same] at followed
      rw [ih, fragments_capital_small capital followed]
  | case6 character rest small capital digit ih => rw [ih, fragments_digits digit]
  | case7 character rest small capital digit ih =>
      have separates : character.isAlphanum = false := by
        rw [Bool.eq_false_iff, ne_eq, isAlphanum_iff, not_or, not_or]
        exact ⟨small, capital, digit⟩
      rw [ih, fragments_separator separates]

end Identifier

end DocComments
