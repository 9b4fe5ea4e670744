import DocComments.Declaration.Parameters
import DocComments.Proofs.Heads

/-! Parameter lists as programmers write them: attributes, modifiers and a type, the name, and
perhaps a default value, with a comma between two parameters. The names read from such a list are
those that were written (`names_join`). -/

namespace DocComments

namespace Parameters

def isOpening (character : Char) : Bool := ['<', '(', '['].contains character

def isClosing (character : Char) : Bool := ['>', ')', ']'].contains character

def openings (text : Text) : Nat := text.countP isOpening

def closings (text : Text) : Nat := text.countP isClosing

structure Closes (depth : Nat) (text : Text) : Prop where
  within : ∀ front back, text = front ++ back → closings front ≤ depth + openings front
  level : closings text = depth + openings text
  enclosed : ∀ front back, text = front ++ ',' :: back → closings front < depth + openings front

def IsBalanced (text : Text) : Prop := Closes 0 text

def isAttributed (inside : Bool) : Text → Bool
  | [] => !inside
  | character :: rest =>
    if inside then character ≠ '[' && isAttributed (character ≠ ']') rest
    else if character = '[' then isAttributed true rest
    else character ≠ ']' && character ≠ '=' && isAttributed false rest

theorem isClosing_of_isOpening {character : Char} (opening : isOpening character = true) :
    isClosing character = false := by
  simp only [isOpening, List.contains_iff_mem, List.mem_cons, List.not_mem_nil, or_false] at opening
  rcases opening with rfl | rfl | rfl <;> decide

theorem depthAfter_eq (depth : Nat) (character : Char) :
    depthAfter depth character =
      if isOpening character then depth + 1
      else if isClosing character then depth - 1 else depth := rfl

theorem closes_nil (depth : Nat) : Closes depth [] ↔ depth = 0 := by
  constructor
  · intro closes
    have level := closes.level
    simp only [closings, openings, List.countP_nil] at level
    omega
  · rintro rfl
    refine ⟨?_, rfl, ?_⟩
    · intro front back cut
      rw [(List.append_eq_nil_iff.mp cut.symm).1]
      exact Nat.le_refl _
    · intro front back cut
      simp at cut

theorem depthAfter_balance {depth : Nat} {character : Char}
    (closable : depth = 0 → isClosing character = false) (text : Text) :
    depth + openings (character :: text) + closings text =
      depthAfter depth character + openings text + closings (character :: text) := by
  rw [depthAfter_eq, openings, openings, closings, closings, List.countP_cons, List.countP_cons]
  by_cases opening : isOpening character = true
  · simp only [opening, isClosing_of_isOpening opening, ↓reduceIte, Bool.false_eq_true]
    omega
  · by_cases closing : isClosing character = true
    · have positive : depth ≠ 0 := fun zero => by simp [closable zero] at closing
      simp only [opening, closing, ↓reduceIte, Bool.false_eq_true]
      omega
    · simp only [opening, closing, ↓reduceIte, Bool.false_eq_true]
      omega

theorem closes_cons (depth : Nat) (character : Char) (rest : Text) :
    Closes depth (character :: rest) ↔
      (depth = 0 → character ≠ ',' ∧ isClosing character = false) ∧
        Closes (depthAfter depth character) rest := by
  constructor
  · intro closes
    have closable : depth = 0 → isClosing character = false := by
      intro zero
      have first := closes.within [character] rest rfl
      rw [Bool.eq_false_iff]
      intro closing
      have unopened : isOpening character = false := by
        rw [Bool.eq_false_iff]
        intro opening
        simp [isClosing_of_isOpening opening] at closing
      simp [closings, openings, closing, unopened, zero] at first
    have balance := depthAfter_balance closable
    refine ⟨fun zero => ⟨?_, closable zero⟩, ?_, ?_, ?_⟩
    · rintro rfl
      have outside := closes.enclosed [] rest rfl
      simp [closings, openings, zero] at outside
    · rintro front back rfl
      have whole := closes.within (character :: front) back rfl
      have here := balance front
      omega
    · have whole := closes.level
      have here := balance rest
      omega
    · rintro front back rfl
      have whole := closes.enclosed (character :: front) back rfl
      have here := balance front
      omega
  · rintro ⟨start, closes⟩
    have balance := depthAfter_balance fun zero => (start zero).2
    refine ⟨?_, ?_, ?_⟩
    · intro front back cut
      cases front with
      | nil => exact Nat.zero_le _
      | cons first front =>
          obtain ⟨rfl, rfl⟩ := List.cons.inj cut
          have later := closes.within front back rfl
          have here := balance front
          omega
    · have later := closes.level
      have here := balance rest
      omega
    · intro front back cut
      cases front with
      | nil =>
          obtain ⟨rfl, _⟩ := List.cons.inj cut
          have positive : depth ≠ 0 := fun zero => (start zero).1 rfl
          simp only [closings, openings, List.countP_nil]
          omega
      | cons first front =>
          obtain ⟨rfl, rfl⟩ := List.cons.inj cut
          have later := closes.enclosed front back rfl
          have here := balance front
          omega

instance decidableCloses : (depth : Nat) → (text : Text) → Decidable (Closes depth text)
  | depth, [] => decidable_of_iff _ (closes_nil depth).symm
  | depth, character :: rest =>
    have := decidableCloses (depthAfter depth character) rest
    decidable_of_iff _ (closes_cons depth character rest).symm

instance (text : Text) : Decidable (IsBalanced text) := decidableCloses 0 text

theorem Closes.append {depth : Nat} {left right : Text} (first : Closes depth left)
    (second : IsBalanced right) : Closes depth (left ++ right) := by
  induction left generalizing depth with
  | nil =>
      obtain rfl := (closes_nil depth).mp first
      exact second
  | cons character rest ih =>
      rw [closes_cons] at first
      rw [List.cons_append, closes_cons]
      exact ⟨first.1, ih first.2⟩

def isMark (character : Char) : Bool :=
  isOpening character || isClosing character || character = ','

theorem isBlank_of_isMark {character : Char} (mark : isMark character = true) :
    Text.isBlank character = false := by
  simp only [isMark, isOpening, isClosing, Bool.or_eq_true, List.contains_iff_mem, List.mem_cons,
    List.not_mem_nil, or_false, decide_eq_true_eq] at mark
  rcases mark with ((rfl | rfl | rfl) | (rfl | rfl | rfl)) | rfl <;> decide

def IsFlat (text : Text) : Prop := ∀ character ∈ text, isMark character = false

instance (text : Text) : Decidable (IsFlat text) :=
  decidable_of_iff (text.all (!isMark ·) = true) (by simp [IsFlat])

theorem isFlat_of_isBlank {text : Text} (blank : ∀ character ∈ text, Text.isBlank character = true) :
    IsFlat text := by
  intro character member
  rw [Bool.eq_false_iff]
  intro mark
  have kept := blank character member
  rw [isBlank_of_isMark mark] at kept
  cases kept

theorem IsFlat.isBalanced {text : Text} (flat : IsFlat text) : IsBalanced text := by
  unfold IsBalanced
  induction text with
  | nil => exact (closes_nil 0).mpr rfl
  | cons character rest ih =>
      rw [IsFlat, List.forall_mem_cons] at flat
      obtain ⟨plain, others⟩ := flat
      simp only [isMark, Bool.or_eq_false_iff, decide_eq_false_iff_not] at plain
      rw [closes_cons, depthAfter_eq, plain.1.1, plain.1.2]
      exact ⟨fun _ => ⟨plain.2, rfl⟩, ih others⟩

/-- A text that closes its brackets stays in one piece, whatever comes behind it. -/
theorem pieces_append {depth : Nat} {text : Text} (closes : Closes depth text) {behind first : Text}
    {others : List Text} (cut : pieces 0 behind = first :: others) :
    pieces depth (text ++ behind) = (text ++ first) :: others := by
  induction text generalizing depth with
  | nil =>
      obtain rfl := (closes_nil depth).mp closes
      exact cut
  | cons character rest ih =>
      rw [closes_cons] at closes
      have inside : ¬(decide (character = ',') && depth == 0) = true := by
        rw [Bool.and_eq_true, decide_eq_true_eq, beq_iff_eq]
        rintro ⟨comma, zero⟩
        exact (closes.1 zero).1 comma
      rw [List.cons_append, pieces, if_neg inside, ih closes.2]
      rfl

theorem pieces_of_isBalanced {text : Text} (balanced : IsBalanced text) :
    pieces 0 text = [text] := by
  have empty : pieces 0 [] = [[]] := rfl
  simpa using pieces_append balanced empty

theorem pieces_intercalate {parts : List Text} (nonempty : parts ≠ [])
    (balanced : ∀ part ∈ parts, IsBalanced part) :
    pieces 0 (List.intercalate [','] parts) = parts := by
  induction parts with
  | nil => exact absurd rfl nonempty
  | cons part rest ih =>
      rw [List.forall_mem_cons] at balanced
      cases rest with
      | nil => simpa [List.intercalate] using pieces_of_isBalanced balanced.1
      | cons next rest =>
          have others := ih (List.cons_ne_nil _ _) balanced.2
          have comma : pieces 0 (',' :: List.intercalate [','] (next :: rest)) =
              [] :: next :: rest := by rw [pieces, others]; rfl
          have apart : List.intercalate [','] (part :: next :: rest) =
              part ++ ',' :: List.intercalate [','] (next :: rest) := by simp [List.intercalate]
          rw [apart, pieces_append balanced.1 comma, List.append_nil]

theorem mem_of_isAttributed {text : Text} (attributed : isAttributed true text = true) :
    ']' ∈ text := by
  induction text with
  | nil => cases attributed
  | cons character rest ih =>
      simp only [isAttributed, ↓reduceIte, Bool.and_eq_true, decide_eq_true_eq] at attributed
      by_cases closed : character = ']'
      · simp [closed]
      · simp only [ne_eq, closed, not_false_eq_true, decide_true] at attributed
        exact List.mem_cons_of_mem _ (ih attributed.2)

/-- An attribute ends with the first bracket that closes, so none reaches beyond an attributed text. -/
theorem dropAttributes_append {inside : Bool} {text : Text}
    (attributed : isAttributed inside text = true) (behind : Text) :
    dropAttributes inside (text ++ behind) =
      dropAttributes inside text ++ dropAttributes false behind := by
  induction text generalizing inside with
  | nil =>
      obtain rfl : inside = false := by simpa [isAttributed] using attributed
      rfl
  | cons character rest ih =>
      rw [List.cons_append, dropAttributes, dropAttributes]
      rw [isAttributed] at attributed
      split
      · next opened =>
          rw [if_pos opened, Bool.and_eq_true] at attributed
          exact ih attributed.2
      · next outside =>
          rw [if_neg outside] at attributed
          by_cases opening : character = '['
          · rw [if_pos opening] at attributed
            have closed := mem_of_isAttributed attributed
            simp only [opening, closed, List.contains_eq_mem, List.mem_append, true_or, decide_true,
              Bool.and_self, ↓reduceIte]
            exact ih attributed
          · rw [if_neg opening, Bool.and_eq_true] at attributed
            simp only [opening, decide_false, Bool.false_and, Bool.false_eq_true, ↓reduceIte]
            rw [ih attributed.2, List.cons_append]

theorem not_mem_dropAttributes {inside : Bool} {text : Text}
    (attributed : isAttributed inside text = true) : '=' ∉ dropAttributes inside text := by
  induction text generalizing inside with
  | nil => simp [dropAttributes]
  | cons character rest ih =>
      rw [dropAttributes]
      rw [isAttributed] at attributed
      split
      · next opened =>
          rw [if_pos opened, Bool.and_eq_true] at attributed
          exact ih attributed.2
      · next outside =>
          rw [if_neg outside] at attributed
          by_cases opening : character = '['
          · rw [if_pos opening] at attributed
            simp only [opening, mem_of_isAttributed attributed, List.contains_eq_mem, decide_true,
              Bool.and_self, ↓reduceIte]
            exact ih attributed
          · rw [if_neg opening] at attributed
            simp only [Bool.and_eq_true, decide_eq_true_eq] at attributed
            simp only [opening, decide_false, Bool.false_and, Bool.false_eq_true, ↓reduceIte]
            rw [List.mem_cons, not_or]
            exact ⟨Ne.symm attributed.1.2, ih attributed.2⟩

theorem dropAttributes_plain {text : Text} (plain : '[' ∉ text) (behind : Text) :
    dropAttributes false (text ++ behind) = text ++ dropAttributes false behind := by
  induction text with
  | nil => rfl
  | cons character rest ih =>
      rw [List.mem_cons, not_or] at plain
      have opening : ¬(decide (character = '[') && (rest ++ behind).contains ']') = true := by
        simp [Ne.symm plain.1]
      rw [List.cons_append, dropAttributes, if_neg Bool.false_ne_true, if_neg opening, ih plain.2]
      rfl

def declared (piece : Text) : Text := (dropAttributes false piece).takeWhile (· ≠ '=')

theorem name?_eq (piece : Text) :
    name? piece = ((declared piece).words.filter fun word => !modifiers.contains word).getLast? :=
  rfl

/-- A parameter as it is written. Before the name stand attributes, modifiers and a type; behind it
there may be a default value. -/
structure Parameter where
  before : Text
  gap : Text
  name : Text
  after : Text
  default : Text
  balanced : IsBalanced before
  attributed : isAttributed false before = true
  apart : before ≠ [] → gap ≠ []
  blank : ∀ character ∈ gap ++ after, Text.isBlank character = true
  word : Text.IsWord name
  flat : IsFlat name
  assigned : '=' ∉ name
  unmodified : name ∉ modifiers
  value : default = [] ∨ ∃ value, default = '=' :: value ∧ IsBalanced value

namespace Parameter

def text (parameter : Parameter) : Text :=
  parameter.before ++ (parameter.gap ++ (parameter.name ++ (parameter.after ++ parameter.default)))

theorem blank_gap (parameter : Parameter) :
    ∀ character ∈ parameter.gap, Text.isBlank character = true :=
  fun character member => parameter.blank character (List.mem_append_left _ member)

theorem blank_after (parameter : Parameter) :
    ∀ character ∈ parameter.after, Text.isBlank character = true :=
  fun character member => parameter.blank character (List.mem_append_right _ member)

theorem isBalanced_default (parameter : Parameter) : IsBalanced parameter.default := by
  rcases parameter.value with empty | ⟨value, assigned, balanced⟩
  · rw [empty]
    decide
  · have sign : IsBalanced ['='] := by decide
    rw [assigned]
    exact sign.append balanced

theorem isBalanced_text (parameter : Parameter) : IsBalanced parameter.text := by
  have after := (isFlat_of_isBlank parameter.blank_after).isBalanced.append
    parameter.isBalanced_default
  have named := parameter.flat.isBalanced.append after
  have gapped := (isFlat_of_isBlank parameter.blank_gap).isBalanced.append named
  exact parameter.balanced.append gapped

theorem declared_text (parameter : Parameter) :
    declared parameter.text =
      dropAttributes false parameter.before ++
        (parameter.gap ++ (parameter.name ++ parameter.after)) := by
  have unopened {part : Text} (flat : IsFlat part) : '[' ∉ part := by
    intro member
    exact absurd (flat _ member) (by decide)
  have gap := unopened (isFlat_of_isBlank parameter.blank_gap)
  have name := unopened parameter.flat
  have after := unopened (isFlat_of_isBlank parameter.blank_after)
  rw [declared, text, dropAttributes_append parameter.attributed, dropAttributes_plain gap,
    dropAttributes_plain name, dropAttributes_plain after]
  have unassigned {part : Text} (blank : ∀ character ∈ part, Text.isBlank character = true) :
      '=' ∉ part := fun member => absurd (blank _ member) (by decide)
  have plain : '=' ∉ dropAttributes false parameter.before ++
      (parameter.gap ++ (parameter.name ++ parameter.after)) := by
    simp only [List.mem_append, not_or]
    exact ⟨not_mem_dropAttributes parameter.attributed, unassigned parameter.blank_gap,
      parameter.assigned, unassigned parameter.blank_after⟩
  have rest : (dropAttributes false parameter.default).takeWhile (· ≠ '=') = [] := by
    rcases parameter.value with empty | ⟨value, assigned, _⟩
    · rw [empty]
      rfl
    · rw [assigned, dropAttributes]
      simp
  have whole : (dropAttributes false parameter.before ++ (parameter.gap ++ (parameter.name ++
      parameter.after)) ++ dropAttributes false parameter.default).takeWhile (· ≠ '=') =
        dropAttributes false parameter.before ++
          (parameter.gap ++ (parameter.name ++ parameter.after)) := by
    rw [List.takeWhile_append_of_pos (Declaration.differs_of_not_mem plain), rest, List.append_nil]
  simpa only [List.append_assoc] using whole

theorem name?_text (parameter : Parameter) : name? parameter.text = some parameter.name := by
  have alone : Text.words parameter.name = [parameter.name] :=
    Text.words_eq_singleton parameter.word.1 parameter.word.2
  have words : Text.words (dropAttributes false parameter.before ++
      (parameter.gap ++ (parameter.name ++ parameter.after))) =
        Text.words (dropAttributes false parameter.before) ++ [parameter.name] := by
    by_cases apart : parameter.gap = []
    · have nothing : parameter.before = [] := not_not.mp fun before => parameter.apart before apart
      rw [nothing, apart, dropAttributes, List.nil_append, List.nil_append,
        Text.words_append_blank parameter.blank_after, alone]
      rfl
    · rw [Text.words_append_gap apart parameter.blank_gap,
        Text.words_append_blank parameter.blank_after, alone]
  have kept : [parameter.name].filter (fun word => !modifiers.contains word) = [parameter.name] := by
    simp [parameter.unmodified]
  rw [name?_eq, parameter.declared_text, words, List.filter_append, kept, List.getLast?_concat]

end Parameter

/-- The names in a list of parameters are read as they were written, in order. -/
theorem names_join (parameters : List Parameter) :
    names (List.intercalate [','] (parameters.map Parameter.text)) =
      parameters.map Parameter.name := by
  cases parameters with
  | nil => decide
  | cons first rest =>
      have nonempty : (first :: rest).map Parameter.text ≠ [] := by simp
      have balanced : ∀ part ∈ (first :: rest).map Parameter.text, IsBalanced part := by
        intro part member
        obtain ⟨parameter, _, rfl⟩ := List.mem_map.mp member
        exact parameter.isBalanced_text
      have named : name? ∘ Parameter.text = some ∘ Parameter.name :=
        funext Parameter.name?_text
      rw [names, pieces_intercalate nonempty balanced, List.filterMap_map, named,
        List.filterMap_eq_map]

def countsParameter : Parameter where
  before := "[Range(1, 5, Min = 0)] ref Dictionary<string, int>".toList
  gap := " ".toList
  name := "counts".toList
  after := []
  default := []
  balanced := by decide
  attributed := by decide
  apart := by decide
  blank := List.all_eq_true.mp (by decide)
  word := by decide
  flat := by decide
  assigned := by decide
  unmodified := by decide
  value := .inl rfl

def pairsParameter : Parameter where
  before := " (int, int)[]".toList
  gap := " ".toList
  name := "pairs".toList
  after := " ".toList
  default := "= Of<int>([], 2)".toList
  balanced := by decide
  attributed := by decide
  apart := by decide
  blank := List.all_eq_true.mp (by decide)
  word := by decide
  flat := by decide
  assigned := by decide
  unmodified := by decide
  value := .inr ⟨" Of<int>([], 2)".toList, by decide, by decide⟩

theorem names_join_counts :
    [countsParameter, pairsParameter].map Parameter.text =
        ["[Range(1, 5, Min = 0)] ref Dictionary<string, int> counts".toList,
          " (int, int)[] pairs = Of<int>([], 2)".toList] ∧
      names (List.intercalate [',']
        ["[Range(1, 5, Min = 0)] ref Dictionary<string, int> counts".toList,
          " (int, int)[] pairs = Of<int>([], 2)".toList]) = ["counts".toList, "pairs".toList] := by
  have written : [countsParameter, pairsParameter].map Parameter.text =
      ["[Range(1, 5, Min = 0)] ref Dictionary<string, int> counts".toList,
        " (int, int)[] pairs = Of<int>([], 2)".toList] := by decide
  refine ⟨written, ?_⟩
  rw [← written]
  exact names_join [countsParameter, pairsParameter]

end Parameters

end DocComments
