import DocComments.Declaration.Recognition
import DocComments.Proofs.Words

/-! The first word of a text and what is behind it. The words of a text are read off one by one,
also where the text is cut off at a later character (`words_takeWhile_dropBlanks`). -/

namespace DocComments

namespace Text

def isSolid (character : Char) : Bool := !isBlank character

theorem isSolid_iff {character : Char} : isSolid character = true ↔ isBlank character = false := by
  simp [isSolid]

def IsWord (text : Text) : Prop := text ≠ [] ∧ ∀ character ∈ text, isBlank character = false

instance (text : Text) : Decidable (IsWord text) :=
  decidable_of_iff (text ≠ [] ∧ text.all isSolid = true) (by simp [IsWord, isSolid])

def StartsVisibly (text : Text) : Prop := text.head?.any isBlank = false

def firstWord (text : Text) : Text := text.takeWhile isSolid

def behindWord (text : Text) : Text := text.dropWhile isSolid

def nextWord (text : Text) : Text := (behindWord text).dropBlanks

def IsFirst (word text : Text) : Prop := firstWord text = word ∧ behindWord text ≠ []

instance (word text : Text) : Decidable (IsFirst word text) :=
  inferInstanceAs (Decidable (firstWord text = word ∧ behindWord text ≠ []))

theorem firstWord_append_behindWord (text : Text) : firstWord text ++ behindWord text = text :=
  List.takeWhile_append_dropWhile

theorem isBlank_of_mem_firstWord {text : Text} {character : Char}
    (member : character ∈ firstWord text) : isBlank character = false :=
  isSolid_iff.mp (List.mem_takeWhile_imp member)

theorem isBlank_head_behindWord {text : Text} (more : behindWord text ≠ []) :
    (behindWord text).head?.any isBlank = true := by
  have stop := List.head?_dropWhile_not isSolid text
  unfold behindWord at more ⊢
  cases rest : text.dropWhile isSolid with
  | nil => exact absurd rest more
  | cons character below =>
      rw [rest] at stop
      simpa [isSolid] using stop

theorem startsVisibly_dropBlanks (text : Text) : StartsVisibly text.dropBlanks :=
  any_head?_dropWhile isBlank text

theorem startsVisibly_nextWord (text : Text) : StartsVisibly (nextWord text) :=
  startsVisibly_dropBlanks _

theorem dropBlanks_of_visible {text : Text} (visible : StartsVisibly text) :
    text.dropBlanks = text := by
  cases text with
  | nil => rfl
  | cons character below =>
      have solid : isBlank character = false := by simpa [StartsVisibly] using visible
      simp [dropBlanks, solid]

theorem dropBlanks_append_of_blank {gap : Text}
    (blank : ∀ character ∈ gap, isBlank character = true) (text : Text) :
    dropBlanks (gap ++ text) = dropBlanks text :=
  List.dropWhile_append_of_pos blank

theorem length_dropBlanks_le (text : Text) : text.dropBlanks.length ≤ text.length :=
  (List.dropWhile_suffix isBlank).length_le

theorem length_nextWord_lt {text : Text} (more : behindWord text ≠ []) :
    (nextWord text).length < text.length := by
  have front := isBlank_head_behindWord more
  have whole := congrArg List.length (firstWord_append_behindWord text)
  rw [List.length_append] at whole
  unfold nextWord
  cases rest : behindWord text with
  | nil => exact absurd rest more
  | cons character below =>
      rw [rest] at front whole
      have blank : isBlank character = true := by simpa using front
      have shorter := length_dropBlanks_le below
      have dropped : dropBlanks (character :: below) = dropBlanks below := by simp [dropBlanks, blank]
      rw [dropped]
      simp only [List.length_cons] at whole
      omega

theorem words_dropBlanks (text : Text) : words text.dropBlanks = words text := by
  induction text with
  | nil => rfl
  | cons character below ih =>
      unfold dropBlanks at ih ⊢
      by_cases blank : isBlank character = true
      · rw [List.dropWhile_cons_of_pos blank, ih, words_cons blank]
      · rw [List.dropWhile_cons_of_neg blank]

theorem words_append_of_blank {gap : Text} (blank : ∀ character ∈ gap, isBlank character = true)
    (text : Text) : words (gap ++ text) = words text := by
  rw [← words_dropBlanks, dropBlanks_append_of_blank blank, words_dropBlanks]

theorem words_append_gap {gap : Text} (nonempty : gap ≠ [])
    (blank : ∀ character ∈ gap, isBlank character = true) (left right : Text) :
    words (left ++ (gap ++ right)) = words left ++ words right := by
  obtain ⟨first, others, rfl⟩ := List.exists_cons_of_ne_nil nonempty
  rw [List.forall_mem_cons] at blank
  rw [List.cons_append, words_append_cons blank.1, words_append_of_blank blank.2]

theorem words_append_blank {gap : Text} (blank : ∀ character ∈ gap, isBlank character = true)
    (text : Text) : words (text ++ gap) = words text := by
  by_cases nothing : gap = []
  · rw [nothing, List.append_nil]
  · simpa [words_nil] using words_append_gap nothing blank text []

theorem words_eq_nil_iff (text : Text) : words text = [] ↔ text.dropBlanks = [] := by
  rw [← words_dropBlanks]
  constructor
  · intro none
    cases shown : text.dropBlanks with
    | nil => rfl
    | cons character below =>
        have visible := startsVisibly_dropBlanks text
        rw [shown] at none visible
        rw [words_solid (by simpa [StartsVisibly] using visible)] at none
        cases none
  · intro empty
    rw [empty, words_nil]

theorem words_of_visible {text : Text} (visible : StartsVisibly text) (nonempty : text ≠ []) :
    words text = firstWord text :: words (behindWord text) := by
  cases text with
  | nil => exact absurd rfl nonempty
  | cons character below =>
      have solid : isBlank character = false := by simpa [StartsVisibly] using visible
      rw [words_solid solid, firstWord, behindWord, List.takeWhile_cons_of_pos (isSolid_iff.mpr solid),
        List.dropWhile_cons_of_pos (isSolid_iff.mpr solid)]
      rfl

theorem words_eq_cons {text word : Text} {rest : List Text} (visible : StartsVisibly text)
    (cut : words text = word :: rest) :
    firstWord text = word ∧ words (behindWord text) = rest := by
  have nonempty : text ≠ [] := by
    rintro rfl
    simp [words_nil] at cut
  rw [words_of_visible visible nonempty] at cut
  exact List.cons.inj cut

theorem firstWord_append {word : Text} (solid : ∀ character ∈ word, isBlank character = false)
    {behind : Text} (blank : behind ≠ [] → behind.head?.any isBlank = true) :
    firstWord (word ++ behind) = word ∧ behindWord (word ++ behind) = behind := by
  have inside : ∀ character ∈ word, isSolid character = true :=
    fun character member => isSolid_iff.mpr (solid character member)
  unfold firstWord behindWord
  cases behind with
  | nil => simp [List.takeWhile_eq_self_iff.mpr inside, List.dropWhile_eq_nil_iff.mpr inside]
  | cons character below =>
      have stop : isSolid character = false := by
        simpa [isSolid] using blank (by simp)
      rw [List.takeWhile_append_of_pos inside, List.dropWhile_append_of_pos inside,
        List.takeWhile_cons_of_neg (by simp [stop]), List.dropWhile_cons_of_neg (by simp [stop]),
        List.append_nil]
      exact ⟨rfl, rfl⟩

section Classes

variable {accepts : Char → Bool}
  (visible : ∀ character, accepts character = true → isBlank character = false)

include visible

theorem not_accepts_head_behindWord {text : Text} :
    ∀ blank ∈ (behindWord text).head?, accepts blank = false := by
  intro blank first
  have more : behindWord text ≠ [] := by
    intro empty
    simp [empty] at first
  have separates := isBlank_head_behindWord more
  rw [Option.mem_def.mp first] at separates
  rw [Bool.eq_false_iff]
  intro accepted
  simp [visible blank accepted] at separates

theorem takeWhile_firstWord (text : Text) :
    (firstWord text).takeWhile accepts = text.takeWhile accepts := by
  rw [← takeWhile_append_stop (not_accepts_head_behindWord visible), firstWord_append_behindWord]

theorem dropWhile_firstWord (text : Text) :
    (firstWord text).dropWhile accepts ++ behindWord text = text.dropWhile accepts := by
  rw [← dropWhile_append_stop (not_accepts_head_behindWord visible), firstWord_append_behindWord]

theorem takeWhile_eq_firstWord {text : Text} (inside : (firstWord text).all accepts = true) :
    text.takeWhile accepts = firstWord text := by
  rw [← takeWhile_firstWord visible, List.takeWhile_eq_self_iff.mpr (List.all_eq_true.mp inside)]

/-- A run of visible characters that is not the first word ends within it. -/
theorem isBlank_head_dropWhile {text : Text} (outside : ¬(firstWord text).all accepts = true) :
    (text.dropWhile accepts).head?.any isBlank = false := by
  rw [Bool.eq_false_iff]
  intro blank
  have solid : ∀ character ∈ text.takeWhile accepts, isBlank character = false :=
    fun character member => visible character (List.mem_takeWhile_imp member)
  have cut := (firstWord_append solid fun _ => blank).1
  rw [List.takeWhile_append_dropWhile] at cut
  rw [cut] at outside
  exact outside List.all_takeWhile

end Classes

theorem IsFirst.next {word text : Text} (first : IsFirst word text) :
    ∃ blank below, text = word ++ blank :: below ∧ isBlank blank = true ∧
      nextWord text = dropBlanks below := by
  obtain ⟨rfl, more⟩ := first
  have front := isBlank_head_behindWord more
  have whole := firstWord_append_behindWord text
  unfold nextWord
  cases rest : behindWord text with
  | nil => exact absurd rest more
  | cons blank below =>
      rw [rest] at front whole
      have separates : isBlank blank = true := by simpa using front
      exact ⟨blank, below, whole.symm, separates, by simp [dropBlanks, separates]⟩

section Before

variable {inside : Char → Bool}
  (passes : ∀ character, isBlank character = true → inside character = true)

include passes

theorem words_takeWhile_dropBlanks (text : Text) :
    words (text.dropBlanks.takeWhile inside) = words (text.takeWhile inside) := by
  have blank : ∀ character ∈ text.takeWhile isBlank, isBlank character = true :=
    fun character member => List.mem_takeWhile_imp member
  have cut := words_append_of_blank blank (text.dropBlanks.takeWhile inside)
  rw [← List.takeWhile_append_of_pos fun character member => passes character (blank character member)]
    at cut
  rw [← cut, dropBlanks, List.takeWhile_append_dropWhile]

theorem dropWhile_dropBlanks (text : Text) :
    text.dropBlanks.dropWhile inside = text.dropWhile inside := by
  have through : ∀ character ∈ text.takeWhile isBlank, inside character = true :=
    fun character member => passes character (List.mem_takeWhile_imp member)
  have cut : (text.takeWhile isBlank ++ text.dropBlanks).dropWhile inside =
      text.dropBlanks.dropWhile inside := List.dropWhile_append_of_pos through
  rw [← cut, dropBlanks, List.takeWhile_append_dropWhile]

theorem IsFirst.words_takeWhile {word text : Text} (first : IsFirst word text) (nonempty : word ≠ [])
    (through : ∀ character ∈ word, inside character = true) :
    words (text.takeWhile inside) = word :: words ((nextWord text).takeWhile inside) := by
  have solid : ∀ character ∈ word, isBlank character = false := by
    rw [← first.1]
    exact fun character member => isBlank_of_mem_firstWord member
  obtain ⟨blank, below, whole, separates, next⟩ := first.next
  rw [next, words_takeWhile_dropBlanks passes, whole, List.takeWhile_append_of_pos through,
    List.takeWhile_cons_of_pos (passes blank separates), words_append_cons separates,
    words_eq_singleton nonempty solid]
  rfl

theorem IsFirst.dropWhile_next {word text : Text} (first : IsFirst word text)
    (through : ∀ character ∈ word, inside character = true) :
    (nextWord text).dropWhile inside = text.dropWhile inside := by
  obtain ⟨blank, below, whole, separates, next⟩ := first.next
  rw [next, dropWhile_dropBlanks passes, whole, List.dropWhile_append_of_pos through,
    List.dropWhile_cons_of_pos (passes blank separates)]

omit passes in
theorem startsVisibly_takeWhile {text : Text} (visible : StartsVisibly text) :
    StartsVisibly (text.takeWhile inside) := by
  cases text with
  | nil => exact visible
  | cons character below =>
      rw [List.takeWhile_cons]
      split
      · exact visible
      · rfl

omit passes in
theorem isFirst_of_words {text word : Text} {rest : List Text} (visible : StartsVisibly text)
    (cut : words (text.takeWhile inside) = word :: rest) (more : rest ≠ []) : IsFirst word text := by
  obtain ⟨first, others⟩ := words_eq_cons (startsVisibly_takeWhile visible) cut
  have nonempty : behindWord (text.takeWhile inside) ≠ [] := by
    intro empty
    rw [empty, words_nil] at others
    exact more others.symm
  have front := isBlank_head_behindWord nonempty
  have whole : text =
      word ++ (behindWord (text.takeWhile inside) ++ text.dropWhile inside) := by
    rw [← first, ← List.append_assoc, firstWord_append_behindWord, List.takeWhile_append_dropWhile]
  have solid : ∀ character ∈ word, isBlank character = false := by
    rw [← first]
    exact fun character member => isBlank_of_mem_firstWord member
  obtain ⟨blank, below, shown⟩ := List.exists_cons_of_ne_nil nonempty
  rw [shown] at front whole
  have separates : isBlank blank = true := by simpa using front
  have front' : (blank :: (below ++ text.dropWhile inside)).head?.any isBlank = true := by
    simpa using separates
  have parts := firstWord_append solid fun _ => front'
  rw [whole, List.cons_append]
  exact ⟨parts.1, by simp [parts.2]⟩

theorem words_takeWhile_single {word gap after : Text} (nonempty : word ≠ [])
    (solid : ∀ character ∈ word, isBlank character = false)
    (through : ∀ character ∈ word, inside character = true)
    (blank : ∀ character ∈ gap, isBlank character = true) (stop : after.head?.any inside = false) :
    words ((word ++ (gap ++ after)).takeWhile inside) = [word] ∧
      (word ++ (gap ++ after)).dropWhile inside = after := by
  have across : ∀ character ∈ gap, inside character = true :=
    fun character member => passes character (blank character member)
  have ended : after.takeWhile inside = [] ∧ after.dropWhile inside = after := by
    cases after with
    | nil => exact ⟨rfl, rfl⟩
    | cons character below =>
        have outside : ¬inside character = true := by simpa using stop
        rw [List.takeWhile_cons_of_neg outside, List.dropWhile_cons_of_neg outside]
        exact ⟨rfl, rfl⟩
  rw [List.takeWhile_append_of_pos through, List.takeWhile_append_of_pos across, ended.1,
    List.dropWhile_append_of_pos through, List.dropWhile_append_of_pos across, ended.2,
    List.append_nil]
  refine ⟨?_, rfl⟩
  cases gap with
  | nil => rw [List.append_nil, words_eq_singleton nonempty solid]
  | cons first others =>
      have only : words others = [] := by
        have none := words_append_of_blank (List.forall_mem_cons.mp blank).2 []
        rwa [List.append_nil, words_nil] at none
      rw [words_append_cons (List.forall_mem_cons.mp blank).1, words_eq_singleton nonempty solid, only]
      rfl

omit passes in
theorem exists_gap_of_words_single {text word : Text} (visible : StartsVisibly text)
    (cut : words (text.takeWhile inside) = [word]) :
    ∃ gap, text = word ++ (gap ++ text.dropWhile inside) ∧
      ∀ character ∈ gap, isBlank character = true := by
  obtain ⟨first, none⟩ := words_eq_cons (startsVisibly_takeWhile visible) cut
  refine ⟨behindWord (text.takeWhile inside), ?_, ?_⟩
  · rw [← first, ← List.append_assoc, firstWord_append_behindWord, List.takeWhile_append_dropWhile]
  · rw [words_eq_nil_iff] at none
    exact List.dropWhile_eq_nil_iff.mp none

end Before

end Text

end DocComments
