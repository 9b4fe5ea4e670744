import DocComments.Text.Blank
import Mathlib.Data.List.TakeWhile

/-! Words read from the front of a text: the first word begins behind the leading blanks and goes
on to the next blank. -/

namespace DocComments

theorem takeWhile_append_stop {α : Type} {predicate : α → Bool} {body rest : List α}
    (stop : ∀ value ∈ rest.head?, predicate value = false) :
    (body ++ rest).takeWhile predicate = body.takeWhile predicate := by
  induction body with
  | nil =>
      cases rest with
      | nil => rfl
      | cons value rest => simp [stop value rfl]
  | cons value body ih => simp only [List.cons_append, List.takeWhile_cons, ih]

theorem dropWhile_append_stop {α : Type} {predicate : α → Bool} {body rest : List α}
    (stop : ∀ value ∈ rest.head?, predicate value = false) :
    (body ++ rest).dropWhile predicate = body.dropWhile predicate ++ rest := by
  induction body with
  | nil =>
      cases rest with
      | nil => rfl
      | cons value rest => simp [stop value rfl]
  | cons value body ih =>
      simp only [List.cons_append, List.dropWhile_cons, ih]
      split <;> rfl

theorem any_head?_dropWhile {α : Type} (predicate : α → Bool) (values : List α) :
    (values.dropWhile predicate).head?.any predicate = false := by
  have stop := List.head?_dropWhile_not predicate values
  cases first : (values.dropWhile predicate).head? with
  | none => rfl
  | some value =>
      rw [first] at stop
      exact stop

theorem not_of_mem_splitOnP {α : Type} {predicate : α → Bool} (values : List α) :
    ∀ piece ∈ values.splitOnP predicate, ∀ value ∈ piece, predicate value = false := by
  induction values with
  | nil => simp [List.splitOnP_nil]
  | cons first rest ih =>
      rw [List.splitOnP_cons_eq_if_modifyHead]
      split
      · simpa using ih
      · next inside =>
          cases cut : rest.splitOnP predicate with
          | nil => simp
          | cons next others =>
              rw [cut] at ih
              simpa [inside] using ih

theorem intercalate_append_of_ne_nil {α : Type} (separator : List α) {above below : List (List α)}
    (front : above ≠ []) (back : below ≠ []) :
    separator.intercalate (above ++ below) =
      separator.intercalate above ++ separator ++ separator.intercalate below := by
  induction above with
  | nil => exact absurd rfl front
  | cons part rest ih =>
      by_cases alone : rest = []
      · rw [alone, List.singleton_append, List.intercalate_cons_of_ne_nil back,
          List.intercalate_singleton]
      · have more : rest ++ below ≠ [] := by simp [alone]
        rw [List.cons_append, List.intercalate_cons_of_ne_nil more, ih alone,
          List.intercalate_cons_of_ne_nil alone]
        simp only [List.append_assoc]

namespace Text

theorem infix_append_of_head {part left : Text} {first : Char} (head : part.head? = some first)
    (outside : first ∉ left) (right : Text) : part <:+: left ++ right ↔ part <:+: right := by
  obtain ⟨rest, rfl⟩ := List.head?_eq_some_iff.mp head
  rw [List.infix_append_iff_ne_nil]
  constructor
  · rintro (inside | inside | ⟨front, back, nonempty, _, cut, ending, _⟩)
    · exact (outside (inside.subset List.mem_cons_self)).elim
    · exact inside
    · obtain ⟨other, front, rfl⟩ := List.exists_cons_of_ne_nil nonempty
      obtain ⟨rfl, _⟩ := List.cons.inj cut
      exact (outside (ending.subset List.mem_cons_self)).elim
  · exact fun inside => Or.inr (Or.inl inside)

theorem dropBlanks_append {left : Text} (visible : left.dropBlanks ≠ []) (right : Text) :
    dropBlanks (left ++ right) = left.dropBlanks ++ right := by
  unfold dropBlanks at visible ⊢
  rw [List.dropWhile_append, if_neg (by simpa using visible)]

theorem words_solid {character : Char} (solid : isBlank character = false) (rest : Text) :
    words (character :: rest) =
      (character :: rest.takeWhile fun next => !isBlank next) ::
        words (rest.dropWhile fun next => !isBlank next) := by
  have single : words (character :: rest.takeWhile fun next => !isBlank next) =
      [character :: rest.takeWhile fun next => !isBlank next] := by
    apply words_eq_singleton (by simp)
    intro other member
    rcases List.mem_cons.mp member with rfl | member
    · exact solid
    · simpa using List.mem_takeWhile_imp member
  have cut : (character :: rest.takeWhile fun next => !isBlank next) ++
      (rest.dropWhile fun next => !isBlank next) = character :: rest := by simp
  have stop := List.head?_dropWhile_not (fun next => !isBlank next) rest
  cases behind : rest.dropWhile fun next => !isBlank next with
  | nil =>
      rw [behind, List.append_nil] at cut
      rw [words_nil, ← single, cut]
  | cons blank below =>
      rw [behind] at cut stop
      have separates : isBlank blank = true := by simpa using stop
      rw [words_cons separates, ← cut, words_append_cons separates, single]
      rfl

theorem words_head_start {text word : Text} {rest : List Text} (cut : words text = word :: rest) :
    word <+: text.dropBlanks := by
  induction text with
  | nil => simp [words_nil] at cut
  | cons character below ih =>
      unfold dropBlanks at ih ⊢
      rw [List.dropWhile_cons]
      split
      · next blank => exact ih (by rwa [words_cons blank] at cut)
      · next visible =>
          rw [words_solid (by simpa using visible)] at cut
          rw [← (List.cons.inj cut).1]
          exact (List.prefix_cons_inj character).mpr (List.takeWhile_prefix _)

theorem isBlank_of_mem_words {text word : Text} (member : word ∈ words text) :
    ∀ character ∈ word, isBlank character = false :=
  not_of_mem_splitOnP text word (List.mem_filter.mp member).1

end Text

end DocComments
