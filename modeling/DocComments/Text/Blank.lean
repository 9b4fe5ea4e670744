import DocComments.Text

/-! White space and the words between it. -/

namespace DocComments

namespace Text

def blankRanges : List (Nat × Nat) :=
  [(0x09, 0x0D), (0x20, 0x20), (0x85, 0x85), (0xA0, 0xA0), (0x1680, 0x1680), (0x2000, 0x200A),
    (0x2028, 0x2029), (0x202F, 0x202F), (0x205F, 0x205F), (0x3000, 0x3000)]

def isBlank (character : Char) : Bool := inRanges blankRanges character

def dropBlanks (text : Text) : Text := text.dropWhile isBlank

def words (text : Text) : List Text :=
  (text.splitOnP isBlank).filter fun word => !word.isEmpty

theorem ne_nil_of_mem_words {text word : Text} (member : word ∈ text.words) : word ≠ [] := by
  have kept := (List.mem_filter.mp member).2
  rintro rfl
  simp at kept

theorem words_nil : words [] = [] := by simp [words, List.splitOnP_nil]

theorem words_append_cons {blank : Char} (separates : isBlank blank = true) (left right : Text) :
    words (left ++ blank :: right) = words left ++ words right := by
  unfold words
  rw [List.splitOnP_append_cons left right separates, List.filter_append]

theorem words_cons {blank : Char} (separates : isBlank blank = true) (text : Text) :
    words (blank :: text) = words text := by
  simpa [words_nil] using words_append_cons separates [] text

theorem words_eq_singleton {word : Text} (nonempty : word ≠ [])
    (solid : ∀ character ∈ word, isBlank character = false) : words word = [word] := by
  rw [words, List.splitOnP_eq_singleton solid]
  simp [nonempty]

end Text

end DocComments
