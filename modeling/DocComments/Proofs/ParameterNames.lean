import DocComments.Proofs.ParameterMarks

/-! Names read from any text that stands for a parameter list, however its brackets and line
breaks are placed. The text is cut at its commas outside all brackets and only there
(`isCutBetween_iff`), and each name is one visible word (`names_plain`). -/

namespace DocComments

namespace Parameters

def depthBehind (depth : Nat) (text : Text) : Nat := text.foldl depthAfter depth

theorem pieces_ne_nil (depth : Nat) (text : Text) : pieces depth text ≠ [] := by
  cases text with
  | nil => simp [pieces]
  | cons character rest =>
      rw [pieces]
      split
      · simp
      · unfold Text.extendFirst
        split <;> simp

theorem intercalate_extendFirst {parts : List Text} (nonempty : parts ≠ []) (character : Char) :
    List.intercalate [','] (Text.extendFirst character parts) =
      character :: List.intercalate [','] parts := by
  obtain ⟨part, rest, rfl⟩ := List.exists_cons_of_ne_nil nonempty
  cases rest with
  | nil => simp [Text.extendFirst]
  | cons next rest => simp [Text.extendFirst]

theorem extendFirst_append {above : List Text} (nonempty : above ≠ []) (character : Char)
    (below : List Text) :
    Text.extendFirst character (above ++ below) = Text.extendFirst character above ++ below := by
  obtain ⟨part, rest, rfl⟩ := List.exists_cons_of_ne_nil nonempty
  rfl

theorem intercalate_pieces (depth : Nat) (text : Text) :
    List.intercalate [','] (pieces depth text) = text := by
  induction text generalizing depth with
  | nil => rfl
  | cons character rest ih =>
      rw [pieces]
      split
      · next outside =>
          simp only [Bool.and_eq_true, decide_eq_true_eq] at outside
          rw [List.intercalate_cons_of_ne_nil (pieces_ne_nil _ _), ih, outside.1]
          rfl
      · rw [intercalate_extendFirst (pieces_ne_nil _ _), ih]

/-- A comma cuts behind a text that leaves no bracket open, and what comes then is read on its own. -/
theorem pieces_comma {depth : Nat} {front : Text} (closed : depthBehind depth front = 0)
    (back : Text) :
    pieces depth (front ++ ',' :: back) = pieces depth front ++ pieces 0 back := by
  induction front generalizing depth with
  | nil =>
      obtain rfl : depth = 0 := closed
      rfl
  | cons character rest ih =>
      rw [List.cons_append, pieces, pieces]
      split
      · next outside =>
          simp only [Bool.and_eq_true, decide_eq_true_eq, beq_iff_eq] at outside
          obtain ⟨rfl, rfl⟩ := outside
          have later : depthBehind 0 rest = 0 := closed
          rw [ih later]
          rfl
      · have later : depthBehind (depthAfter depth character) rest = 0 := closed
        rw [ih later, extendFirst_append (pieces_ne_nil _ _)]

theorem depthBehind_of_pieces {depth : Nat} {text part : Text} {others below : List Text}
    (cut : pieces depth text = part :: others ++ below) (more : below ≠ []) :
    depthBehind depth (List.intercalate [','] (part :: others)) = 0 := by
  -- Only the first part is read with brackets open, so the depth changes with the text.
  induction text generalizing depth part others with
  | nil =>
      have lengths := congrArg List.length cut
      have positive := List.length_pos_iff.mpr more
      simp only [pieces, List.length_cons, List.length_nil, List.length_append] at lengths
      omega
  | cons character rest ih =>
      rw [pieces] at cut
      split at cut
      · next outside =>
          simp only [Bool.and_eq_true, decide_eq_true_eq, beq_iff_eq] at outside
          obtain ⟨rfl, rfl⟩ := outside
          obtain ⟨rfl, later⟩ := List.cons.inj cut
          cases others with
          | nil => rfl
          | cons next others =>
              rw [List.intercalate_cons_cons]
              exact ih later
      · obtain ⟨first, behind, same⟩ :=
          List.exists_cons_of_ne_nil (pieces_ne_nil (depthAfter depth character) rest)
        rw [same] at cut
        obtain ⟨rfl, rfl⟩ := List.cons.inj cut
        have start : List.intercalate [','] ((character :: first) :: others) =
            character :: List.intercalate [','] (first :: others) :=
          intercalate_extendFirst (List.cons_ne_nil first others) character
        rw [start]
        exact ih same

def IsCutBetween (front back : Text) (parts : List Text) : Prop :=
  ∃ above below, above ≠ [] ∧ below ≠ [] ∧ parts = above ++ below ∧
    List.intercalate [','] above = front ∧ List.intercalate [','] below = back

theorem isCutBetween_iff (text front back : Text) :
    IsCutBetween front back (pieces 0 text) ↔
      text = front ++ ',' :: back ∧ depthBehind 0 front = 0 := by
  constructor
  · rintro ⟨above, below, some, more, cut, rfl, rfl⟩
    constructor
    · have whole := intercalate_append_of_ne_nil [','] some more
      rwa [← cut, intercalate_pieces, List.append_assoc] at whole
    · obtain ⟨part, others, rfl⟩ := List.exists_cons_of_ne_nil some
      exact depthBehind_of_pieces cut more
  · rintro ⟨rfl, closed⟩
    exact ⟨pieces 0 front, pieces 0 back, pieces_ne_nil _ _, pieces_ne_nil _ _,
      pieces_comma closed back, intercalate_pieces _ _, intercalate_pieces _ _⟩

def isNamed (piece : Text) : Bool :=
  (declared piece).words.any fun word => !modifiers.contains word

theorem isSome_name? (piece : Text) : (name? piece).isSome = isNamed piece := by
  rw [Bool.eq_iff_iff, name?_eq, List.getLast?_isSome, ne_eq, List.filter_eq_nil_iff, isNamed,
    List.any_eq_true]
  simp only [not_forall, not_not, exists_prop]

theorem length_names (params : Text) : (names params).length = (pieces 0 params).countP isNamed := by
  rw [names, List.length_filterMap_eq_countP]
  exact congrArg (List.countP · _) (funext isSome_name?)

structure IsPlain (name : Text) : Prop where
  nonempty : name ≠ []
  visible : ∀ character ∈ name, Text.isBlank character = false
  unassigned : '=' ∉ name
  unmodified : name ∉ modifiers

theorem isPlain_of_name? {piece name : Text} (named : name? piece = some name) : IsPlain name := by
  obtain ⟨unmodified, above, below, cut, _⟩ := (name?_eq_some_iff piece name).mp named
  have word : name ∈ Text.words (declared piece) := by simp [cut]
  refine ⟨Text.ne_nil_of_mem_words word, Text.isBlank_of_mem_words word, ?_, unmodified⟩
  intro assigned
  obtain ⟨first, last, rfl⟩ := List.append_of_mem assigned
  obtain ⟨front, back, split, _⟩ := Text.exists_of_words cut
  have inside : '=' ∈ declared piece := by simp [split]
  simpa using List.mem_takeWhile_imp inside

theorem IsPlain.not_mem {name : Text} {character : Char} (plain : IsPlain name)
    (blank : Text.isBlank character = true) : character ∉ name := by
  intro member
  rw [plain.visible character member] at blank
  cases blank

/-- A parameter list, whatever it is like, is cut at its commas outside all brackets. A piece has one name
at most, and no name has blanks or line breaks. -/
theorem names_plain (params : Text) :
    List.intercalate [','] (pieces 0 params) = params ∧
      (∀ front back, IsCutBetween front back (pieces 0 params) ↔
        params = front ++ ',' :: back ∧ depthBehind 0 front = 0) ∧
      (names params).length = (pieces 0 params).countP isNamed ∧
      (names params).length ≤ (pieces 0 params).length ∧
      ∀ name ∈ names params, IsPlain name ∧ '\n' ∉ name ∧ '\r' ∉ name := by
  refine ⟨intercalate_pieces 0 params, isCutBetween_iff params, length_names params,
    List.length_filterMap_le _ _, ?_⟩
  intro name member
  obtain ⟨piece, _, named⟩ := List.mem_filterMap.mp member
  have plain := isPlain_of_name? named
  exact ⟨plain, plain.not_mem (by decide), plain.not_mem (by decide)⟩

theorem names_plain_ragged :
    pieces 0 ")in a\r\nb,[X]ref this,\u3000c>= d(,e".toList =
        [")in a\r\nb".toList, "[X]ref this".toList, "\u3000c>= d(,e".toList] ∧
      names ")in a\r\nb,[X]ref this,\u3000c>= d(,e".toList = ["b".toList, "c>".toList] ∧
      IsPlain "b".toList ∧ IsPlain "c>".toList := by
  have read : names ")in a\r\nb,[X]ref this,\u3000c>= d(,e".toList = ["b".toList, "c>".toList] := by
    decide
  have plain := (names_plain ")in a\r\nb,[X]ref this,\u3000c>= d(,e".toList).2.2.2.2
  rw [read] at plain
  exact ⟨by decide, read, (plain _ (by simp)).1, (plain _ (by simp)).1⟩

end Parameters

end DocComments
