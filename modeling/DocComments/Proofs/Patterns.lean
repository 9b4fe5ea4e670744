import DocComments.Proofs.FirstWord

/-! Patterns of text and their matching by backtracking. Where what follows does not begin with a
character of the class, a repetition of the class has one way to match (`attempt_many_of_stops`);
where white space has to follow, a word can only be the first word of the text. -/

namespace DocComments

inductive Pattern where
  /-- One character of a class. -/
  | one (accepts : Char → Bool)
  | exactly (word : Text)
  /-- The place between a word character and one that is none, or an end of the text. -/
  | boundary
  /-- The end of the text. -/
  | finish
  | sequence (first second : Pattern)
  | either (first second : Pattern)
  | many (body : Pattern)
  /-- What `body` matches is noted under a number. -/
  | group (index : Nat) (body : Pattern)

/-- A place in a text: what was read, from the nearest character on, what is ahead, and the notes taken
so far. -/
structure Cursor where
  read : Text
  ahead : Text
  groups : List (Nat × Text)

namespace Cursor

def advance (cursor : Cursor) (count : Nat) : Cursor where
  read := (cursor.ahead.take count).reverse ++ cursor.read
  ahead := cursor.ahead.drop count
  groups := cursor.groups

def note (cursor : Cursor) (index : Nat) (text : Text) : Cursor :=
  { cursor with groups := (index, text) :: cursor.groups }

def readSince (cursor start : Cursor) : Text :=
  start.ahead.take (start.ahead.length - cursor.ahead.length)

def result (cursor : Cursor) : Option (List (Nat × Text)) := some cursor.groups

def past (cursor : Cursor) (accepts : Char → Bool) : Cursor :=
  cursor.advance (cursor.ahead.takeWhile accepts).length

def nextWord (cursor : Cursor) : Cursor := (cursor.past Text.isSolid).past Text.isBlank

@[simp] theorem ahead_advance (cursor : Cursor) (count : Nat) :
    (cursor.advance count).ahead = cursor.ahead.drop count := rfl

@[simp] theorem groups_advance (cursor : Cursor) (count : Nat) :
    (cursor.advance count).groups = cursor.groups := rfl

@[simp] theorem ahead_note (cursor : Cursor) (index : Nat) (text : Text) :
    (cursor.note index text).ahead = cursor.ahead := rfl

@[simp] theorem groups_note (cursor : Cursor) (index : Nat) (text : Text) :
    (cursor.note index text).groups = (index, text) :: cursor.groups := rfl

@[simp] theorem groups_past (cursor : Cursor) (accepts : Char → Bool) :
    (cursor.past accepts).groups = cursor.groups := rfl

@[simp] theorem ahead_past (cursor : Cursor) (accepts : Char → Bool) :
    (cursor.past accepts).ahead = cursor.ahead.dropWhile accepts := by
  have cut := congrArg (List.drop (cursor.ahead.takeWhile accepts).length)
    (List.takeWhile_append_dropWhile (p := accepts) (l := cursor.ahead))
  rw [List.drop_left] at cut
  rw [past, ahead_advance, cut]

@[simp] theorem ahead_nextWord (cursor : Cursor) :
    cursor.nextWord.ahead = Text.nextWord cursor.ahead := by
  rw [nextWord, ahead_past, ahead_past]
  rfl

@[simp] theorem groups_nextWord (cursor : Cursor) : cursor.nextWord.groups = cursor.groups := rfl

theorem startsVisibly_nextWord (cursor : Cursor) : Text.StartsVisibly cursor.nextWord.ahead := by
  rw [ahead_nextWord]
  exact Text.startsVisibly_nextWord _

theorem advance_zero (cursor : Cursor) : cursor.advance 0 = cursor := by simp [advance]

theorem advance_advance (cursor : Cursor) (first second : Nat) :
    (cursor.advance first).advance second = cursor.advance (first + second) := by
  simp [advance, List.take_add]

theorem readSince_past (cursor : Cursor) (accepts : Char → Bool) :
    (cursor.past accepts).readSince cursor = cursor.ahead.takeWhile accepts := by
  have whole := congrArg List.length
    (List.takeWhile_append_dropWhile (p := accepts) (l := cursor.ahead))
  rw [List.length_append] at whole
  have count : cursor.ahead.length - (cursor.ahead.dropWhile accepts).length =
      (cursor.ahead.takeWhile accepts).length := by omega
  rw [readSince, ahead_past, count]
  exact (List.prefix_iff_eq_take.mp (List.takeWhile_prefix accepts)).symm

theorem past_advance_one {cursor : Cursor} {accepts : Char → Bool} {character : Char} {rest : Text}
    (text : cursor.ahead = character :: rest) (accepted : accepts character = true) :
    (cursor.advance 1).past accepts = cursor.past accepts := by
  rw [past, past, advance_advance, ahead_advance, text, List.takeWhile_cons_of_pos accepted,
    List.drop_one, List.tail_cons, List.length_cons, Nat.add_comm]

end Cursor

namespace Pattern

def attempt {α : Type} : Pattern → Cursor → (Cursor → Option α) → Option α
  | one accepts, cursor, next =>
    if cursor.ahead.head?.any accepts then next (cursor.advance 1) else none
  | exactly word, cursor, next =>
    if word.isPrefixOf cursor.ahead then next (cursor.advance word.length) else none
  | boundary, cursor, next =>
    if cursor.read.head?.any Text.isWordCharacter != cursor.ahead.head?.any Text.isWordCharacter
    then next cursor else none
  | finish, cursor, next => if cursor.ahead.isEmpty then next cursor else none
  | sequence first second, cursor, next =>
    first.attempt cursor fun middle => second.attempt middle next
  | either first second, cursor, next =>
    (first.attempt cursor next).or (second.attempt cursor next)
  | many body, cursor, next =>
    (body.attempt cursor fun after =>
      if after.ahead.length < cursor.ahead.length then (many body).attempt after next
      else none).or (next cursor)
  | group index body, cursor, next =>
    body.attempt cursor fun after => next (after.note index (after.readSince cursor))
termination_by pattern cursor => (sizeOf pattern, cursor.ahead.length)

def firstMatch? (pattern : Pattern) (text : Text) : Option (List (Nat × Text)) :=
  pattern.attempt ⟨[], text, []⟩ Cursor.result

def row (patterns : List Pattern) : Pattern := patterns.foldr sequence (exactly [])

def oneOf (words : List Text) : Pattern :=
  words.foldr (fun word others => either (exactly word) others) (one fun _ => false)

def optional (body : Pattern) : Pattern := either body (exactly [])

def several (accepts : Char → Bool) : Pattern := sequence (one accepts) (many (one accepts))

def blanks : Pattern := many (one Text.isBlank)

def gap : Pattern := several Text.isBlank

def spaced (words : List Text) : Pattern := sequence (oneOf words) gap

section Attempts

variable {α : Type} {next : Cursor → Option α}

theorem attempt_exactly_nil (cursor : Cursor) : (exactly []).attempt cursor next = next cursor := by
  rw [attempt, List.length_nil, Cursor.advance_zero]
  rfl

theorem attempt_row_nil (cursor : Cursor) : (row []).attempt cursor next = next cursor :=
  attempt_exactly_nil cursor

theorem attempt_row_cons (first : Pattern) (others : List Pattern) (cursor : Cursor) :
    (row (first :: others)).attempt cursor next =
      first.attempt cursor fun middle => (row others).attempt middle next := by
  rw [row, List.foldr_cons, attempt]
  rfl

theorem attempt_optional (body : Pattern) (cursor : Cursor) :
    (optional body).attempt cursor next = (body.attempt cursor next).or (next cursor) := by
  rw [optional, attempt, attempt_exactly_nil]

/-- Where a repetition of a class need not stop before the last character of the class. -/
theorem attempt_many_one {accepts : Char → Bool} (cursor : Cursor)
    (longer : ∀ count < (cursor.ahead.takeWhile accepts).length,
      next (cursor.advance count) = none) :
    (many (one accepts)).attempt cursor next = next (cursor.past accepts) := by
  unfold Cursor.past
  generalize text : cursor.ahead = ahead at longer ⊢
  induction ahead generalizing cursor with
  | nil =>
      rw [attempt, attempt, text]
      simp [Cursor.advance_zero]
  | cons character rest ih =>
      rw [attempt, attempt, text]
      by_cases accepted : accepts character = true
      · have inside := List.takeWhile_cons_of_pos (l := rest) accepted
        rw [inside] at longer ⊢
        have here : next cursor = none := by
          rw [← cursor.advance_zero]
          exact longer 0 (by simp)
        have further : ∀ count < (rest.takeWhile accepts).length,
            next ((cursor.advance 1).advance count) = none := by
          intro count bound
          rw [Cursor.advance_advance]
          exact longer (1 + count) (by simp; omega)
        have later := ih (cursor.advance 1) (by simp [text]) further
        rw [Cursor.advance_advance] at later
        simp [accepted, text, here, later, Nat.add_comm]
      · rw [List.takeWhile_cons_of_neg accepted]
        simp [accepted, Cursor.advance_zero]

def Stops (accepts : Char → Bool) (next : Cursor → Option α) : Prop :=
  ∀ cursor : Cursor, cursor.ahead.head?.any accepts = true → next cursor = none

def NeedsBlank (next : Cursor → Option α) : Prop :=
  ∀ cursor : Cursor, cursor.ahead.head?.any Text.isBlank = false → next cursor = none

theorem head?_drop_takeWhile {accepts : Char → Bool} {text : Text} {count : Nat}
    (bound : count < (text.takeWhile accepts).length) :
    (text.drop count).head?.any accepts = true := by
  have cut := List.takeWhile_append_dropWhile (p := accepts) (l := text)
  rw [List.head?_drop, ← cut, List.getElem?_append_left bound, List.getElem?_eq_getElem bound,
    Option.any_some]
  exact List.mem_takeWhile_imp (List.getElem_mem bound)

theorem attempt_many_of_stops {accepts : Char → Bool} (stops : Stops accepts next)
    (cursor : Cursor) : (many (one accepts)).attempt cursor next = next (cursor.past accepts) := by
  apply attempt_many_one
  intro count bound
  exact stops _ (head?_drop_takeWhile bound)

theorem attempt_several {accepts : Char → Bool} (stops : Stops accepts next) (cursor : Cursor) :
    (several accepts).attempt cursor next =
      if cursor.ahead.head?.any accepts then next (cursor.past accepts) else none := by
  rw [several, attempt, attempt]
  split
  · next first =>
      rw [attempt_many_of_stops stops]
      cases text : cursor.ahead with
      | nil => simp [text] at first
      | cons character rest =>
          rw [Cursor.past_advance_one text (by simpa [text] using first)]
  · rfl

def IsVisible (pattern : Pattern) : Prop :=
  ∀ (α : Type) (next : Cursor → Option α) (cursor : Cursor),
    cursor.ahead.head?.any Text.isBlank = true → pattern.attempt cursor next = none

theorem needsBlank_gap : NeedsBlank fun cursor => gap.attempt cursor next := by
  intro cursor visible
  dsimp only
  rw [gap, several, attempt, attempt, visible]
  rfl

theorem NeedsBlank.note (needs : NeedsBlank next) (index : Nat) (text : Cursor → Text) :
    NeedsBlank fun cursor => next (cursor.note index (text cursor)) :=
  fun cursor visible => needs (cursor.note index (text cursor)) visible

theorem attempt_exactly_word {word : Text} (solid : Text.IsWord word)
    (needs : NeedsBlank next) (cursor : Cursor) :
    (exactly word).attempt cursor next =
      if Text.firstWord cursor.ahead = word then next (cursor.past Text.isSolid) else none := by
  rw [attempt]
  by_cases first : Text.firstWord cursor.ahead = word
  · have start : word.isPrefixOf cursor.ahead = true := by
      rw [List.isPrefixOf_iff_prefix, ← first]
      exact List.takeWhile_prefix _
    rw [if_pos start, if_pos first, ← first]
    rfl
  · rw [if_neg first]
    split
    · next start =>
        obtain ⟨behind, whole⟩ := List.isPrefixOf_iff_prefix.mp start
        apply needs
        rw [Cursor.ahead_advance, ← whole, List.drop_left, Bool.eq_false_iff]
        intro blank
        apply first
        rw [← whole]
        exact (Text.firstWord_append solid.2 fun _ => blank).1
    · rfl

theorem attempt_oneOf {words : List Text} (solid : ∀ word ∈ words, Text.IsWord word)
    (needs : NeedsBlank next) (cursor : Cursor) :
    (oneOf words).attempt cursor next =
      if words.contains (Text.firstWord cursor.ahead) then next (cursor.past Text.isSolid)
      else none := by
  induction words with
  | nil =>
      rw [oneOf, List.foldr_nil, attempt]
      simp
  | cons word others ih =>
      rw [List.forall_mem_cons] at solid
      have rest := ih solid.2
      rw [oneOf] at rest
      rw [oneOf, List.foldr_cons, attempt, attempt_exactly_word solid.1 needs, rest]
      by_cases first : Text.firstWord cursor.ahead = word
      · by_cases again : word ∈ others
        · simp [first, again]
        · simp [first, again]
      · simp [first]

theorem attempt_several_word {accepts : Char → Bool}
    (visible : ∀ character, accepts character = true → Text.isBlank character = false)
    (needs : NeedsBlank next) (cursor : Cursor) :
    (several accepts).attempt cursor next =
      if Text.firstWord cursor.ahead ≠ [] ∧ (Text.firstWord cursor.ahead).all accepts then
        next (cursor.past Text.isSolid)
      else none := by
  have stops : Stops accepts next := by
    intro other first
    apply needs
    cases text : other.ahead with
    | nil => rfl
    | cons character rest =>
        rw [text] at first
        simpa using visible character (by simpa using first)
  rw [attempt_several stops]
  by_cases inside : (Text.firstWord cursor.ahead).all accepts = true
  · have run := Text.takeWhile_eq_firstWord visible inside
    have same : cursor.past accepts = cursor.past Text.isSolid := by
      rw [Cursor.past, run]
      rfl
    have first : cursor.ahead.head?.any accepts = true ↔ Text.firstWord cursor.ahead ≠ [] := by
      rw [← run]
      cases cursor.ahead with
      | nil => simp
      | cons character rest => by_cases accepted : accepts character = true <;> simp [accepted]
    simp only [inside, same, first, and_true]
  · have outside : ¬(Text.firstWord cursor.ahead ≠ [] ∧
        (Text.firstWord cursor.ahead).all accepts = true) := fun word => inside word.2
    rw [if_neg outside]
    split
    · apply needs
      rw [Cursor.ahead_past]
      exact Text.isBlank_head_dropWhile visible inside
    · rfl

end Attempts

section Visible

theorem IsVisible.one {accepts : Char → Bool}
    (visible : ∀ character, accepts character = true → Text.isBlank character = false) :
    IsVisible (one accepts) := by
  intro α next cursor blank
  rw [attempt]
  cases text : cursor.ahead with
  | nil => simp
  | cons character rest =>
      have outside : ¬accepts character = true := by
        intro accepted
        simp [text, visible character accepted] at blank
      simp [outside]

theorem IsVisible.exactly {word : Text} (solid : Text.IsWord word) : IsVisible (exactly word) := by
  intro α next cursor blank
  rw [attempt, if_neg]
  intro start
  obtain ⟨behind, whole⟩ := List.isPrefixOf_iff_prefix.mp start
  obtain ⟨character, others, rfl⟩ := List.exists_cons_of_ne_nil solid.1
  have visible := solid.2 character (by simp)
  rw [← whole] at blank
  simp [visible] at blank

theorem IsVisible.sequence {first : Pattern} (visible : first.IsVisible) (second : Pattern) :
    IsVisible (sequence first second) := by
  intro α next cursor blank
  rw [attempt]
  exact visible _ _ cursor blank

theorem IsVisible.either {first second : Pattern} (left : first.IsVisible) (right : second.IsVisible) :
    IsVisible (either first second) := by
  intro α next cursor blank
  rw [attempt, left _ _ cursor blank, right _ _ cursor blank]
  rfl

theorem IsVisible.group {body : Pattern} (visible : body.IsVisible) (index : Nat) :
    IsVisible (group index body) := by
  intro α next cursor blank
  rw [attempt]
  exact visible _ _ cursor blank

theorem IsVisible.finish : IsVisible finish := by
  intro α next cursor blank
  rw [attempt]
  cases text : cursor.ahead with
  | nil => simp [text] at blank
  | cons character rest => rfl

theorem IsVisible.row_cons {first : Pattern} (visible : first.IsVisible) (others : List Pattern) :
    IsVisible (row (first :: others)) :=
  visible.sequence (row others)

theorem IsVisible.row_many {body : Pattern} {others : List Pattern} (visible : body.IsVisible)
    (rest : (row others).IsVisible) : IsVisible (row (many body :: others)) := by
  intro α next cursor blank
  rw [attempt_row_cons, attempt, visible _ _ cursor blank, rest _ _ cursor blank]
  rfl

theorem IsVisible.row_optional {body : Pattern} {others : List Pattern} (visible : body.IsVisible)
    (rest : (row others).IsVisible) : IsVisible (row (optional body :: others)) := by
  intro α next cursor blank
  rw [attempt_row_cons, attempt_optional, visible _ _ cursor blank, rest _ _ cursor blank]
  rfl

theorem IsVisible.oneOf {words : List Text} (solid : ∀ word ∈ words, Text.IsWord word) :
    IsVisible (oneOf words) := by
  induction words with
  | nil => exact IsVisible.one (by simp)
  | cons word others ih =>
      rw [List.forall_mem_cons] at solid
      exact IsVisible.either (IsVisible.exactly solid.1) (ih solid.2)

theorem IsVisible.spaced {words : List Text} (solid : ∀ word ∈ words, Text.IsWord word) :
    IsVisible (spaced words) :=
  IsVisible.sequence (IsVisible.oneOf solid) gap

end Visible

section Words

variable {α : Type} {next : Cursor → Option α} {words : List Text}

theorem IsVisible.stops {pattern : Pattern} (visible : pattern.IsVisible) :
    Stops Text.isBlank fun cursor => pattern.attempt cursor next :=
  fun cursor blank => visible α next cursor blank

theorem attempt_gap (stops : Stops Text.isBlank next) (cursor : Cursor) :
    gap.attempt cursor next =
      if cursor.ahead.head?.any Text.isBlank then next (cursor.past Text.isBlank) else none :=
  attempt_several stops cursor

theorem behindWord_ne_nil_iff (text : Text) :
    Text.behindWord text ≠ [] ↔ (Text.behindWord text).head?.any Text.isBlank = true := by
  constructor
  · exact Text.isBlank_head_behindWord
  · intro blank empty
    simp [empty] at blank

theorem attempt_spaced (solid : ∀ word ∈ words, Text.IsWord word)
    (stops : Stops Text.isBlank next) (cursor : Cursor) :
    (spaced words).attempt cursor next =
      if words.contains (Text.firstWord cursor.ahead) ∧ Text.behindWord cursor.ahead ≠ [] then
        next cursor.nextWord
      else none := by
  rw [spaced, attempt, attempt_oneOf solid needsBlank_gap, attempt_gap stops, Cursor.ahead_past]
  by_cases first : words.contains (Text.firstWord cursor.ahead) = true
  · simp only [first, true_and, behindWord_ne_nil_iff]
    rfl
  · have missing : Text.firstWord cursor.ahead ∉ words := by simpa using first
    simp [missing]

/-- Leading words of a kind are read as often as they come; only if nothing matches behind them, or behind
fewer of them, the first of them is left for what follows. -/
theorem attempt_many_spaced (solid : ∀ word ∈ words, Text.IsWord word)
    (stops : Stops Text.isBlank next) (cursor : Cursor) :
    (many (spaced words)).attempt cursor next =
      if words.contains (Text.firstWord cursor.ahead) ∧ Text.behindWord cursor.ahead ≠ [] then
        ((many (spaced words)).attempt cursor.nextWord next).or (next cursor)
      else next cursor := by
  have visible := IsVisible.spaced solid
  have again : Stops Text.isBlank fun after =>
      if after.ahead.length < cursor.ahead.length then (many (spaced words)).attempt after next
      else none := by
    intro after blank
    dsimp only
    split
    · rw [attempt, visible _ _ after blank, stops after blank]
      rfl
    · rfl
  rw [attempt, attempt_spaced solid again]
  split
  · next word =>
      have shorter : cursor.nextWord.ahead.length < cursor.ahead.length := by
        rw [Cursor.ahead_nextWord]
        exact Text.length_nextWord_lt word.2
      rw [if_pos shorter]
  · rfl

end Words

end Pattern

end DocComments
