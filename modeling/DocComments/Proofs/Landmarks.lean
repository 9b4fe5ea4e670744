import DocComments.Block.Location
import DocComments.Declaration.Recognition
import DocComments.Proofs.Lines
import DocComments.Proofs.Words

/-! How a declaration line begins. Its first word is an access word, so it is neither
documentation nor blank nor an attribute, and the search for a block that belongs to a lower line
ends at it. -/

namespace DocComments

namespace Declaration

def HasAccess (line : Text) : Prop := ∃ access ∈ accessWords, access <+: line.dropBlanks

theorem HasAccess.extend {start line : Text} (access : HasAccess start) (below : start <+: line) :
    HasAccess line := by
  obtain ⟨word, member, first⟩ := access
  obtain ⟨rest, rfl⟩ := below
  have visible : start.dropBlanks ≠ [] := by
    intro empty
    rw [empty, List.prefix_nil] at first
    subst first
    exact absurd member (by decide)
  refine ⟨word, member, ?_⟩
  rw [Text.dropBlanks_append visible]
  exact first.trans (List.prefix_append _ _)

theorem hasAccess_of_afterAccess? {line : Text} {rest : List Text}
    (found : afterAccess? line.words = some rest) : HasAccess line := by
  cases cut : line.words with
  | nil => simp [cut, afterAccess?] at found
  | cons word others =>
      simp only [cut, afterAccess?] at found
      split at found
      · next member =>
          exact ⟨word, by simpa using member, Text.words_head_start cut⟩
      · simp at found

theorem splitAt?_start {mark : Char} {text head behind : Text}
    (found : splitAt? mark text = some (head, behind)) : head <+: text := by
  unfold splitAt? at found
  split at found
  · simp at found
  · simp only [Option.some.injEq, Prod.mk.injEq] at found
    rw [← found.1]
    exact List.takeWhile_prefix _

theorem hasAccess_of_type? {line : Text} {declaration : Declaration}
    (found : type? line = some declaration) : HasAccess line := by
  simp only [type?, Option.bind_eq_bind, Option.bind_eq_some_iff] at found
  obtain ⟨rest, access, _⟩ := found
  exact hasAccess_of_afterAccess? access

theorem hasAccess_of_method? {line : Text} {declaration : Declaration}
    (found : method? line = some declaration) : HasAccess line := by
  simp only [method?, Option.bind_eq_bind, Option.bind_eq_some_iff] at found
  obtain ⟨⟨head, opened⟩, cut, rest, access, _⟩ := found
  exact (hasAccess_of_afterAccess? access).extend (splitAt?_start cut)

theorem hasAccess_of_property? {line : Text} {declaration : Declaration}
    (found : property? line = some declaration) : HasAccess line := by
  simp only [property?, Option.bind_eq_bind] at found
  split at found
  · cases found
  · simp only [Option.bind_eq_some_iff] at found
    obtain ⟨⟨head, behind⟩, cut, words, access, _⟩ := found
    exact (hasAccess_of_afterAccess? access).extend (splitAt?_start cut)

/-- A declaration begins with an access word, also when its terminator is left on the line. -/
theorem hasAccess_of_recognize? {line : Text} {declaration : Declaration}
    (found : recognize? line.dropTerminator = some declaration) : HasAccess line := by
  suffices HasAccess line.dropTerminator from this.extend line.dropTerminator_start
  simp only [recognize?, Option.orElse_eq_orElse, Option.orElse_eq_or, Option.or_eq_some_iff] at found
  rcases found with found | ⟨_, found | ⟨_, found⟩⟩
  · exact hasAccess_of_type? found
  · exact hasAccess_of_method? found
  · exact hasAccess_of_property? found

end Declaration

namespace Block

def isPassedOver (line : Text) : Bool := isBlankLine line || isAttributeLine line

theorem isBlankLine_iff (line : Text) : isBlankLine line = true ↔ line.dropBlanks = [] := by
  rw [isBlankLine, List.all_eq_true, Text.dropBlanks, List.dropWhile_eq_nil_iff]

theorem isPassedOver_eq_false {line : Text} {first : Char}
    (start : line.dropBlanks.head? = some first) (different : first ≠ '[') :
    isPassedOver line = false := by
  have visible : ¬isBlankLine line = true := by
    rw [isBlankLine_iff]
    intro empty
    simp [empty] at start
  simp [isPassedOver, visible, isAttributeLine, start, different]

theorem head?_of_isDocLine {line : Text} (doc : isDocLine line = true) :
    line.dropBlanks.head? = some '/' := by
  rw [isDocLine, List.isPrefixOf_iff_prefix] at doc
  obtain ⟨rest, same⟩ := doc
  rw [← same]
  rfl

theorem isPassedOver_of_isDocLine {line : Text} (doc : isDocLine line = true) :
    isPassedOver line = false :=
  isPassedOver_eq_false (head?_of_isDocLine doc) (by decide)

theorem head?_of_hasAccess {line : Text} (access : Declaration.HasAccess line) :
    line.dropBlanks.head? = some 'p' ∨ line.dropBlanks.head? = some 'i' := by
  obtain ⟨word, member, rest, same⟩ := access
  rw [← same]
  simp only [Declaration.accessWords, List.mem_cons, List.not_mem_nil, or_false] at member
  rcases member with rfl | rfl
  · exact Or.inl rfl
  · exact Or.inr rfl

theorem isDocLine_of_hasAccess {line : Text} (access : Declaration.HasAccess line) :
    isDocLine line = false := by
  rw [Bool.eq_false_iff]
  intro doc
  have start := head?_of_isDocLine doc
  rcases head?_of_hasAccess access with other | other
  · simp [other] at start
  · simp [other] at start

theorem isPassedOver_of_hasAccess {line : Text} (access : Declaration.HasAccess line) :
    isPassedOver line = false := by
  rcases head?_of_hasAccess access with start | start
  · exact isPassedOver_eq_false start (by decide)
  · exact isPassedOver_eq_false start (by decide)

end Block

end DocComments
