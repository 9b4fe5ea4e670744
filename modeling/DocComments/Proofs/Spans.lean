import DocComments.Proofs.Blocks

/-! The lines that the search for a block goes through, by their numbers. The search never reads
beyond the file (`searchUp_eq`), and the block that it finds is the only one with the properties
of `IsSpanAbove`. -/

namespace DocComments

namespace Block

def readLine (lines : List Text) (number : Nat) : Except OutOfRange Text :=
  match lines[number]? with
  | some line => .ok line
  | none => .error ⟨number + 1, lines.length⟩

def firstLine (lines : List Text) : Nat → Except OutOfRange Nat
  | 0 => .ok 0
  | number + 1 => do
    let line ← readLine lines number
    if isDocLine line then firstLine lines number else .ok (number + 1)

def searchUp (lines : List Text) : Nat → Except OutOfRange (Option Span)
  | 0 => .ok none
  | number + 1 => do
    let line ← readLine lines number
    if isDocLine line then
      let start ← firstLine lines number
      return some ⟨start, number⟩
    else if isPassedOver line then searchUp lines number
    else return none

def IsLine (kind : Text → Bool) (lines : List Text) (number : Nat) : Prop :=
  ∃ line, lines[number]? = some line ∧ kind line = true

structure IsSpanAbove (lines : List Text) (declaration : Nat) (span : Span) : Prop where
  ordered : span.start ≤ span.last
  above : span.last < declaration
  docs : ∀ number, span.start ≤ number → number ≤ span.last → IsLine isDocLine lines number
  whole : span.start = 0 ∨ ¬IsLine isDocLine lines (span.start - 1)
  passed : ∀ number, span.last < number → number < declaration → IsLine isPassedOver lines number

variable {lines : List Text} {number : Nat} {line : Text}

theorem readLine_eq (found : lines[number]? = some line) : readLine lines number = .ok line := by
  rw [readLine, found]

theorem isLine_iff {kind : Text → Bool} (found : lines[number]? = some line) :
    IsLine kind lines number ↔ kind line = true := by
  simp [IsLine, found]

theorem not_isDocLine_of_isPassedOver (skipped : isPassedOver line = true) :
    ¬isDocLine line = true := by
  intro doc
  rw [isPassedOver_of_isDocLine doc] at skipped
  cases skipped

theorem not_isLine_doc (passed : IsLine isPassedOver lines number) :
    ¬IsLine isDocLine lines number := by
  obtain ⟨line, found, skipped⟩ := passed
  rw [isLine_iff found]
  exact not_isDocLine_of_isPassedOver skipped

theorem exists_line_of_succ (inside : number + 1 ≤ lines.length) :
    ∃ line, lines[number]? = some line :=
  ⟨lines[number], List.getElem?_eq_getElem inside⟩

theorem reverse_take_succ (found : lines[number]? = some line) :
    (lines.take (number + 1)).reverse = line :: (lines.take number).reverse := by
  rw [List.take_add_one, found]
  simp

section Steps

variable (found : lines[number]? = some line)

include found

theorem firstLine_doc (doc : isDocLine line = true) :
    firstLine lines (number + 1) = firstLine lines number := by
  rw [firstLine, readLine_eq found]
  exact if_pos doc

theorem firstLine_other (doc : ¬isDocLine line = true) :
    firstLine lines (number + 1) = .ok (number + 1) := by
  rw [firstLine, readLine_eq found]
  exact if_neg doc

theorem searchUp_doc (doc : isDocLine line = true) {start : Nat}
    (first : firstLine lines number = .ok start) :
    searchUp lines (number + 1) = .ok (some ⟨start, number⟩) := by
  rw [searchUp, readLine_eq found, first]
  exact if_pos doc

theorem searchUp_passed (skipped : isPassedOver line = true) :
    searchUp lines (number + 1) = searchUp lines number := by
  rw [searchUp, readLine_eq found]
  exact (if_neg (not_isDocLine_of_isPassedOver skipped)).trans (if_pos skipped)

theorem searchUp_other (doc : ¬isDocLine line = true) (skipped : ¬isPassedOver line = true) :
    searchUp lines (number + 1) = .ok none := by
  rw [searchUp, readLine_eq found]
  exact (if_neg doc).trans (if_neg skipped)

end Steps

theorem firstLine_eq (inside : number ≤ lines.length) :
    firstLine lines number = .ok ((lines.take number).reverse.dropWhile isDocLine).length := by
  induction number with
  | zero => rfl
  | succ number ih =>
      obtain ⟨line, found⟩ := exists_line_of_succ inside
      rw [reverse_take_succ found]
      by_cases doc : isDocLine line = true
      · rw [firstLine_doc found doc, ih (by omega), List.dropWhile_cons_of_pos doc]
      · rw [firstLine_other found doc, List.dropWhile_cons_of_neg doc, List.length_cons,
          List.length_reverse, List.length_take, Nat.min_eq_left (by omega)]

/-- The search by line numbers and the one through the lines above give the same answer, also where both
fail. -/
theorem searchUp_eq (lines : List Text) (declaration : Nat) :
    searchUp lines declaration = spanAbove lines declaration := by
  by_cases inside : declaration ≤ lines.length
  · rw [spanAbove, if_pos inside]
    induction declaration with
    | zero => rfl
    | succ number ih =>
        obtain ⟨line, found⟩ := exists_line_of_succ inside
        have passes : (isBlankLine line || isAttributeLine line) = isPassedOver line := rfl
        rw [reverse_take_succ found, nearest?, passes]
        by_cases doc : isDocLine line = true
        · have length : (lines.take number).length = number := by
            rw [List.length_take, Nat.min_eq_left (by omega)]
          rw [searchUp_doc found doc (firstLine_eq (by omega)), if_pos doc, Option.map_some,
            List.length_reverse, length]
        · rw [if_neg doc]
          by_cases skipped : isPassedOver line = true
          · rw [searchUp_passed found skipped, ih (by omega), if_pos skipped]
          · rw [searchUp_other found doc skipped, if_neg skipped, Option.map_none]
  · rw [spanAbove, if_neg inside]
    cases declaration with
    | zero => omega
    | succ number =>
        have beyond : lines[number]? = none := List.getElem?_eq_none (by omega)
        rw [searchUp, readLine, beyond]
        rfl

def IsRunStart (lines : List Text) (number start : Nat) : Prop :=
  start ≤ number ∧ (∀ other, start ≤ other → other < number → IsLine isDocLine lines other) ∧
    (start = 0 ∨ ¬IsLine isDocLine lines (start - 1))

theorem isRunStart_zero (start : Nat) : IsRunStart lines 0 start ↔ start = 0 := by
  constructor
  · intro first
    exact Nat.le_zero.mp first.1
  · rintro rfl
    exact ⟨Nat.le_refl 0, fun other _ below => absurd below (Nat.not_lt_zero other), Or.inl rfl⟩

theorem isRunStart_doc (doc : IsLine isDocLine lines number) (start : Nat) :
    IsRunStart lines (number + 1) start ↔ IsRunStart lines number start := by
  constructor
  · rintro ⟨below, docs, whole⟩
    refine ⟨?_, fun other lower upper => docs other lower (by omega), whole⟩
    rcases whole with rfl | whole
    · exact Nat.zero_le number
    · -- A run that starts right below a documentation line is not whole.
      have different : start ≠ number + 1 := by
        rintro rfl
        exact whole doc
      omega
  · rintro ⟨below, docs, whole⟩
    refine ⟨by omega, fun other lower upper => ?_, whole⟩
    by_cases same : other = number
    · rwa [same]
    · exact docs other lower (by omega)

theorem isRunStart_other (doc : ¬IsLine isDocLine lines number) (start : Nat) :
    IsRunStart lines (number + 1) start ↔ start = number + 1 := by
  constructor
  · rintro ⟨below, docs, _⟩
    by_cases inside : start ≤ number
    · exact absurd (docs number inside (by omega)) doc
    · omega
  · rintro rfl
    exact ⟨Nat.le_refl _, fun other lower upper => absurd upper (by omega), Or.inr doc⟩

theorem isSpanAbove_doc (doc : IsLine isDocLine lines number) (span : Span) :
    IsSpanAbove lines (number + 1) span ↔
      span.last = number ∧ IsRunStart lines number span.start := by
  constructor
  · intro block
    have last : span.last = number := by
      by_cases higher : span.last < number
      · exact absurd doc (not_isLine_doc (block.passed number higher (by omega)))
      · have above := block.above
        omega
    refine ⟨last, ?_⟩
    rw [← isRunStart_doc doc]
    exact ⟨by have := block.ordered; omega,
      fun other lower upper => block.docs other lower (by omega), block.whole⟩
  · rintro ⟨rfl, first⟩
    have docs := ((isRunStart_doc doc span.start).mpr first).2.1
    exact ⟨first.1, Nat.lt_succ_self _, fun other lower upper => docs other lower (by omega),
      first.2.2, fun other lower upper => absurd upper (by omega)⟩

theorem isSpanAbove_passed (skipped : IsLine isPassedOver lines number) (span : Span) :
    IsSpanAbove lines (number + 1) span ↔ IsSpanAbove lines number span := by
  constructor
  · intro block
    have above : span.last < number := by
      have below := block.above
      have different : span.last ≠ number := by
        rintro rfl
        exact not_isLine_doc skipped (block.docs span.last block.ordered (Nat.le_refl _))
      omega
    exact ⟨block.ordered, above, block.docs, block.whole,
      fun other lower upper => block.passed other lower (by omega)⟩
  · intro block
    have above := block.above
    refine ⟨block.ordered, by omega, block.docs, block.whole, fun other lower upper => ?_⟩
    by_cases same : other = number
    · rwa [same]
    · exact block.passed other lower (by omega)

theorem not_isSpanAbove_other (doc : ¬IsLine isDocLine lines number)
    (skipped : ¬IsLine isPassedOver lines number) (span : Span) :
    ¬IsSpanAbove lines (number + 1) span := by
  intro block
  have above := block.above
  by_cases last : span.last = number
  · exact doc (last ▸ block.docs span.last block.ordered (Nat.le_refl _))
  · exact skipped (block.passed number (by omega) (by omega))

theorem exists_firstLine (inside : number ≤ lines.length) :
    ∃ first, firstLine lines number = .ok first ∧
      ∀ start, IsRunStart lines number start ↔ start = first := by
  induction number with
  | zero => exact ⟨0, rfl, isRunStart_zero⟩
  | succ number ih =>
      obtain ⟨line, found⟩ := exists_line_of_succ inside
      by_cases doc : isDocLine line = true
      · obtain ⟨first, run, unique⟩ := ih (by omega)
        refine ⟨first, (firstLine_doc found doc).trans run, fun start => ?_⟩
        rw [isRunStart_doc ((isLine_iff found).mpr doc), unique]
      · exact ⟨number + 1, firstLine_other found doc,
          isRunStart_other (mt (isLine_iff found).mp doc)⟩

theorem exists_searchUp {declaration : Nat} (inside : declaration ≤ lines.length) :
    ∃ result, searchUp lines declaration = .ok result ∧
      ∀ span, result = some span ↔ IsSpanAbove lines declaration span := by
  induction declaration with
  | zero =>
      refine ⟨none, rfl, fun span => iff_of_false nofun ?_⟩
      intro block
      exact absurd block.above (Nat.not_lt_zero _)
  | succ number ih =>
      obtain ⟨line, found⟩ := exists_line_of_succ inside
      by_cases doc : isDocLine line = true
      · obtain ⟨first, run, unique⟩ := exists_firstLine (Nat.le_of_succ_le inside)
        refine ⟨_, searchUp_doc found doc run, fun span => ?_⟩
        rw [isSpanAbove_doc ((isLine_iff found).mpr doc), unique]
        constructor
        · intro same
          rw [← Option.some.inj same]
          exact ⟨rfl, rfl⟩
        · rintro ⟨rfl, rfl⟩
          rfl
      · by_cases skipped : isPassedOver line = true
        · obtain ⟨result, search, exactly⟩ := ih (by omega)
          refine ⟨result, (searchUp_passed found skipped).trans search, fun span => ?_⟩
          rw [isSpanAbove_passed ((isLine_iff found).mpr skipped), exactly]
        · refine ⟨none, searchUp_other found doc skipped, fun span => iff_of_false nofun ?_⟩
          exact not_isSpanAbove_other (mt (isLine_iff found).mp doc)
            (mt (isLine_iff found).mp skipped) span

theorem IsSpanAbove.of_blank {gap last declaration : Nat} (below : gap < last)
    (above : last < declaration) (blank : IsLine isBlankLine lines gap)
    (docs : ∀ number, gap < number → number ≤ last → IsLine isDocLine lines number)
    (passed : ∀ number, last < number → number < declaration → IsLine isPassedOver lines number) :
    IsSpanAbove lines declaration ⟨gap + 1, last⟩ where
  ordered := below
  above := above
  docs := docs
  whole := by
    obtain ⟨line, found, empty⟩ := blank
    exact Or.inr (not_isLine_doc ⟨line, found, by rw [isPassedOver, empty, Bool.true_or]⟩)
  passed := passed

/-- For a declaration inside the file the search gives an answer and reads no line that is not there. The
answer is the only block right above the declaration, and a blank line cuts it off from what is above. -/
theorem spanAbove_exact {declaration : Nat} (inside : declaration ≤ lines.length) :
    ∃ result, spanAbove lines declaration = .ok result ∧ searchUp lines declaration = .ok result ∧
      (∀ span, result = some span ↔ IsSpanAbove lines declaration span) ∧
      (result = none ↔ ¬∃ span, IsSpanAbove lines declaration span) ∧
      (∀ span other, IsSpanAbove lines declaration span → IsSpanAbove lines declaration other →
        span = other) ∧
      ∀ gap last, gap < last → last < declaration → IsLine isBlankLine lines gap →
        (∀ number, gap < number → number ≤ last → IsLine isDocLine lines number) →
        (∀ number, last < number → number < declaration → IsLine isPassedOver lines number) →
        result = some ⟨gap + 1, last⟩ := by
  obtain ⟨result, search, exactly⟩ := exists_searchUp inside
  refine ⟨result, (searchUp_eq lines declaration).symm.trans search, search, exactly, ?_, ?_, ?_⟩
  · simp only [← exactly, ← Option.ne_none_iff_exists', ne_eq, not_not]
  · intro span other first second
    exact Option.some.inj (((exactly span).mpr first).symm.trans ((exactly other).mpr second))
  · intro gap last below above blank docs passed
    exact (exactly _).mpr (IsSpanAbove.of_blank below above blank docs passed)

def splitBlocks : List Text :=
  ["/// <summary>\n".toList, "/// upper\n".toList, "\n".toList,
    "/// <summary>lower</summary>\n".toList, "/// <returns>x</returns>\n".toList,
    "public int Get()\n".toList]

theorem spanAbove_splitBlocks :
    5 ≤ splitBlocks.length ∧ spanAbove splitBlocks 5 = .ok (some ⟨3, 4⟩) ∧
      ∀ span, IsSpanAbove splitBlocks 5 span → span = ⟨3, 4⟩ := by
  have inside : 5 ≤ splitBlocks.length := by decide
  obtain ⟨result, found, _, exactly, _, _, lower⟩ := spanAbove_exact inside
  have same : result = some ⟨3, 4⟩ := by
    refine lower 2 4 (by decide) (by decide) ⟨_, rfl, by decide⟩ ?_ ?_
    · intro number below above
      obtain rfl | rfl : number = 3 ∨ number = 4 := by omega
      · exact ⟨_, rfl, by decide⟩
      · exact ⟨_, rfl, by decide⟩
    · intro number below above
      omega
  rw [same] at found exactly
  refine ⟨inside, found, fun span block => ?_⟩
  exact (Option.some.inj ((exactly span).mpr block)).symm

end Block

end DocComments
