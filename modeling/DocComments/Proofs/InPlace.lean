import DocComments.Proofs.Splicing
import Mathlib.Data.List.Nodup

/-! Edits carried out one at a time, each in the lines that the one before it left. From the last
edit to the first the line numbers stay right, so this gives the same text as one pass over the
file (`applyAll_eq_inPlace`). -/

namespace DocComments

namespace Edit

def carryOut (file : List Text) : Edit → List Text
  | replace start last lines => file.take start ++ (lines ++ file.drop (last + 1))
  | insert position lines => file.take position ++ (lines ++ file.drop position)

def fromLast (edits : List Edit) : List Edit :=
  edits.mergeSort fun left right => right.anchor ≤ left.anchor

def inPlace (file : List Text) (edits : List Edit) : List Text :=
  (fromLast edits).foldl carryOut file

def carriedOut (file : List Text) : List Edit → List Text
  | [] => file
  | edit :: rest => carryOut (carriedOut file rest) edit

def Covers (edit : Edit) (number : Nat) : Prop := edit.anchor ≤ number ∧ number ≤ edit.last

instance (edit : Edit) (number : Nat) : Decidable (edit.Covers number) :=
  inferInstanceAs (Decidable (_ ∧ _))

/-- Edits of a file in any order, none of which begins where another one begins or replaces. -/
structure AreApart (file : List Text) (edits : List Edit) : Prop where
  distinct : (edits.map anchor).Nodup
  within : ∀ edit ∈ edits, edit.anchor ≤ edit.last ∧ edit.last < file.length
  uncovered : ∀ edit ∈ edits, ∀ other ∈ edits, other ≠ edit → ¬edit.Covers other.anchor

theorem pairwise_inOrder (edits : List Edit) :
    (inOrder edits).Pairwise fun first second => first.anchor ≤ second.anchor := by
  have sorted : (inOrder edits).Pairwise fun first second =>
      decide (first.anchor ≤ second.anchor) = true := by
    apply List.pairwise_mergeSort
    · simpa using fun _ _ _ => Nat.le_trans
    · simpa using fun _ _ => Nat.le_total _ _
  simpa only [decide_eq_true_eq] using sorted

theorem pairwise_fromLast (edits : List Edit) :
    (fromLast edits).Pairwise fun first second => second.anchor ≤ first.anchor := by
  have sorted : (fromLast edits).Pairwise fun first second =>
      decide (second.anchor ≤ first.anchor) = true := by
    apply List.pairwise_mergeSort
    · simpa using fun _ _ _ lower upper => Nat.le_trans upper lower
    · simpa using fun _ _ => Nat.le_total _ _
  simpa only [decide_eq_true_eq] using sorted

theorem perm_inOrder (edits : List Edit) : (inOrder edits).Perm edits := List.mergeSort_perm _ _

theorem perm_fromLast (edits : List Edit) : (fromLast edits).Perm edits := List.mergeSort_perm _ _

theorem eq_inOrder {edits other : List Edit} (distinct : (edits.map anchor).Nodup)
    (perm : other.Perm edits)
    (ordered : other.Pairwise fun first second => first.anchor ≤ second.anchor) :
    other = inOrder edits := by
  apply List.Perm.eq_of_pairwise _ ordered (pairwise_inOrder edits)
    (perm.trans (perm_inOrder edits).symm)
  intro first second upper lower before behind
  exact List.inj_on_of_nodup_map distinct (perm.mem_iff.mp upper)
    ((perm_inOrder edits).mem_iff.mp lower) (Nat.le_antisymm before behind)

theorem AreApart.isScript {file : List Text} {edits : List Edit} (apart : AreApart file edits) :
    IsScript file.length (inOrder edits) := by
  have members : ∀ {edit : Edit}, edit ∈ inOrder edits ↔ edit ∈ edits := (perm_inOrder edits).mem_iff
  have distinct : (inOrder edits).Pairwise fun first second => first.anchor ≠ second.anchor :=
    List.pairwise_map.mp (((perm_inOrder edits).map anchor).nodup_iff.mpr apart.distinct)
  refine ⟨fun edit member => apart.within edit (members.mp member), ?_⟩
  apply ((pairwise_inOrder edits).and distinct).imp_of_mem
  rintro first second upper lower ⟨before, different⟩
  have uncovered := apart.uncovered first (members.mp upper) second (members.mp lower)
    (fun same => different (congrArg anchor same.symm))
  rw [Covers] at uncovered
  omega

theorem take_carriedOut {file : List Text} {edits : List Edit} (script : IsScript file.length edits)
    {next : Nat} (ahead : ∀ edit ∈ edits, next ≤ edit.anchor) :
    (carriedOut file edits).take next = file.take next := by
  induction edits generalizing next with
  | nil => rfl
  | cons edit rest ih =>
      have above := ih script.tail fun other member =>
        script.le_anchor other (List.mem_cons_of_mem _ member)
      have within := script.within edit (by simp)
      have first := ahead edit (by simp)
      have start (lines : List Text) :
          ∃ behind, carryOut lines edit = lines.take edit.anchor ++ behind := by
        cases edit <;> exact ⟨_, rfl⟩
      obtain ⟨behind, same⟩ := start (carriedOut file rest)
      have long : next ≤ (file.take edit.anchor).length := by
        rw [List.length_take]
        omega
      rw [carriedOut, same, above, List.take_append_of_le_length long, List.take_take,
        Nat.min_eq_left first]

/-- What is left of a file from a line on, if no edit has its anchor above that line, is what a pass
writes that comes to the line. -/
theorem drop_carriedOut {file : List Text} {edits : List Edit} (script : IsScript file.length edits)
    {next : Nat} (ahead : ∀ edit ∈ edits, next ≤ edit.anchor) :
    (carriedOut file edits).drop next = splice file edits next := by
  induction edits generalizing next with
  | nil => rfl
  | cons edit rest ih =>
      have later : ∀ other ∈ rest, edit.last + 1 ≤ other.anchor :=
        (List.pairwise_cons.mp script.apart).1
      have above := take_carriedOut script.tail fun other member =>
        script.le_anchor other (List.mem_cons_of_mem _ member)
      have through := take_carriedOut script.tail later
      have below := ih script.tail later
      have within := script.within edit (by simp)
      have first := ahead edit (by simp)
      have inside : edit.anchor < file.length := by omega
      have long : next ≤ (file.take edit.anchor).length := by
        rw [List.length_take]
        omega
      rw [carriedOut, splice_copy file first (by simp)]
      generalize carriedOut file rest = lines at *
      cases edit with
      | replace start last fresh =>
          simp only [anchor, Edit.last] at *
          rw [carryOut, above, below, List.drop_append_of_le_length long, splice_replace_here inside]
      | insert position fresh =>
          simp only [anchor, Edit.last] at *
          -- The line that the new ones are put in front of is left by the edits behind it.
          have line := drop_eq_copied_append lines (Nat.le_succ position)
          rw [through, take_succ_drop inside, below] at line
          rw [carryOut, above, line, List.drop_append_of_le_length long, splice_insert_here inside]
          rfl

theorem carriedOut_eq_foldl (file : List Text) (edits : List Edit) :
    carriedOut file edits = edits.reverse.foldl carryOut file := by
  induction edits with
  | nil => rfl
  | cons edit rest ih => simp [carriedOut, ih]

theorem inPlace_eq {edits : List Edit} (distinct : (edits.map anchor).Nodup) (file : List Text) :
    inPlace file edits = carriedOut file (inOrder edits) := by
  have reversed : (fromLast edits).reverse = inOrder edits :=
    eq_inOrder distinct ((List.reverse_perm _).trans (perm_fromLast edits))
      (List.pairwise_reverse.mpr (pairwise_fromLast edits))
  rw [carriedOut_eq_foldl, ← reversed, List.reverse_reverse]
  rfl

/-- One pass over a file gives what the edits give one at a time from the last to the first, in
whatever order they are listed. -/
theorem applyAll_eq_inPlace {file : List Text} {edits : List Edit} (apart : AreApart file edits) :
    applyAll file edits = (inPlace file edits).flatten ∧
      ∀ other : List Edit, other.Perm edits → applyAll file other = applyAll file edits := by
  constructor
  · have whole : (carriedOut file (inOrder edits)).drop 0 = splice file (inOrder edits) 0 :=
      drop_carriedOut apart.isScript fun _ _ => Nat.zero_le _
    rw [applyAll, inPlace_eq apart.distinct, ← whole, List.drop_zero]
  · intro other perm
    have same := eq_inOrder apart.distinct ((perm_inOrder other).trans perm) (pairwise_inOrder other)
    rw [applyAll, applyAll, same]

def neighbours : List Edit := [
  .replace 3 4 ["de\n".toList],
  .insert 5 ["-\n".toList],
  .replace 2 2 [],
  .insert 0 ["*\n".toList, "*\n".toList],
  .insert 1 ["+\n".toList]]

theorem applyAll_eq_inPlace_neighbours :
    AreApart (Text.lines "a\nb\nc\nd\ne\nf".toList) neighbours ∧
      applyAll (Text.lines "a\nb\nc\nd\ne\nf".toList) neighbours =
        (inPlace (Text.lines "a\nb\nc\nd\ne\nf".toList) neighbours).flatten ∧
      applyAll (Text.lines "a\nb\nc\nd\ne\nf".toList) neighbours =
        "*\n*\na\n+\nb\nde\n-\nf".toList := by
  have apart : AreApart (Text.lines "a\nb\nc\nd\ne\nf".toList) neighbours :=
    ⟨by decide, by decide, by decide⟩
  obtain ⟨pass, anyOrder⟩ := applyAll_eq_inPlace apart
  refine ⟨apart, pass, ?_⟩
  have ordered : [.insert 0 ["*\n".toList, "*\n".toList], .insert 1 ["+\n".toList], .replace 2 2 [],
      .replace 3 4 ["de\n".toList], .insert 5 ["-\n".toList]].Perm neighbours := by decide
  rw [← anyOrder _ ordered, applyAll, inOrder_of_pairwise (by decide)]
  decide

end Edit

end DocComments
