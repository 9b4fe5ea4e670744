import DocComments.Discovery
import DocComments.Proofs.Paths
import DocComments.Proofs.LowerCase
import Mathlib.Data.Char
import Mathlib.Data.List.Lex

/-! Names and order of source files. Whether a file is generated is read off the lowered path to
it, and yet its name alone decides, up to the case of letters of ASCII (`isGenerated_iff`). Files
are in the order of the paths' components, each once (`pairwise_inOrder`). -/

namespace DocComments

theorem suffix_behind_iff {ending : Text} {separator : Char} (absent : separator ∉ ending)
    (front back : Text) : ending <:+ front ++ separator :: back ↔ ending <:+ back := by
  have behind : separator :: back <:+ front ++ separator :: back := List.suffix_append _ _
  constructor
  · intro ends
    rcases List.suffix_or_suffix_of_suffix ends behind with inside | across
    · rcases List.suffix_cons_iff.mp inside with rfl | inside
      · exact absurd (List.mem_cons_self ..) absent
      · exact inside
    · exact absurd (across.mem (List.mem_cons_self ..)) absent
  · intro ends
    exact (ends.trans (List.suffix_cons ..)).trans behind

theorem FilePath.isGenerated_iff {path name : Text} (last : lastPiece? path = some name) :
    isGenerated path = true ↔ ∃ ending ∈ generatedEndings, ending <:+ name.map Char.toLower := by
  have plain : ∀ ending ∈ generatedEndings,
      '/' ∉ ending ∧ ending.all (fun small => decide (Text.IsUsual small)) = true := by decide
  simp only [isGenerated, List.any_eq_true, List.isSuffixOf_iff_suffix]
  refine exists_congr fun ending => and_congr_right fun member => ?_
  obtain ⟨slash, usual⟩ := plain ending member
  rw [Text.suffix_lower_iff (by simpa only [List.all_eq_true, decide_eq_true_eq] using usual)]
  obtain ⟨_, rfl | ⟨front, rfl⟩⟩ := lastPiece?_eq_some_iff.mp last
  · rfl
  · have kept : Char.toLower '/' = '/' := by decide
    rw [List.map_append, List.map_cons, kept, suffix_behind_iff slash]

namespace Discovery

def IsSourceName (name : Text) : Prop :=
  ".cs".toList <:+ name ∧
    ∀ ending ∈ [".designer.cs", ".g.cs", ".g.i.cs"], ¬ending.toList <:+ name.map Char.toLower

instance (name : Text) : Decidable (IsSourceName name) := inferInstanceAs (Decidable (_ ∧ _))

theorem hasEnding_iff {ending : Text} {below : FileTree.Location} :
    Glob.hasEnding ending below = true ↔
      ∃ above name, below = above ++ [name] ∧ ending <:+ name := by
  simp only [Glob.hasEnding, Option.any_eq_true, List.isSuffixOf_iff_suffix,
    List.getLast?_eq_some_iff]
  constructor
  · rintro ⟨name, ⟨above, last⟩, ending⟩
    exact ⟨above, name, last, ending⟩
  · rintro ⟨above, name, last, ending⟩
    exact ⟨name, ⟨above, last⟩, ending⟩

theorem isSourceName_iff {path name : Text} (last : FilePath.lastPiece? path = some name) :
    IsSourceName name ↔ ".cs".toList <:+ name ∧ ¬FilePath.isGenerated path = true := by
  rw [FilePath.isGenerated_iff last]
  simp [IsSourceName, FilePath.generatedEndings]

theorem nameBefore_iff (left right : Text) : nameBefore left right = true ↔ left < right := by
  unfold nameBefore
  rw [List.lex_eq_true_iff_lex]
  simp only [decide_eq_true_eq]
  rfl

theorem before_iff (left right : List Text) : before left right = true ↔ left < right := by
  unfold before
  rw [List.lex_eq_true_iff_lex]
  simp only [nameBefore_iff]
  rfl

theorem eraseRepsBy_of_pairwise {α : Type} {same : α → α → Bool} {items : List α}
    (apart : items.Pairwise fun first second => same first second = false) :
    items.eraseRepsBy same = items := by
  have kept (first : α) (rest done : List α)
      (apart : (first :: rest).Pairwise fun first second => same first second = false) :
      List.eraseRepsBy.loop same first rest done = done.reverse ++ first :: rest := by
    induction rest generalizing first done with
    | nil => simp [List.eraseRepsBy.loop]
    | cons second rest ih =>
        rw [List.pairwise_cons] at apart
        simp [List.eraseRepsBy.loop, apart.1 second (by simp), ih second _ apart.2]
  cases items with
  | nil => rfl
  | cons first rest => exact kept first rest [] apart

theorem pairwise_mergeSort_components {paths : List Text}
    (distinct : (paths.map FilePath.components).Nodup) :
    (paths.mergeSort fun left right =>
      !before (FilePath.components right) (FilePath.components left)).Pairwise
      fun first second => FilePath.components first < FilePath.components second := by
  have order : (fun left right => !before (FilePath.components right) (FilePath.components left)) =
      fun left right : Text => decide (FilePath.components left ≤ FilePath.components right) := by
    funext left right
    rw [Bool.eq_iff_iff, Bool.not_eq_true', Bool.eq_false_iff, ne_eq, before_iff, not_lt,
      decide_eq_true_eq]
  rw [order]
  have sorted : (paths.mergeSort fun left right : Text =>
      decide (FilePath.components left ≤ FilePath.components right)).Pairwise
      fun left right => decide (FilePath.components left ≤ FilePath.components right) = true :=
    List.pairwise_mergeSort (by simpa using fun _ _ _ => le_trans)
      (by simpa using fun _ _ => le_total _ _) paths
  have apart := (List.mergeSort_perm paths fun left right : Text =>
    decide (FilePath.components left ≤ FilePath.components right)).map FilePath.components
  have others := List.pairwise_map.mp (apart.nodup_iff.mpr distinct)
  refine (sorted.and others).imp fun both => ?_
  exact lt_of_le_of_ne (of_decide_eq_true both.1) both.2

theorem inOrder_nil : inOrder [] = [] := by
  rw [inOrder, List.mergeSort_nil]
  rfl

section Order

variable {paths : List Text} (distinct : (paths.map FilePath.components).Nodup)

include distinct

theorem inOrder_eq : inOrder paths = paths.mergeSort fun left right =>
    !before (FilePath.components right) (FilePath.components left) := by
  apply eraseRepsBy_of_pairwise
  refine (pairwise_mergeSort_components distinct).imp fun less => ?_
  simpa using less.ne

theorem pairwise_inOrder : (inOrder paths).Pairwise fun first second =>
    FilePath.components first < FilePath.components second := by
  rw [inOrder_eq distinct]
  exact pairwise_mergeSort_components distinct

theorem mem_inOrder (path : Text) : path ∈ inOrder paths ↔ path ∈ paths := by
  rw [inOrder_eq distinct, List.mem_mergeSort]

theorem nodup_inOrder : (inOrder paths).Nodup := by
  refine (pairwise_inOrder distinct).imp fun less same => ?_
  rw [same] at less
  exact lt_irrefl _ less

end Order

end Discovery

end DocComments
