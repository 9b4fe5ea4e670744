import DocComments.Proofs.Landmarks

/-! The block of a declaration as a part of the lines above it. From the nearest on these lines
are the ones passed over, the run of documentation lines, and the lines beyond it. A declaration
line higher up shelters what is above it from the search. -/

namespace DocComments

namespace Block

def passed (above : List Text) : List Text := above.takeWhile isPassedOver

def run (above : List Text) : List Text := (above.dropWhile isPassedOver).takeWhile isDocLine

def beyond (above : List Text) : List Text := (above.dropWhile isPassedOver).dropWhile isDocLine

theorem parts_append (above : List Text) : passed above ++ (run above ++ beyond above) = above := by
  simp [passed, run, beyond]

theorem isPassedOver_of_mem_passed {above : List Text} {line : Text} (member : line ∈ passed above) :
    isPassedOver line = true :=
  List.mem_takeWhile_imp member

theorem isDocLine_of_mem_run {above : List Text} {line : Text} (member : line ∈ run above) :
    isDocLine line = true :=
  List.mem_takeWhile_imp member

theorem isDocLine_head?_beyond {above : List Text} {line : Text}
    (first : (beyond above).head? = some line) : isDocLine line = false := by
  have stop := List.head?_dropWhile_not isDocLine (above.dropWhile isPassedOver)
  rw [beyond] at first
  rw [first] at stop
  exact stop

theorem run_cons_passed {line : Text} (skipped : isPassedOver line = true) (higher : List Text) :
    run (line :: higher) = run higher := by
  simp only [run, skipped, List.dropWhile_cons_of_pos]

theorem beyond_cons_passed {line : Text} (skipped : isPassedOver line = true) (higher : List Text) :
    beyond (line :: higher) = beyond higher := by
  simp only [beyond, skipped, List.dropWhile_cons_of_pos]

theorem run_cons_doc {line : Text} (doc : isDocLine line = true) (higher : List Text) :
    run (line :: higher) = line :: higher.takeWhile isDocLine := by
  simp [run, isPassedOver_of_isDocLine doc, doc]

theorem beyond_cons_doc {line : Text} (doc : isDocLine line = true) (higher : List Text) :
    beyond (line :: higher) = higher.dropWhile isDocLine := by
  simp [beyond, isPassedOver_of_isDocLine doc, doc]

theorem run_cons_other {line : Text} (skipped : ¬isPassedOver line = true) (doc : ¬isDocLine line = true)
    (higher : List Text) : run (line :: higher) = [] := by
  simp [run, skipped, doc]

theorem isDocLine_head?_of_run_eq_nil {above : List Text} (empty : run above = []) {line : Text}
    (first : above.head? = some line) : isDocLine line = false := by
  rw [Bool.eq_false_iff]
  intro doc
  cases above with
  | nil => simp at first
  | cons nearest higher =>
      obtain rfl : nearest = line := by simpa using first
      simp [run_cons_doc doc] at empty

/-- The search finds the run, at the line numbers that the lines beyond it leave for it. -/
theorem nearest?_eq (above : List Text) :
    nearest? above =
      if run above = [] then none
      else some
        { span := ⟨(beyond above).length, (beyond above).length + (run above).length - 1⟩
          lines := (run above).reverse } := by
  induction above with
  | nil => rfl
  | cons line higher ih =>
      unfold nearest?
      by_cases doc : isDocLine line = true
      · have parts := congrArg List.length
          (List.takeWhile_append_dropWhile (p := isDocLine) (l := higher))
        rw [List.length_append] at parts
        rw [if_pos doc, run_cons_doc doc, beyond_cons_doc doc, if_neg (by simp)]
        congr 3
        rw [List.length_cons]
        omega
      · rw [if_neg doc]
        by_cases skipped : isPassedOver line = true
        · rw [run_cons_passed skipped, beyond_cons_passed skipped, ← ih]
          exact if_pos skipped
        · rw [run_cons_other skipped doc, if_pos rfl]
          exact if_neg skipped

theorem nearest?_eq_some {above : List Text} {block : Located} (found : nearest? above = some block) :
    block.lines = (run above).reverse := by
  rw [nearest?_eq] at found
  split at found
  · cases found
  · rw [← Option.some.inj found]

theorem exists_nearest? {above : List Text} (nonempty : run above ≠ []) :
    ∃ block, nearest? above = some block := by
  rw [nearest?_eq, if_neg nonempty]
  exact ⟨_, rfl⟩

def IsSheltered (higher : List Text) : Prop :=
  ∀ line ∈ higher.head?, Declaration.HasAccess line

theorem run_append {above higher : List Text} (sheltered : IsSheltered higher) :
    run (above ++ higher) = run above := by
  unfold run
  rw [dropWhile_append_stop fun line first => isPassedOver_of_hasAccess (sheltered line first),
    takeWhile_append_stop fun line first => isDocLine_of_hasAccess (sheltered line first)]

theorem beyond_append {above higher : List Text} (sheltered : IsSheltered higher) :
    beyond (above ++ higher) = beyond above ++ higher := by
  unfold beyond
  rw [dropWhile_append_stop fun line first => isPassedOver_of_hasAccess (sheltered line first),
    dropWhile_append_stop fun line first => isDocLine_of_hasAccess (sheltered line first)]

theorem run_of_parts {lead block rest : List Text} (skipped : ∀ line ∈ lead, isPassedOver line = true)
    (docs : ∀ line ∈ block, isDocLine line = true) (nonempty : block ≠ [])
    (stop : ∀ line ∈ rest.head?, isDocLine line = false) :
    run (lead ++ (block ++ rest)) = block := by
  have start : ∀ line ∈ (block ++ rest).head?, isPassedOver line = false := by
    intro line first
    cases block with
    | nil => exact absurd rfl nonempty
    | cons nearest block =>
        obtain rfl : nearest = line := by simpa using first
        exact isPassedOver_of_isDocLine (docs nearest (by simp))
  unfold run
  rw [dropWhile_append_stop start, List.dropWhile_eq_nil_iff.mpr skipped, List.nil_append,
    takeWhile_append_stop stop, List.takeWhile_eq_self_iff.mpr docs]

end Block

end DocComments
