import DocComments.Proofs.Planning

/-! The application of edits as a cursor that goes over the lines of a file, with the edits
waiting in front of it. What it writes is the file with its edits applied (`applyAll_eq_run`),
whatever the edits are. It uses all edits of a script, and each of them once (`run_script`). -/

namespace DocComments

/-- A pass over a file on its way: the number of the line it comes to next, the edits that wait, those
that were used, and the lines written so far. -/
structure Pass where
  next : Nat
  waiting : List Edit
  used : List Edit
  written : List Text

namespace Pass

def start (edits : List Edit) : Pass := ⟨0, Edit.inOrder edits, [], []⟩

def copy (pass : Pass) (line : Text) : Pass :=
  { pass with next := pass.next + 1, written := pass.written ++ [line] }

def step (pass : Pass) (line : Text) : Pass :=
  match pass.waiting with
  | [] => pass.copy line
  | edit :: rest =>
    if edit.anchor = pass.next then
      match edit with
      | .replace _ last lines => ⟨last + 1, rest, pass.used ++ [edit], pass.written ++ lines⟩
      | .insert _ lines =>
        ⟨pass.next + 1, rest, pass.used ++ [edit], pass.written ++ (lines ++ [line])⟩
    else pass.copy line

theorem step_cases (pass : Pass) (line : Text) :
    (pass.step line = pass.copy line ∧ ∀ edit ∈ pass.waiting.head?, edit.anchor ≠ pass.next) ∨
      (∃ last lines rest, pass.waiting = .replace pass.next last lines :: rest ∧
        pass.step line = ⟨last + 1, rest, pass.used ++ [.replace pass.next last lines],
          pass.written ++ lines⟩) ∨
      ∃ lines rest, pass.waiting = .insert pass.next lines :: rest ∧
        pass.step line = ⟨pass.next + 1, rest, pass.used ++ [.insert pass.next lines],
          pass.written ++ (lines ++ [line])⟩ := by
  unfold step
  split
  · next none => exact Or.inl ⟨rfl, by simp [none]⟩
  · next edit rest first =>
      split
      · next here =>
          cases edit with
          | replace start last lines =>
              obtain rfl : start = pass.next := here
              exact Or.inr (Or.inl ⟨last, lines, rest, first, rfl⟩)
          | insert position lines =>
              obtain rfl : position = pass.next := here
              exact Or.inr (Or.inr ⟨lines, rest, first, rfl⟩)
      · next other => exact Or.inl ⟨rfl, by simpa [first] using other⟩

/-- A step uses an edit, or it goes one line down. So a pass comes to an end even if replacements
lead it back. -/
theorem step_decreases {file : List Text} {pass : Pass} (inside : pass.next < file.length)
    (line : Text) :
    Prod.Lex (· < ·) (· < ·)
      ((pass.step line).waiting.length, file.length - (pass.step line).next)
      (pass.waiting.length, file.length - pass.next) := by
  rcases pass.step_cases line with
    ⟨copied, _⟩ | ⟨last, lines, rest, first, used⟩ | ⟨lines, rest, first, used⟩
  · rw [copied]
    exact Prod.Lex.right _ (by simp only [copy]; omega)
  · rw [used, first]
    exact Prod.Lex.left _ _ (Nat.lt_succ_self _)
  · rw [used, first]
    exact Prod.Lex.left _ _ (Nat.lt_succ_self _)

def run (file : List Text) (pass : Pass) : Pass :=
  if inside : pass.next < file.length then run file (pass.step file[pass.next]) else pass
termination_by (pass.waiting.length, file.length - pass.next)
decreasing_by exact step_decreases inside _

end Pass

namespace Edit

theorem splice_beyond {file : List Text} {next : Nat} (beyond : file.length ≤ next)
    (edits : List Edit) : splice file edits next = [] := by
  cases edits with
  | nil => exact List.drop_of_length_le beyond
  | cons edit rest =>
      unfold splice
      rw [if_neg (by omega)]
      exact List.drop_of_length_le beyond

theorem drop_eq_copied_append (file : List Text) {next stop : Nat} (ordered : next ≤ stop) :
    file.drop next = (file.take stop).drop next ++ file.drop stop := by
  by_cases inside : stop ≤ file.length
  · have whole := List.take_append_drop stop file
    have start : next ≤ (file.take stop).length := by
      rw [List.length_take]
      omega
    rw [← List.drop_append_of_le_length start, whole]
  · have length : file.length ≤ stop := by omega
    rw [List.take_of_length_le length, List.drop_of_length_le length, List.append_nil]

theorem take_drop_eq_copied_append (file : List Text) {next stop last : Nat}
    (ordered : next ≤ stop) (within : stop ≤ last) :
    (file.take last).drop next = (file.take stop).drop next ++ (file.take last).drop stop := by
  have split := drop_eq_copied_append (file.take last) ordered
  rwa [List.take_take, Nat.min_eq_left within] at split

theorem splice_copy (file : List Text) {edits : List Edit} {next stop : Nat} (ordered : next ≤ stop)
    (later : ∀ edit ∈ edits.head?, stop ≤ edit.anchor) :
    splice file edits next = (file.take stop).drop next ++ splice file edits stop := by
  cases edits with
  | nil => exact drop_eq_copied_append file ordered
  | cons edit rest =>
      have behind : stop ≤ edit.anchor := later edit rfl
      unfold splice
      by_cases inside : edit.anchor < file.length
      · rw [if_pos ⟨by omega, inside⟩, if_pos ⟨behind, inside⟩,
          take_drop_eq_copied_append file ordered behind]
        simp only [List.append_assoc]
      · rw [if_neg (by omega), if_neg (by omega)]
        exact drop_eq_copied_append file ordered

theorem take_succ_drop {file : List Text} {next : Nat} (inside : next < file.length) :
    (file.take (next + 1)).drop next = [file[next]] := by
  rw [List.drop_take, Nat.add_sub_cancel_left, List.drop_eq_getElem_cons inside]
  rfl

theorem splice_other {file : List Text} {edits : List Edit} {next : Nat}
    (inside : next < file.length) (other : ∀ edit ∈ edits.head?, edit.anchor ≠ next) :
    splice file edits next = file[next] :: splice file edits (next + 1) := by
  by_cases ahead : ∀ edit ∈ edits.head?, next + 1 ≤ edit.anchor
  · rw [splice_copy file (Nat.le_succ next) ahead, take_succ_drop inside, List.singleton_append]
  · -- The first edit was passed, so it blocks the others on this line and the next.
    cases edits with
    | nil => simp at ahead
    | cons edit rest =>
        have different : edit.anchor ≠ next := other edit rfl
        have passed : edit.anchor < next + 1 := by simpa using ahead
        unfold splice
        rw [if_neg (by omega), if_neg (by omega)]
        exact List.drop_eq_getElem_cons inside

theorem splice_replace_here {file : List Text} {start : Nat} (inside : start < file.length)
    (last : Nat) (lines : List Text) (rest : List Edit) :
    splice file (replace start last lines :: rest) start = lines ++ splice file rest (last + 1) := by
  rw [splice, if_pos ⟨Nat.le_refl _, inside⟩]
  simp [anchor, Edit.lines]

theorem splice_insert_here {file : List Text} {position : Nat} (inside : position < file.length)
    (lines : List Text) (rest : List Edit) :
    splice file (insert position lines :: rest) position =
      lines ++ file[position] :: splice file rest (position + 1) := by
  have line : (file.drop position).take 1 = [file[position]] := by
    rw [← take_succ_drop inside, List.drop_take, Nat.add_sub_cancel_left]
  rw [splice, if_pos ⟨Nat.le_refl _, inside⟩]
  simp [anchor, Edit.lines, line]

end Edit

namespace Pass

variable {file : List Text} {pass : Pass}

/-- What is written and what a splice would still write make up the same lines after each step. -/
theorem written_step (inside : pass.next < file.length) :
    (pass.step file[pass.next]).written ++
        Edit.splice file (pass.step file[pass.next]).waiting (pass.step file[pass.next]).next =
      pass.written ++ Edit.splice file pass.waiting pass.next := by
  rcases pass.step_cases file[pass.next] with
    ⟨copied, other⟩ | ⟨last, lines, rest, first, used⟩ | ⟨lines, rest, first, used⟩
  · rw [copied, Edit.splice_other inside other]
    simp [copy]
  · rw [used, first, Edit.splice_replace_here inside, List.append_assoc]
  · rw [used, first, Edit.splice_insert_here inside]
    simp only [List.append_assoc, List.singleton_append]

theorem written_run (file : List Text) (pass : Pass) :
    (run file pass).written = pass.written ++ Edit.splice file pass.waiting pass.next := by
  fun_induction run file pass with
  | case1 pass inside ih => rw [ih, written_step inside]
  | case2 pass beyond => rw [Edit.splice_beyond (by omega), List.append_nil]

/-- The text of a file after its edits is what a pass over the file writes. -/
theorem applyAll_eq_run (file : List Text) (edits : List Edit) :
    Edit.applyAll file edits = (run file (start edits)).written.flatten := by
  rw [Edit.applyAll, written_run]
  rfl

theorem used_step (pass : Pass) (line : Text) :
    (pass.step line).used ++ (pass.step line).waiting = pass.used ++ pass.waiting := by
  rcases pass.step_cases line with
    ⟨copied, _⟩ | ⟨last, lines, rest, first, used⟩ | ⟨lines, rest, first, used⟩
  · rw [copied]
    rfl
  · rw [used, first]
    simp
  · rw [used, first]
    simp

/-- The used edits and those that still wait are the edits of the beginning, in their order. -/
theorem used_run (file : List Text) (pass : Pass) :
    (run file pass).used ++ (run file pass).waiting = pass.used ++ pass.waiting := by
  fun_induction run file pass with
  | case1 pass inside ih => rw [ih, used_step]
  | case2 pass beyond => rfl

structure IsOnCourse (file : List Text) (pass : Pass) : Prop where
  script : Edit.IsScript file.length pass.waiting
  ahead : ∀ edit ∈ pass.waiting, pass.next ≤ edit.anchor

theorem IsOnCourse.behind {edit : Edit} {rest : List Edit} (course : pass.IsOnCourse file)
    (first : pass.waiting = edit :: rest) (used : List Edit) (written : List Text) :
    IsOnCourse file ⟨edit.last + 1, rest, used, written⟩ := by
  have script := course.script
  rw [first] at script
  refine ⟨script.tail, ?_⟩
  intro later member
  have apart := (List.pairwise_cons.mp script.apart).1 later member
  exact apart

theorem IsOnCourse.step (course : pass.IsOnCourse file) (line : Text) :
    (pass.step line).IsOnCourse file := by
  rcases pass.step_cases line with
    ⟨copied, other⟩ | ⟨last, lines, rest, first, used⟩ | ⟨lines, rest, first, used⟩
  · rw [copied]
    refine ⟨course.script, ?_⟩
    intro edit member
    cases first : pass.waiting with
    | nil => simp [copy, first] at member
    | cons nearest rest =>
        have script := course.script
        have here := course.ahead nearest (by simp [first])
        have different := other nearest (by simp [first])
        rw [first] at script
        have order := script.le_anchor edit (by simpa [copy, first] using member)
        simp only [copy]
        omega
  · rw [used]
    exact course.behind first _ _
  · rw [used]
    exact course.behind first _ _

theorem IsOnCourse.waiting_run (course : pass.IsOnCourse file) : (run file pass).waiting = [] := by
  fun_induction run file pass with
  | case1 pass inside ih => exact ih (course.step _)
  | case2 pass beyond =>
      rw [List.eq_nil_iff_forall_not_mem]
      intro edit member
      have ahead := course.ahead edit member
      have within := course.script.within edit member
      omega

/-- A pass uses the edits of a script one after the other, and none is left. -/
theorem run_script {edits : List Edit} (script : Edit.IsScript file.length edits) :
    (run file (start edits)).used = edits ∧ (run file (start edits)).waiting = [] := by
  have course : (start edits).IsOnCourse file := by
    refine ⟨?_, fun _ _ => Nat.zero_le _⟩
    rw [start, script.inOrder_eq]
    exact script
  have none := course.waiting_run
  have kept : (run file (start edits)).used ++ (run file (start edits)).waiting =
      Edit.inOrder edits := used_run file (start edits)
  rw [none, List.append_nil, script.inOrder_eq] at kept
  exact ⟨kept, none⟩

end Pass

end DocComments
