import DocComments.Proofs.InPlace
import Mathlib.Data.List.Perm.Subperm
import Mathlib.Logic.Function.Iterate

/-! The end of a pass over a file, for edits of all kinds. All lines may be gone through once more
for each edit and no oftener (`iterate_advance`), and the edits that are used are the first ones
in the stable order by anchors (`exists_ends`). -/

namespace DocComments

namespace Edit

structure IsStableOrder (edits ordered : List Edit) : Prop where
  perm : ordered.Perm edits
  sorted : ordered.Pairwise fun first second => first.anchor ≤ second.anchor
  stable (number : Nat) :
    ordered.filter (fun edit => edit.anchor = number) = edits.filter fun edit => edit.anchor = number

theorem filter_inOrder (edits : List Edit) (number : Nat) :
    (inOrder edits).filter (fun edit => edit.anchor = number) =
      edits.filter fun edit => edit.anchor = number := by
  have level : (edits.filter fun edit => edit.anchor = number).Pairwise fun first second =>
      decide (first.anchor ≤ second.anchor) = true := by
    apply List.pairwise_of_forall_mem_list
    intro first upper second lower
    have here := (List.mem_filter.mp upper).2
    have there := (List.mem_filter.mp lower).2
    simp only [decide_eq_true_eq] at here there ⊢
    omega
  have kept : (edits.filter fun edit => edit.anchor = number).Sublist (inOrder edits) := by
    apply List.sublist_mergeSort _ _ level List.filter_sublist
    · simpa using fun _ _ _ => Nat.le_trans
    · simpa using fun _ _ => Nat.le_total _ _
  have inside := kept.filter fun edit => decide (edit.anchor = number)
  simp only [List.filter_filter, Bool.and_self] at inside
  exact (inside.eq_of_length ((perm_inOrder edits).filter _).length_eq.symm).symm

theorem isStableOrder_inOrder (edits : List Edit) : IsStableOrder edits (inOrder edits) :=
  ⟨perm_inOrder edits, pairwise_inOrder edits, filter_inOrder edits⟩

end Edit

namespace Pass

variable {file : List Text} {pass : Pass}

def remaining (file : List Text) (pass : Pass) : Nat :=
  pass.waiting.length * file.length + (file.length - pass.next)

theorem remaining_step (inside : pass.next < file.length) (line : Text) :
    (pass.step line).remaining file < pass.remaining file := by
  -- The edit that is used gives up all lines of the file, so it may lead back to any of them.
  rcases pass.step_cases line with
    ⟨copied, _⟩ | ⟨last, lines, rest, first, used⟩ | ⟨lines, rest, first, used⟩
  · simp only [copied, remaining, copy]
    omega
  · simp only [used, first, remaining, List.length_cons, Nat.succ_mul]
    omega
  · simp only [used, first, remaining, List.length_cons, Nat.succ_mul]
    omega

def advance (file : List Text) (pass : Pass) : Pass :=
  if inside : pass.next < file.length then pass.step file[pass.next] else pass

theorem run_beyond (beyond : file.length ≤ pass.next) : run file pass = pass := by
  rw [run, dif_neg (by omega)]

theorem run_advance (file : List Text) (pass : Pass) :
    run file (advance file pass) = run file pass := by
  unfold advance
  split
  · next inside =>
      conv_rhs => rw [run]
      rw [dif_pos inside]
  · rfl

theorem advance_beyond (beyond : file.length ≤ pass.next) : advance file pass = pass :=
  dif_neg (by omega)

theorem iterate_advance {count : Nat} (enough : pass.remaining file ≤ count) :
    (advance file)^[count] pass = run file pass := by
  induction count generalizing pass with
  | zero =>
      rw [run_beyond]
      · rfl
      · unfold remaining at enough
        omega
  | succ count ih =>
      by_cases inside : pass.next < file.length
      · have fewer := remaining_step inside file[pass.next]
        have stepped : advance file pass = pass.step file[pass.next] := dif_pos inside
        rw [Function.iterate_succ_apply, ih, run_advance]
        rw [stepped]
        omega
      · have beyond : file.length ≤ pass.next := by omega
        rw [run_beyond beyond, Function.iterate_fixed (advance_beyond beyond)]

theorem length_le_next_run (file : List Text) (pass : Pass) : file.length ≤ (run file pass).next := by
  fun_induction run file pass with
  | case1 pass inside ih => exact ih
  | case2 pass beyond => omega

structure Ends (file : List Text) (edits : List Edit) (last : Pass) : Prop where
  reached : ∃ count ≤ (edits.length + 1) * file.length, (advance file)^[count] (start edits) = last
  beyond : file.length ≤ last.next
  written : last.written.flatten = Edit.applyAll file edits
  first : last.used <+: Edit.inOrder edits
  once : last.used.Subperm edits

/-- Every pass ends, whatever the edits are and wherever they lead. It uses no edit twice, and none
before those that stand in front of it in the stable order. -/
theorem exists_ends (file : List Text) (edits : List Edit) :
    Edit.IsStableOrder edits (Edit.inOrder edits) ∧ ∃ last, Ends file edits last := by
  have order := Edit.isStableOrder_inOrder edits
  have kept : (run file (start edits)).used ++ (run file (start edits)).waiting =
      Edit.inOrder edits := used_run file (start edits)
  have first : (run file (start edits)).used <+: Edit.inOrder edits := ⟨_, kept⟩
  have steps : (start edits).remaining file = (edits.length + 1) * file.length := by
    simp only [remaining, start, order.perm.length_eq, Nat.sub_zero, Nat.succ_mul]
  refine ⟨order, run file (start edits), ?_⟩
  exact {
    reached := ⟨_, Nat.le_refl _, iterate_advance (Nat.le_of_eq steps)⟩
    beyond := length_le_next_run file _
    written := (applyAll_eq_run file edits).symm
    first := first
    once := first.sublist.subperm.trans order.perm.subperm }

/-- A replacement that leads back has lines written again. -/
example : Edit.applyAll (Text.lines "a\nb\nc".toList) [.replace 2 0 ["-\n".toList]] =
    "a\nb\n-\nb\nc".toList := by decide +kernel

end Pass

end DocComments
