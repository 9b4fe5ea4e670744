import DocComments.Proofs.Sites
import Mathlib.Data.List.Induction

/-! The blocks of methods. An edit for a method has a summary, a line for each parameter and one
for what is returned, if anything is (`method_edit_lines`). Nothing is returned by a method that
bears the name of the type declared last above it, whatever stands in front of that name. -/

namespace DocComments

namespace Refresh

def IsLastType (file : List Text) (outer : Text) : Prop :=
  ∃ upper line lower kind, file = upper ++ line :: lower ∧
    Declaration.recognize? line.dropTerminator = some (.type kind outer) ∧
    ∀ other ∈ lower, ∀ kind name,
      Declaration.recognize? other.dropTerminator ≠ some (.type kind name)

theorem cut_of_concat {file upper lower : List Text} {line first : Text}
    (cut : file ++ [line] = upper ++ first :: lower) :
    lower = [] ∧ first = line ∨
      ∃ between, lower = between ++ [line] ∧ file = upper ++ first :: between := by
  rcases List.eq_nil_or_concat lower with rfl | ⟨between, last, rfl⟩
  · obtain ⟨_, same⟩ := List.append_inj' cut rfl
    exact Or.inl ⟨rfl, (List.cons.inj same).1.symm⟩
  · rw [List.concat_eq_append, ← List.cons_append, ← List.append_assoc] at cut
    obtain ⟨above, same⟩ := List.append_inj' cut rfl
    exact Or.inr ⟨between, by rw [(List.cons.inj same).1, List.concat_eq_append], above⟩

theorem isLastType_append_type {file : List Text} {line name : Text} {kind : TypeKind}
    (recognized : Declaration.recognize? line.dropTerminator = some (.type kind name))
    (outer : Text) : IsLastType (file ++ [line]) outer ↔ name = outer := by
  constructor
  · rintro ⟨upper, other, lower, otherKind, cut, found, later⟩
    rcases cut_of_concat cut with ⟨_, rfl⟩ | ⟨between, rfl, _⟩
    · rw [recognized] at found
      exact (Declaration.type.inj (Option.some.inj found)).2
    · exact absurd recognized (later line (by simp) kind name)
  · rintro rfl
    exact ⟨file, line, [], kind, rfl, recognized, by simp⟩

theorem isLastType_append_other {file : List Text} {line : Text}
    (other : ∀ kind name, Declaration.recognize? line.dropTerminator ≠ some (.type kind name))
    (outer : Text) : IsLastType (file ++ [line]) outer ↔ IsLastType file outer := by
  constructor
  · rintro ⟨upper, first, lower, kind, cut, found, later⟩
    rcases cut_of_concat cut with ⟨_, rfl⟩ | ⟨between, rfl, rfl⟩
    · exact absurd found (other kind outer)
    · exact ⟨upper, first, between, kind, rfl, found,
        fun line member => later line (List.mem_append_left _ member)⟩
  · rintro ⟨upper, first, lower, kind, rfl, found, later⟩
    refine ⟨upper, first, lower ++ [line], kind, by simp, found, ?_⟩
    intro below member
    rcases List.mem_append.mp member with before | last
    · exact later below before
    · rw [List.mem_singleton.mp last]
      exact other

theorem enclosingIn_append (file : List Text) (line : Text) :
    enclosingIn (file ++ [line]) =
      match Declaration.recognize? line.dropTerminator with
      | some declaration => enclosingAfter (enclosingIn file) declaration
      | none => enclosingIn file := by
  rw [enclosingIn, Declaration.ofLines_append, List.foldl_append]
  cases found : Declaration.recognize? line.dropTerminator with
  | none => simp [Declaration.ofLines, found, enclosingIn]
  | some declaration => simp [Declaration.ofLines, found, enclosingIn]

/-- The type that a scan from above holds at its end is the one declared last. -/
theorem enclosingIn_eq_some_iff (file : List Text) (outer : Text) :
    enclosingIn file = some outer ↔ IsLastType file outer := by
  -- From the last line back, as the last declaration is the one that counts.
  induction file using List.reverseRecOn with
  | nil => simp [enclosingIn, Declaration.ofLines, IsLastType]
  | append_singleton above line ih =>
      rw [enclosingIn_append]
      cases found : Declaration.recognize? line.dropTerminator with
      | none => rw [isLastType_append_other (by simp [found]), ← ih]
      | some declaration =>
          cases declaration with
          | type kind name =>
              rw [isLastType_append_type found]
              exact Option.some_inj
          | method name returnType params => rw [isLastType_append_other (by simp [found]), ← ih]; rfl
          | property name => rw [isLastType_append_other (by simp [found]), ← ih]; rfl

instance (file : List Text) (outer : Text) : Decidable (IsLastType file outer) :=
  decidable_of_iff _ (enclosingIn_eq_some_iff file outer)

end Refresh

namespace Site

theorem enclosing_of_method {site : Site} {name params : Text} {returnType : Option Text}
    (method : site.declaration = .method name returnType params) :
    site.enclosing = Refresh.enclosingIn site.higher := by
  rw [enclosing, Refresh.enclosingIn_append, site.recognized, method]
  rfl

def Returns (site : Site) (name : Text) (returnType : Option Text) : Prop :=
  returnType ≠ none ∧ returnType ≠ some "void".toList ∧ ¬Refresh.IsLastType site.higher name

instance (site : Site) (name : Text) (returnType : Option Text) :
    Decidable (site.Returns name returnType) :=
  inferInstanceAs (Decidable (_ ∧ _ ∧ _))

theorem isConstructor_eq_false_iff {site : Site} {name params : Text} {returnType : Option Text}
    (method : site.declaration = .method name returnType params) :
    Refresh.isConstructor site.enclosing name returnType = false ↔
      returnType ≠ none ∧ ¬Refresh.IsLastType site.higher name := by
  rw [Refresh.isConstructor, Bool.or_eq_false_iff, enclosing_of_method method,
    ← Refresh.enclosingIn_eq_some_iff]
  simp [Option.isSome_iff_ne_none]

theorem exists_returned {site : Site} {name params : Text} {returnType : Option Text}
    (method : site.declaration = .method name returnType params) (curated : Option Curated.Doc)
    (summary : Text) :
    ∃ returned : List Text,
      Block.returnsLines curated name summary
          (if Refresh.isConstructor site.enclosing name returnType then none else returnType) =
        returned.map Block.returnsLine ∧
      returned.length = if site.Returns name returnType then 1 else 0 := by
  cases constructs : Refresh.isConstructor site.enclosing name returnType with
  | true =>
      have nothing : ¬site.Returns name returnType := by
        rintro ⟨typed, _, other⟩
        have method := (isConstructor_eq_false_iff method).mpr ⟨typed, other⟩
        rw [constructs] at method
        cases method
      exact ⟨[], rfl, by rw [if_neg nothing]; rfl⟩
  | false =>
      obtain ⟨typed, other⟩ := (isConstructor_eq_false_iff method).mp constructs
      obtain ⟨written, rfl⟩ := Option.ne_none_iff_exists'.mp typed
      by_cases void : written = "void".toList
      · refine ⟨[], if_pos void, ?_⟩
        rw [if_neg (fun returns => returns.2.1 (congrArg some void))]
        rfl
      · refine ⟨[Block.describeReturns curated name summary], if_neg void, ?_⟩
        rw [if_pos ⟨typed, fun same => void (Option.some.inj same), other⟩]
        rfl

end Site

/-- An edit for a method has the lines of a summary, one line for each parameter in order, and one for
what is returned if the method returns something, whatever is curated for it. -/
theorem method_edit_lines {table : Curated.Table} {path text : Text} {site : Site} {edit : Edit}
    {name params : Text} {returnType : Option Text} (cut : site.file = text.lines)
    (method : site.declaration = .method name returnType params) (own : edit.IsFor site)
    (planned : edit ∈ plan table path text) :
    ∃ (summary : Text) (describe : Text → Text) (returned : List Text),
      edit.lines = Refresh.setLike site.line (Block.summaryLines summary ++
        (Parameters.names params).map (fun param => Block.paramLine param (describe param)) ++
        returned.map Block.returnsLine) ∧
      returned.length = (if site.Returns name returnType then 1 else 0) ∧
      edit.lines.length = 3 + (Parameters.names params).length + returned.length := by
  have lines := Site.lines_of_edit? (Site.edit?_of_isFor cut own planned)
  rw [Site.fresh, Refresh.fresh, Refresh.document_lines, method] at lines
  obtain ⟨returned, last, count⟩ := Site.exists_returned method
    (Refresh.curated? table path site.enclosing (.method name returnType params))
    (Refresh.summaryText ⟨table, path, FileCues.ofText text⟩ site.enclosing
      (.method name returnType params))
  rw [Refresh.elementLines, last, ← List.append_assoc] at lines
  refine ⟨_, _, returned, lines, count, ?_⟩
  rw [lines]
  simp only [Refresh.setLike, Block.summaryLines, List.length_map, List.length_append,
    List.length_cons, List.length_nil]

def widgetTexts : Curated.Table :=
  [⟨"Widget.cs".toList, .method, "Widget".toList,
    { summary := "위젯".toList, returns := some "위젯".toList }⟩]

def widgetFile : Text := "public class Widget\npublic Widget Widget(int size)\n".toList

/-- The type in front of the name does not make a constructor return it. -/
theorem method_edit_lines_widget :
    ∃ (site : Site) (edit : Edit), site.file = widgetFile.lines ∧
      site.declaration = .method "Widget".toList (some "Widget".toList) "int size".toList ∧
      edit.IsFor site ∧ edit ∈ plan widgetTexts "Widget.cs".toList widgetFile ∧
      ¬site.Returns "Widget".toList (some "Widget".toList) ∧ edit.lines.length = 4 := by
  let site : Site :=
    { higher := ["public class Widget\n".toList]
      line := "public Widget Widget(int size)\n".toList
      below := []
      declaration := .method "Widget".toList (some "Widget".toList) "int size".toList
      recognized := by decide }
  let edit : Edit := .insert 1 ["/// <summary>\n".toList, "/// 위젯\n".toList,
    "/// </summary>\n".toList, "/// <param name=\"size\">매개 변수</param>\n".toList]
  have cut : site.file = widgetFile.lines := by decide
  have own : edit.IsFor site := rfl
  have planned : edit ∈ plan widgetTexts "Widget.cs".toList widgetFile := by decide +kernel
  have constructs : ¬site.Returns "Widget".toList (some "Widget".toList) := by decide
  obtain ⟨_, _, returned, _, count, total⟩ := method_edit_lines cut rfl own planned
  rw [if_neg constructs] at count
  rw [count] at total
  exact ⟨site, edit, cut, rfl, own, planned, constructs, total⟩

end DocComments
