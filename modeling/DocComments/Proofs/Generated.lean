import DocComments.Curated.Shipped
import DocComments.Proofs.Sentences
import DocComments.Proofs.Words
import DocComments.Refresh

/-! The lines of generated blocks: a summary element, then the elements for parameters and the
return value. A character that sentences do without gets into them by a curated text only. -/

namespace DocComments

namespace Curated

def Doc.texts (doc : Doc) : List Text :=
  doc.summary :: (doc.params.map Prod.snd ++ doc.returns.toList)

namespace Table

def Avoids (table : Table) (character : Char) : Prop :=
  ∀ entry ∈ table, ∀ text ∈ entry.doc.texts, character ∉ text

def IsWritten (table : Table) : Prop :=
  ∀ entry ∈ table, ¬"설명".toList <+: entry.doc.summary.dropBlanks

instance (table : Table) (character : Char) : Decidable (table.Avoids character) :=
  inferInstanceAs (Decidable (∀ entry ∈ table, ∀ text ∈ entry.doc.texts, character ∉ text))

instance (table : Table) : Decidable table.IsWritten :=
  inferInstanceAs (Decidable (∀ entry ∈ table, ¬"설명".toList <+: entry.doc.summary.dropBlanks))

theorem avoids_shipped : Table.Avoids shipped '\n' := by decide +kernel

theorem isWritten_shipped : Table.IsWritten shipped := by decide +kernel

theorem exists_entry_of_lookup? {table : Table} {path name : Text} {kind : MemberKind} {doc : Doc}
    (found : table.lookup? path name kind = some doc) : ∃ entry ∈ table, entry.doc = doc := by
  simp only [lookup?, Option.bind_eq_bind, Option.bind_eq_some_iff] at found
  obtain ⟨fileName, _, entry, first, same⟩ := found
  refine ⟨entry, ?_, Option.some.inj same⟩
  simp only [Option.orElse_eq_orElse, Option.orElse_eq_or, Option.or_eq_some_iff] at first
  rcases first with joined | ⟨_, named | ⟨_, ending⟩⟩
  · exact (List.mem_filter.mp (List.mem_of_find?_eq_some joined)).1
  · exact (List.mem_filter.mp (List.mem_of_find?_eq_some named)).1
  · exact (List.mem_filter.mp (List.mem_of_find?_eq_some ending)).1

end Table

end Curated

namespace Refresh

def memberKind (enclosing : Option Text) : Declaration → MemberKind
  | .type _ _ => .type
  | .property _ => .property
  | .method name returnType _ =>
    if isConstructor enclosing name returnType then .constructor else .method

def typeKind? : Declaration → Option TypeKind
  | .type kind _ => some kind
  | _ => none

def curated? (table : Curated.Table) (path : Text) (enclosing : Option Text)
    (declaration : Declaration) : Option Curated.Doc :=
  table.lookup? path declaration.name (memberKind enclosing declaration)

def summaryText (setting : Setting) (enclosing : Option Text) (declaration : Declaration) : Text :=
  ((curated? setting.table setting.path enclosing declaration).map Curated.Doc.summary).getD
    (summarize declaration.name (memberKind enclosing declaration) (typeKind? declaration)
      setting.cues)

def elementLines (curated : Option Curated.Doc) (enclosing : Option Text) (summary : Text) :
    Declaration → List Text
  | .method name returnType params =>
    (Parameters.names params).map
        (fun param => Block.paramLine param (Block.describeParam curated param)) ++
      Block.returnsLines curated name summary
        (if isConstructor enclosing name returnType then none else returnType)
  | _ => []

theorem document_lines (setting : Setting) (enclosing : Option Text) (declaration : Declaration) :
    (document setting enclosing declaration).lines =
      Block.summaryLines (summaryText setting enclosing declaration) ++
        elementLines (curated? setting.table setting.path enclosing declaration) enclosing
          (summaryText setting enclosing declaration) declaration := by
  cases declaration with
  | type kind name => simp [document, elementLines, summaryText, curated?, memberKind, typeKind?,
      Declaration.name]
  | property name => simp [document, elementLines, summaryText, curated?, memberKind, typeKind?,
      Declaration.name]
  | method name returnType params =>
      simp only [document, elementLines, summaryText, curated?, memberKind, typeKind?,
        Declaration.name, Block.methodLines, List.append_assoc]

theorem document_curated (setting : Setting) (enclosing : Option Text) (declaration : Declaration) :
    (document setting enclosing declaration).curated =
      (curated? setting.table setting.path enclosing declaration).isSome := by
  cases declaration <;> rfl

theorem document_line_cases {setting : Setting} {enclosing : Option Text}
    {declaration : Declaration} {line : Text}
    (member : line ∈ (document setting enclosing declaration).lines) :
    line = "/// ".toList ++ summaryText setting enclosing declaration ∨
      "/// <".toList <+: line := by
  rw [document_lines, List.mem_append] at member
  rcases member with summary | element
  · simp only [Block.summaryLines, List.mem_cons, List.not_mem_nil, or_false] at summary
    rcases summary with same | same | same
    · rw [same]
      exact Or.inr (by decide)
    · exact Or.inl same
    · rw [same]
      exact Or.inr (by decide)
  · right
    cases declaration with
    | type kind name => simp [elementLines] at element
    | property name => simp [elementLines] at element
    | method name returnType params =>
        rw [elementLines, List.mem_append, List.mem_map] at element
        rcases element with ⟨param, _, same⟩ | returns
        · have start : "/// <".toList <+: "/// <param name=\"".toList := by decide
          rw [← same]
          unfold Block.paramLine
          rw [List.append_assoc, List.append_assoc, List.append_assoc]
          exact start.trans (List.prefix_append _ _)
        · have start : "/// <".toList <+: "/// <returns>".toList := by decide
          unfold Block.returnsLines at returns
          split at returns
          · simp at returns
          · split at returns
            · simp at returns
            · rw [List.mem_singleton.mp returns]
              unfold Block.returnsLine
              rw [List.append_assoc]
              exact start.trans (List.prefix_append _ _)

theorem marker_of_mem_document {setting : Setting} {enclosing : Option Text}
    {declaration : Declaration} {line : Text}
    (member : line ∈ (document setting enclosing declaration).lines) : Block.marker <+: line := by
  rcases document_line_cases member with summary | element
  · have start : Block.marker <+: "/// ".toList := by decide
    rw [summary]
    exact start.trans (List.prefix_append _ _)
  · have start : Block.marker <+: "/// <".toList := by decide
    exact start.trans element

theorem document_lines_ne_nil (setting : Setting) (enclosing : Option Text)
    (declaration : Declaration) : (document setting enclosing declaration).lines ≠ [] := by
  rw [document_lines]
  simp [Block.summaryLines]

theorem isBlank_of_mem_names {params name : Text} (member : name ∈ Parameters.names params) :
    ∀ character ∈ name, Text.isBlank character = false := by
  obtain ⟨piece, _, named⟩ := List.mem_filterMap.mp member
  have kept := List.mem_of_getLast? named
  exact Text.isBlank_of_mem_words (List.mem_filter.mp kept).1

section Avoidance

variable {table : Curated.Table} {path : Text} {cues : FileCues} {character : Char}

theorem mem_texts_of_lookup {doc : Curated.Doc} {name description : Text}
    (found : doc.params.lookup name = some description) : description ∈ doc.texts := by
  have value := mem_of_lookup_eq_some found
  exact List.mem_cons_of_mem _ (List.mem_append_left _ value)

theorem avoids_of_curated? (avoids : table.Avoids character) {enclosing : Option Text}
    {declaration : Declaration} {doc : Curated.Doc}
    (found : curated? table path enclosing declaration = some doc) :
    ∀ text ∈ doc.texts, character ∉ text := by
  obtain ⟨entry, member, rfl⟩ := Curated.Table.exists_entry_of_lookup? found
  exact avoids entry member

theorem not_mem_summaryText (excluded : isSentenceCharacter character = false)
    (avoids : table.Avoids character) (enclosing : Option Text) (declaration : Declaration) :
    character ∉ summaryText ⟨table, path, cues⟩ enclosing declaration := by
  unfold summaryText
  cases found : curated? table path enclosing declaration with
  | some doc => exact avoids_of_curated? avoids found doc.summary (List.mem_cons_self ..)
  | none => exact (isSentence_summarize _ _ _ _).not_mem excluded

theorem not_mem_describeParam (excluded : isSentenceCharacter character = false)
    (avoids : table.Avoids character) (enclosing : Option Text) (declaration : Declaration)
    (name : Text) :
    character ∉ Block.describeParam (curated? table path enclosing declaration) name := by
  unfold Block.describeParam
  cases found : curated? table path enclosing declaration with
  | none => exact (isSentence_describe name).not_mem excluded
  | some doc =>
      rw [Option.bind_some]
      cases given : doc.params.lookup name with
      | none => exact (isSentence_describe name).not_mem excluded
      | some description =>
          exact avoids_of_curated? avoids found description (mem_texts_of_lookup given)

theorem not_mem_describeReturns (excluded : isSentenceCharacter character = false)
    (avoids : table.Avoids character) (enclosing : Option Text) (declaration : Declaration)
    (name summary : Text) :
    character ∉
      Block.describeReturns (curated? table path enclosing declaration) name summary := by
  unfold Block.describeReturns
  cases given : ((curated? table path enclosing declaration).bind Curated.Doc.returns <|>
      Returns.ofName? name) with
  | none => exact (isSentence_ofSummary summary).not_mem excluded
  | some description =>
      simp only [Option.orElse_eq_orElse, Option.orElse_eq_or, Option.or_eq_some_iff,
        Option.bind_eq_some_iff] at given
      rcases given with ⟨doc, found, returns⟩ | ⟨_, hint⟩
      · apply avoids_of_curated? avoids found description
        simp [Curated.Doc.texts, returns]
      · exact (isSentence_ofName? hint).not_mem excluded

theorem not_mem_summaryLines (excluded : isSentenceCharacter character = false) {summary : Text}
    (absent : character ∉ summary) : ∀ line ∈ Block.summaryLines summary, character ∉ line := by
  have opening : IsSentence "/// <summary>".toList := by decide
  have marker : IsSentence "/// ".toList := by decide
  have closing : IsSentence "/// </summary>".toList := by decide
  intro line member
  rcases List.mem_cons.mp member with same | member
  · rw [same]
    exact opening.not_mem excluded
  · rcases List.mem_cons.mp member with same | member
    · rw [same]
      exact List.not_mem_append (marker.not_mem excluded) absent
    · rw [List.mem_singleton.mp member]
      exact closing.not_mem excluded

theorem not_mem_paramLine (excluded : isSentenceCharacter character = false) {name description : Text}
    (name' : character ∉ name) (description' : character ∉ description) :
    character ∉ Block.paramLine name description := by
  have opening : IsSentence "/// <param name=\"".toList := by decide
  have middle : IsSentence "\">".toList := by decide
  have closing : IsSentence "</param>".toList := by decide
  unfold Block.paramLine
  apply List.not_mem_append _ (closing.not_mem excluded)
  apply List.not_mem_append _ description'
  apply List.not_mem_append _ (middle.not_mem excluded)
  exact List.not_mem_append (opening.not_mem excluded) name'

theorem not_mem_returnsLine (excluded : isSentenceCharacter character = false) {description : Text}
    (absent : character ∉ description) : character ∉ Block.returnsLine description := by
  have opening : IsSentence "/// <returns>".toList := by decide
  have closing : IsSentence "</returns>".toList := by decide
  unfold Block.returnsLine
  apply List.not_mem_append _ (closing.not_mem excluded)
  exact List.not_mem_append (opening.not_mem excluded) absent

theorem not_mem_of_mem_document (excluded : isSentenceCharacter character = false)
    (blank : Text.isBlank character = true) (avoids : table.Avoids character)
    {enclosing : Option Text} {declaration : Declaration} {line : Text}
    (member : line ∈ (document ⟨table, path, cues⟩ enclosing declaration).lines) :
    character ∉ line := by
  rw [document_lines, List.mem_append] at member
  rcases member with summary | element
  · exact not_mem_summaryLines excluded (not_mem_summaryText excluded avoids _ _) line summary
  · cases declaration with
    | type kind name => simp [elementLines] at element
    | property name => simp [elementLines] at element
    | method name returnType params =>
        rw [elementLines, List.mem_append, List.mem_map] at element
        rcases element with ⟨param, named, same⟩ | returns
        · rw [← same]
          apply not_mem_paramLine excluded _ (not_mem_describeParam excluded avoids _ _ param)
          intro inside
          have solid := isBlank_of_mem_names named character inside
          rw [blank] at solid
          cases solid
        · unfold Block.returnsLines at returns
          split at returns
          · simp at returns
          · split at returns
            · simp at returns
            · rw [List.mem_singleton.mp returns]
              exact not_mem_returnsLine excluded (not_mem_describeReturns excluded avoids _ _ _ _)

end Avoidance

end Refresh

end DocComments
