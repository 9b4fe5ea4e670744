import DocComments.Proofs.Sites

/-! Template lines, those that begin with the word that is left to be filled in, and the blocks
that are replaced for their sake. Such a line counts wherever it stands in its block: the summary
element is looked for in the block as a whole, and not around the line. -/

namespace DocComments

namespace Refresh

def OpensSummary (line : Text) : Prop := "<summary>".toList <:+: line

def ClosesSummary (line : Text) : Prop := "</summary>".toList <:+: line

instance (line : Text) : Decidable (OpensSummary line) :=
  decidable_of_iff _ (Text.occursIn_iff "<summary>".toList line)

instance (line : Text) : Decidable (ClosesSummary line) :=
  decidable_of_iff _ (Text.occursIn_iff "</summary>".toList line)

def HasOpenTemplate (block : List Text) : Prop :=
  ∃ between line after, block = between ++ line :: after ∧
    (∀ other ∈ between, ¬ClosesSummary other) ∧ isPlaceholderLine line = true

/-- A template line inside a summary: below a line that opens one, with no end of it in between. -/
def HasTemplateSummary (block : List Text) : Prop :=
  ∃ before opening inner, block = before ++ opening :: inner ∧ OpensSummary opening ∧
    HasOpenTemplate inner

theorem hasOpenTemplate_cons (line : Text) (below : List Text) :
    HasOpenTemplate (line :: below) ↔
      isPlaceholderLine line = true ∨ (¬ClosesSummary line ∧ HasOpenTemplate below) := by
  constructor
  · rintro ⟨between, template, after, cut, unclosed, marked⟩
    cases between with
    | nil =>
        obtain ⟨rfl, _⟩ := List.cons.inj cut
        exact Or.inl marked
    | cons first between =>
        obtain ⟨rfl, rest⟩ := List.cons.inj cut
        rw [List.forall_mem_cons] at unclosed
        exact Or.inr ⟨unclosed.1, between, template, after, rest, unclosed.2, marked⟩
  · rintro (marked | ⟨unclosed, between, template, after, rfl, others, marked⟩)
    · exact ⟨[], line, below, rfl, by simp, marked⟩
    · exact ⟨line :: between, template, after, rfl, List.forall_mem_cons.mpr ⟨unclosed, others⟩,
        marked⟩

theorem hasTemplateSummary_cons (line : Text) (below : List Text) :
    HasTemplateSummary (line :: below) ↔
      (OpensSummary line ∧ HasOpenTemplate below) ∨ HasTemplateSummary below := by
  constructor
  · rintro ⟨before, opening, inner, cut, opened, template⟩
    cases before with
    | nil =>
        obtain ⟨rfl, rfl⟩ := List.cons.inj cut
        exact Or.inl ⟨opened, template⟩
    | cons first before =>
        obtain ⟨rfl, rest⟩ := List.cons.inj cut
        exact Or.inr ⟨before, opening, inner, rest, opened, template⟩
  · rintro (⟨opened, template⟩ | ⟨before, opening, inner, rfl, opened, template⟩)
    · exact ⟨[], line, below, rfl, opened, template⟩
    · exact ⟨line :: before, opening, inner, rfl, opened, template⟩

instance decidableHasOpenTemplate : (block : List Text) → Decidable (HasOpenTemplate block)
  | [] => isFalse (by simp [HasOpenTemplate])
  | line :: below =>
    have := decidableHasOpenTemplate below
    decidable_of_iff _ (hasOpenTemplate_cons line below).symm

instance decidableHasTemplateSummary : (block : List Text) → Decidable (HasTemplateSummary block)
  | [] => isFalse (by simp [HasTemplateSummary])
  | line :: below =>
    have := decidableHasTemplateSummary below
    decidable_of_iff _ (hasTemplateSummary_cons line below).symm

def HasStrayTemplate (block : List Text) : Prop :=
  (∃ line ∈ block, OpensSummary line) ∧ (∃ line ∈ block, isPlaceholderLine line = true) ∧
    ∀ before opening between line after, block = before ++ opening :: (between ++ line :: after) →
      OpensSummary opening → isPlaceholderLine line = true → ∃ other ∈ between, ClosesSummary other

theorem hasStrayTemplate_iff (block : List Text) :
    HasStrayTemplate block ↔ isPlaceholder block = true ∧ ¬HasTemplateSummary block := by
  rw [isPlaceholder_iff, HasStrayTemplate, and_assoc]
  refine and_congr_right fun _ => and_congr_right fun _ => ?_
  constructor
  · rintro closed ⟨before, opening, _, rfl, opened, between, line, after, rfl, unclosed, marked⟩
    obtain ⟨other, member, closes⟩ := closed _ _ _ _ _ rfl opened marked
    exact unclosed other member closes
  · intro outside before opening between line after cut opened marked
    by_contra unclosed
    apply outside
    refine ⟨before, opening, _, cut, opened, between, line, after, rfl, ?_, marked⟩
    intro other member closes
    exact unclosed ⟨other, member, closes⟩

end Refresh

namespace Site

structure IsOrdinary (table : Curated.Table) (path : Text) (site : Site) : Prop where
  plain : Refresh.curated? table path site.enclosing site.declaration = none
  noInterface : ∀ name, site.declaration ≠ .type .interfaceType name
  noConversion : ∀ name returnType params, site.declaration = .method name returnType params →
    name ≠ "Convert".toList ∧ name ≠ "ConvertBack".toList

theorem IsOrdinary.replaceable_iff {table : Curated.Table} {path : Text} {site : Site}
    (ordinary : site.IsOrdinary table path) (cues : FileCues) (block : List Text) :
    Replaceable cues (Refresh.document ⟨table, path, cues⟩ site.enclosing site.declaration).curated
      site.declaration block ↔ Refresh.isPlaceholder block = true := by
  have plain := Refresh.document_curated ⟨table, path, cues⟩ site.enclosing site.declaration
  rw [ordinary.plain] at plain
  rw [plain, DocComments.replaceable_iff]
  constructor
  · rintro (template | curated | ⟨name, interface⟩ | ⟨name, returnType, params, method, stale⟩)
    · exact template
    · cases curated
    · exact (ordinary.noInterface name interface).elim
    · have other := ordinary.noConversion name returnType params method
      rcases ((isStaleConversion_iff _ _ _).mp stale).2.1 with same | same
      · exact (other.1 same).elim
      · exact (other.2 same).elim
  · exact Or.inl

theorem IsOrdinary.replace_mem_plan_iff {table : Curated.Table} {path text : Text} {site : Site}
    (ordinary : site.IsOrdinary table path) (cut : site.file = text.lines)
    {block : Block.Located} (found : site.block? = some block) (lines : List Text) :
    .replace block.span.start block.span.last lines ∈ plan table path text ↔
      lines = site.fresh ⟨table, path, FileCues.ofText text⟩ ∧
        Refresh.isPlaceholder block.lines = true ∧ block.lines ≠ lines := by
  rw [Site.replace_mem_plan_iff cut found, edit?_of_block found]
  simp only [ordinary.replaceable_iff]
  constructor
  · intro planned
    split at planned
    · next outdated =>
        obtain ⟨_, _, same⟩ := Edit.replace.inj (Option.some.inj planned)
        rw [← same]
        exact ⟨rfl, outdated⟩
    · cases planned
  · rintro ⟨rfl, outdated⟩
    exact if_pos outdated

end Site

/-- What an author wrote for an ordinary member is given up for the template lines in its summary only,
except where a template line stands outside the summary of a block that is not the generated one. -/
theorem templates_in_summary_iff (table : Curated.Table) (path text : Text) :
    (∀ (site : Site) (block : Block.Located) (lines : List Text), site.file = text.lines →
        site.IsOrdinary table path → site.block? = some block →
        .replace block.span.start block.span.last lines ∈ plan table path text →
        Refresh.HasTemplateSummary block.lines) ↔
      ¬∃ (site : Site) (block : Block.Located), site.file = text.lines ∧
        site.IsOrdinary table path ∧ site.block? = some block ∧
        block.lines ≠ site.fresh ⟨table, path, FileCues.ofText text⟩ ∧
        Refresh.HasStrayTemplate block.lines := by
  constructor
  · rintro inside ⟨site, block, cut, ordinary, found, different, stray⟩
    rw [Refresh.hasStrayTemplate_iff] at stray
    have planned := (ordinary.replace_mem_plan_iff cut found _).mpr ⟨rfl, stray.1, different⟩
    exact stray.2 (inside site block _ cut ordinary found planned)
  · intro none site block lines cut ordinary found planned
    obtain ⟨rfl, template, different⟩ := (ordinary.replace_mem_plan_iff cut found _).mp planned
    by_contra outside
    apply none
    refine ⟨site, block, cut, ordinary, found, different, ?_⟩
    exact (Refresh.hasStrayTemplate_iff _).mpr ⟨template, outside⟩

def remarked : List Text :=
  ["/// <summary>\n".toList, "/// Counts users.\n".toList, "/// </summary>\n".toList,
    "/// <remarks>\n".toList, "/// 설명서를 보세요.\n".toList, "/// </remarks>\n".toList]

theorem remarked_replaced :
    ∃ (site : Site) (block : Block.Located) (lines : List Text),
      site.file = Text.lines (remarked.flatten ++ "public int GetUserCount()\n".toList) ∧
        site.IsOrdinary Curated.shipped "A.cs".toList ∧ site.block? = some block ∧
        .replace block.span.start block.span.last lines ∈ plan Curated.shipped "A.cs".toList
          (remarked.flatten ++ "public int GetUserCount()\n".toList) ∧
        ¬Refresh.HasTemplateSummary block.lines := by
  refine ⟨⟨remarked, "public int GetUserCount()\n".toList, [],
      .method "GetUserCount".toList (some "int".toList) [], by decide +kernel⟩, ⟨⟨0, 5⟩, remarked⟩,
    ["/// <summary>\n".toList, "/// User Count를(을) 가져옵니다.\n".toList, "/// </summary>\n".toList,
      "/// <returns>결과를 반환합니다.</returns>\n".toList], ?_, ⟨?_, ?_, ?_⟩, ?_, ?_, ?_⟩
  · decide +kernel
  · decide +kernel
  · intro name interface
    cases interface
  · intro name returnType params method
    obtain ⟨rfl, _⟩ := Declaration.method.inj method
    decide +kernel
  · decide +kernel
  · decide +kernel
  · decide +kernel

end DocComments
