import DocComments.Proofs.Fresh
import DocComments.Proofs.Segments

/-! The refreshing of a file segment by segment, without line numbers. A segment is rewritten on
its own, given the cues of the file and the type that encloses its declaration. -/

namespace DocComments

inductive Replaceable (cues : FileCues) (curated : Bool) : Declaration → List Text → Prop
  | placeholder {declaration : Declaration} {block : List Text} :
      (∃ line ∈ block, "<summary>".toList <:+: line) →
      (∃ line ∈ block, Refresh.isPlaceholderLine line = true) →
      Replaceable cues curated declaration block
  | curated {declaration : Declaration} {block : List Text} :
      curated = true → Replaceable cues curated declaration block
  | interface {name : Text} {block : List Text} :
      Replaceable cues curated (.type .interfaceType name) block
  | conversion {name params : Text} {returnType : Option Text} {block : List Text} :
      cues.valueConverter = true → name = "Convert".toList ∨ name = "ConvertBack".toList →
      (∃ line ∈ block, "로 변환합니다.".toList <:+: line) →
      Replaceable cues curated (.method name returnType params) block

theorem isPlaceholder_iff (block : List Text) :
    Refresh.isPlaceholder block = true ↔
      (∃ line ∈ block, "<summary>".toList <:+: line) ∧
        ∃ line ∈ block, Refresh.isPlaceholderLine line = true := by
  simp only [Refresh.isPlaceholder, Bool.and_eq_true, List.any_eq_true, Text.occursIn_iff]

theorem isStaleConversion_iff (cues : FileCues) (name : Text) (block : List Text) :
    Refresh.isStaleConversion cues name block = true ↔
      cues.valueConverter = true ∧ (name = "Convert".toList ∨ name = "ConvertBack".toList) ∧
        ∃ line ∈ block, "로 변환합니다.".toList <:+: line := by
  simp only [Refresh.isStaleConversion, Bool.and_eq_true, List.any_eq_true, Text.occursIn_iff,
    List.contains_iff_mem, List.mem_cons, List.not_mem_nil, or_false, and_assoc]

theorem replaceable_iff {cues : FileCues} {curated : Bool} {declaration : Declaration}
    {block : List Text} :
    Replaceable cues curated declaration block ↔
      Refresh.isPlaceholder block = true ∨ curated = true ∨
        (∃ name, declaration = .type .interfaceType name) ∨
        ∃ name returnType params, declaration = .method name returnType params ∧
          Refresh.isStaleConversion cues name block = true := by
  constructor
  · intro replaceable
    cases replaceable with
    | placeholder summary template => exact Or.inl ((isPlaceholder_iff _).mpr ⟨summary, template⟩)
    | curated given => exact Or.inr (Or.inl given)
    | interface => exact Or.inr (Or.inr (Or.inl ⟨_, rfl⟩))
    | conversion cue name stale =>
        have outdated := (isStaleConversion_iff _ _ _).mpr ⟨cue, name, stale⟩
        exact Or.inr (Or.inr (Or.inr ⟨_, _, _, rfl, outdated⟩))
  · rintro (template | given | ⟨name, rfl⟩ | ⟨name, returnType, params, rfl, stale⟩)
    · rw [isPlaceholder_iff] at template
      exact Replaceable.placeholder template.1 template.2
    · exact Replaceable.curated given
    · exact Replaceable.interface
    · rw [isStaleConversion_iff] at stale
      exact Replaceable.conversion stale.1 stale.2.1 stale.2.2

theorem replaceable_of_stale {cues : FileCues} {curated : Bool} {declaration : Declaration}
    {name params : Text} {returnType : Option Text} {block : List Text}
    (method : declaration = .method name returnType params)
    (stale : Refresh.isStaleConversion cues name block = true) :
    Replaceable cues curated declaration block :=
  replaceable_iff.mpr (Or.inr (Or.inr (Or.inr ⟨name, returnType, params, method, stale⟩)))

theorem isOutdated_iff (cues : FileCues) (curated : Bool) (declaration : Declaration)
    (block : List Text) :
    Refresh.isOutdated cues curated declaration block = true ↔
      Replaceable cues curated declaration block := by
  rw [replaceable_iff]
  simp only [Refresh.isOutdated, Bool.or_eq_true, or_assoc]
  cases declaration with
  | type kind name => simp
  | property name => simp
  | method name returnType params => simp

instance (cues : FileCues) (curated : Bool) (declaration : Declaration) (block : List Text) :
    Decidable (Replaceable cues curated declaration block) :=
  decidable_of_iff _ (isOutdated_iff cues curated declaration block)

namespace Segment

def block (segment : Segment) : List Text := (Block.run segment.above).reverse

def fresh (setting : Refresh.Setting) (enclosing : Option Text) (segment : Segment) : List Text :=
  Refresh.fresh setting enclosing segment.line segment.declaration

def IsReplaceable (setting : Refresh.Setting) (enclosing : Option Text) (segment : Segment) : Prop :=
  Replaceable setting.cues (Refresh.document setting enclosing segment.declaration).curated
    segment.declaration segment.block

instance (setting : Refresh.Setting) (enclosing : Option Text) (segment : Segment) :
    Decidable (segment.IsReplaceable setting enclosing) :=
  inferInstanceAs (Decidable (Replaceable _ _ _ _))

def aboveRefreshed (setting : Refresh.Setting) (enclosing : Option Text) (segment : Segment) :
    List Text :=
  let fresh := (segment.fresh setting enclosing).reverse
  if segment.block = [] then fresh ++ segment.above
  else if segment.IsReplaceable setting enclosing then
    Block.passed segment.above ++ (fresh ++ Block.beyond segment.above)
  else segment.above

theorem parts_append (segment : Segment) :
    Block.passed segment.above ++ (segment.block.reverse ++ Block.beyond segment.above) =
      segment.above := by
  rw [block, List.reverse_reverse, Block.parts_append]

theorem lines_eq_parts (segment : Segment) :
    segment.lines = (Block.beyond segment.above).reverse ++ (segment.block ++
      ((Block.passed segment.above).reverse ++ [segment.line])) := by
  have whole := congrArg List.reverse segment.parts_append
  simp only [List.reverse_append, List.reverse_reverse, List.append_assoc] at whole
  rw [lines, ← whole]
  simp only [List.append_assoc]

theorem mem_aboveRefreshed {setting : Refresh.Setting} {enclosing : Option Text} {segment : Segment}
    {other : Text} (member : other ∈ segment.aboveRefreshed setting enclosing) :
    other ∈ segment.above ∨ other ∈ segment.fresh setting enclosing := by
  have whole := segment.parts_append
  unfold aboveRefreshed at member
  dsimp only at member
  split at member
  · simpa [or_comm] using member
  · split at member
    · simp only [List.mem_append, List.mem_reverse] at member
      rw [← whole]
      simp only [List.mem_append]
      rcases member with passed | fresh | beyond
      · exact Or.inl (Or.inl passed)
      · exact Or.inr fresh
      · exact Or.inl (Or.inr (Or.inr beyond))
    · exact Or.inl member

theorem recognize?_of_isDocLine {line : Text} (doc : Block.isDocLine line = true) :
    Declaration.recognize? line.dropTerminator = none := by
  rw [Option.eq_none_iff_forall_ne_some]
  intro declaration recognized
  rw [Block.isDocLine_of_hasAccess (Declaration.hasAccess_of_recognize? recognized)] at doc
  cases doc

theorem aboveRefreshed_of_kept {setting : Refresh.Setting} {enclosing : Option Text}
    {segment : Segment} (nonempty : segment.block ≠ [])
    (kept : ¬(segment.IsReplaceable setting enclosing ∧
      segment.block ≠ segment.fresh setting enclosing)) :
    segment.aboveRefreshed setting enclosing = segment.above := by
  unfold aboveRefreshed
  rw [if_neg nonempty]
  split
  · next replaceable =>
      have same : segment.block = segment.fresh setting enclosing :=
        not_not.mp fun different => kept ⟨replaceable, different⟩
      rw [← same, segment.parts_append]
  · rfl

def refresh (setting : Refresh.Setting) (enclosing : Option Text) (segment : Segment) : Segment :=
  { segment with
    above := segment.aboveRefreshed setting enclosing
    plain := by
      intro other member
      rcases mem_aboveRefreshed member with old | fresh
      · exact segment.plain other old
      · exact recognize?_of_isDocLine (Refresh.isDocLine_of_mem_fresh fresh) }

theorem lines_refresh_of_missing (setting : Refresh.Setting) (enclosing : Option Text)
    {segment : Segment} (empty : segment.block = []) :
    (segment.refresh setting enclosing).lines =
      segment.above.reverse ++ (segment.fresh setting enclosing ++ [segment.line]) := by
  simp [refresh, lines, aboveRefreshed, empty]

theorem lines_refresh_of_replaceable {setting : Refresh.Setting} {enclosing : Option Text}
    {segment : Segment} (nonempty : segment.block ≠ [])
    (replaceable : segment.IsReplaceable setting enclosing) :
    (segment.refresh setting enclosing).lines =
      (Block.beyond segment.above).reverse ++ (segment.fresh setting enclosing ++
        ((Block.passed segment.above).reverse ++ [segment.line])) := by
  simp [refresh, lines, aboveRefreshed, nonempty, replaceable]

theorem lines_refresh_of_kept {setting : Refresh.Setting} {enclosing : Option Text}
    {segment : Segment} (nonempty : segment.block ≠ [])
    (kept : ¬(segment.IsReplaceable setting enclosing ∧
      segment.block ≠ segment.fresh setting enclosing)) :
    (segment.refresh setting enclosing).lines = segment.lines := by
  simp only [refresh, lines, aboveRefreshed_of_kept nonempty kept]

end Segment

namespace Outline

def refresh (setting : Refresh.Setting) (outline : Outline) : Outline :=
  { outline with
    segments := (enclosed none outline.segments).map fun place =>
      place.2.refresh setting place.1 }

theorem enclosed_refresh (setting : Refresh.Setting) (outer : Option Text)
    (segments : List Segment) :
    enclosed outer ((enclosed outer segments).map fun place => place.2.refresh setting place.1) =
      (enclosed outer segments).map fun place =>
        (place.1, place.2.refresh setting place.1) := by
  induction segments generalizing outer with
  | nil => rfl
  | cons segment below ih =>
      simp only [enclosed, List.map_cons]
      exact congrArg (List.cons _) (ih _)

end Outline

end DocComments
