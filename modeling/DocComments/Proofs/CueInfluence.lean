import DocComments.Proofs.Verbs

/-! What the cues of a file change in its sentences. They decide what is said of classes, and of
one member: the sentence for `Convert` is the one that its verb has anyway (`summarize_eq_iff`).
-/

namespace DocComments

namespace Summary

theorem ofMember_convert (kind : MemberKind) (cues : FileCues) :
    ofMember "Convert".toList kind cues = "값을 변환합니다.".toList := by
  cases found : converterSentence? "Convert".toList cues with
  | none => exact ofMember_of_rule rfl found kind
  | some sentence =>
      rw [ofMember_of_converter found]
      unfold converterSentence? at found
      split at found
      · exact (Option.some.inj found).symm
      · cases found

theorem ofMember_convertBack (kind : MemberKind) (cues : FileCues) :
    ofMember "ConvertBack".toList kind cues =
      if cues.valueConverter then "대상 값을 원본으로 변환합니다.".toList
      else "Back로 변환합니다.".toList := by
  cases conversions : cues.valueConverter with
  | true =>
      apply ofMember_of_converter
      rw [converterSentence?, conversions]
      rfl
  | false =>
      have ordinary : converterSentence? "ConvertBack".toList cues = none := by
        rw [converterSentence?, conversions]
        rfl
      rw [ofMember_of_rule rfl ordinary]
      decide

theorem converterSentence?_eq_none {name : Text} (forward : name ≠ "Convert".toList)
    (backward : name ≠ "ConvertBack".toList) (cues : FileCues) :
    converterSentence? name cues = none := by
  cases found : converterSentence? name cues with
  | none => rfl
  | some sentence =>
      have member := mem_of_converterSentence? found
      simp only [converterSentences, List.mem_cons, List.not_mem_nil, or_false, Prod.mk.injEq] at member
      rcases member with ⟨same, _⟩ | ⟨same, _⟩
      · exact absurd same forward
      · exact absurd same backward

theorem ofMember_eq_iff (name : Text) (kind : MemberKind) (cues other : FileCues) :
    ofMember name kind cues = ofMember name kind other ↔
      (name = "ConvertBack".toList → cues.valueConverter = other.valueConverter) := by
  by_cases backward : name = "ConvertBack".toList
  · rw [backward, ofMember_convertBack, ofMember_convertBack]
    cases cues.valueConverter <;> cases other.valueConverter <;> decide
  · refine iff_of_true ?_ (fun same => absurd same backward)
    by_cases forward : name = "Convert".toList
    · rw [forward, ofMember_convert, ofMember_convert]
    · simp only [ofMember, converterSentence?_eq_none forward backward]

def ofPlainClass (name : Text) : Text := ofClass name ⟨false, false, false⟩

theorem ofClass_eq (name : Text) (cues : FileCues) :
    ofClass name cues =
      if cues.converterModule then "값 변환기를 제공합니다.".toList
      else if cues.helperModule then "유틸리티 메서드를 제공합니다.".toList
      else ofPlainClass name := rfl

theorem ofPlainClass_ne {name text : Text}
    (other : text ∉ ["사용자 지정 특성을 정의합니다.".toList, "확장 메서드를 제공합니다.".toList])
    (ending : ¬"를(을) 제공합니다.".toList <:+ text) : ofPlainClass name ≠ text := by
  rw [List.mem_cons, List.mem_singleton, not_or] at other
  unfold ofPlainClass ofClass
  rw [if_neg Bool.false_ne_true, if_neg Bool.false_ne_true]
  split
  · exact Ne.symm other.1
  · split
    · exact Ne.symm other.2
    · rintro rfl
      exact ending (List.suffix_append _ _)

theorem ofClass_eq_iff (name : Text) (cues other : FileCues) :
    ofClass name cues = ofClass name other ↔ cues.converterModule = other.converterModule ∧
      (cues.converterModule = false → cues.helperModule = other.helperModule) := by
  have converter : ofPlainClass name ≠ "값 변환기를 제공합니다.".toList :=
    ofPlainClass_ne (by decide) (by decide)
  have helper : ofPlainClass name ≠ "유틸리티 메서드를 제공합니다.".toList :=
    ofPlainClass_ne (by decide) (by decide)
  have apart : "값 변환기를 제공합니다.".toList ≠ "유틸리티 메서드를 제공합니다.".toList := by decide
  rw [ofClass_eq, ofClass_eq]
  generalize "값 변환기를 제공합니다.".toList = converterText at converter apart
  generalize "유틸리티 메서드를 제공합니다.".toList = helperText at helper apart
  cases cues.converterModule <;> cases other.converterModule <;> cases cues.helperModule <;>
    cases other.helperModule <;>
    simp [converter, helper, apart, converter.symm, helper.symm, apart.symm]

theorem ofType_eq_iff (name : Text) (typeKind : Option TypeKind) (cues other : FileCues) :
    ofType name typeKind cues = ofType name typeKind other ↔
      (typeKind ≠ some .interfaceType → typeKind ≠ some .enumType →
        ofClass name cues = ofClass name other) := by
  unfold ofType
  split
  · simp
  · simp
  · next interface enum =>
    constructor
    · exact fun same _ _ => same
    · exact fun same => same interface enum

end Summary

/-- When two files agree about a declaration: exactly if neither its class nor its conversion shows a cue
that only one of them has. -/
theorem summarize_eq_iff (name : Text) (kind : MemberKind) (typeKind : Option TypeKind)
    (cues other : FileCues) :
    summarize name kind typeKind cues = summarize name kind typeKind other ↔
      (kind = .type → typeKind ≠ some .interfaceType → typeKind ≠ some .enumType →
        cues.converterModule = other.converterModule ∧
          (cues.converterModule = false → cues.helperModule = other.helperModule)) ∧
      (kind = .method ∨ kind = .property → name = "ConvertBack".toList →
        cues.valueConverter = other.valueConverter) := by
  cases kind with
  | type =>
      have own := Summary.ofType_eq_iff name typeKind cues other
      rw [Summary.ofClass_eq_iff] at own
      exact own.trans (by simp)
  | constructor => exact iff_of_true rfl (by simp)
  | method => exact (Summary.ofMember_eq_iff name .method cues other).trans (by simp)
  | property => exact (Summary.ofMember_eq_iff name .property cues other).trans (by simp)

/-- A declaration is described the same in two files, unless it is a class and they differ in a cue for
classes, or it is the member `ConvertBack` and one of them only is about value converters. -/
theorem summarize_of_cues (name : Text) (kind : MemberKind) (typeKind : Option TypeKind)
    (cues other : FileCues) :
    (summarize name kind typeKind cues = summarize name kind typeKind other ∨
        kind = .type ∧ typeKind ≠ some .interfaceType ∧ typeKind ≠ some .enumType ∧
          (cues.converterModule ≠ other.converterModule ∨ cues.helperModule ≠ other.helperModule) ∨
        (kind = .method ∨ kind = .property) ∧ name = "ConvertBack".toList ∧
          cues.valueConverter ≠ other.valueConverter) ∧
      summarize name .constructor typeKind cues = summarize name .constructor typeKind other ∧
      summarize name .type (some .interfaceType) cues =
        summarize name .type (some .interfaceType) other ∧
      summarize name .type (some .enumType) cues = summarize name .type (some .enumType) other ∧
      summarize "Convert".toList .method typeKind cues =
        summarize "Convert".toList .method typeKind other ∧
      summarize "Convert".toList .property typeKind cues =
        summarize "Convert".toList .property typeKind other := by
  refine ⟨?_, rfl, rfl, rfl, ?_, ?_⟩
  · by_cases classes : kind = .type ∧ typeKind ≠ some .interfaceType ∧ typeKind ≠ some .enumType ∧
        (cues.converterModule ≠ other.converterModule ∨ cues.helperModule ≠ other.helperModule)
    · exact Or.inr (Or.inl classes)
    · by_cases conversions : (kind = .method ∨ kind = .property) ∧ name = "ConvertBack".toList ∧
          cues.valueConverter ≠ other.valueConverter
      · exact Or.inr (Or.inr conversions)
      · refine Or.inl ((summarize_eq_iff name kind typeKind cues other).mpr ⟨?_, ?_⟩)
        · intro type noInterface noEnum
          have agree : ¬(cues.converterModule ≠ other.converterModule ∨
              cues.helperModule ≠ other.helperModule) :=
            fun differ => classes ⟨type, noInterface, noEnum, differ⟩
          rw [not_or, ne_eq, ne_eq, Decidable.not_not, Decidable.not_not] at agree
          exact ⟨agree.1, fun _ => agree.2⟩
        · intro member named
          exact Decidable.not_not.mp fun unlike => conversions ⟨member, named, unlike⟩
  · exact (summarize_eq_iff _ _ _ _ _).mpr ⟨by simp, fun _ named => absurd named (by decide)⟩
  · exact (summarize_eq_iff _ _ _ _ _).mpr ⟨by simp, fun _ named => absurd named (by decide)⟩

end DocComments
