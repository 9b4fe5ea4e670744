import DocComments.Declaration
import DocComments.Identifier
import DocComments.Text.LowerCase
import DocComments.Wording.FileCues

/-! Summary sentences. A type is described by its kind, then by what its file is about, then by
the ending of its name. A member is described by the verb its name begins with, the remaining
words of the name being the object of the sentence. -/

namespace DocComments

namespace Summary

structure VerbRule where
  verbs : List Text
  /-- What follows the object of the sentence. -/
  ending : Text
  /-- The whole sentence for a name that has no object. -/
  bare : Text

namespace VerbRule

def appliesTo (rule : VerbRule) (lowered : Text) : Bool :=
  rule.verbs.any fun verb => verb.isPrefixOf lowered

def sentence (rule : VerbRule) (object : List Text) : Text :=
  if object.isEmpty then rule.bare else Identifier.phrase object ++ rule.ending

end VerbRule

def verbRules : List VerbRule := [
  ⟨["get".toList], "를(을) 가져옵니다.".toList, "값을 가져옵니다.".toList⟩,
  ⟨["set".toList], "를(을) 설정합니다.".toList, "값을 설정합니다.".toList⟩,
  ⟨["add".toList], "를(을) 추가합니다.".toList, "항목을 추가합니다.".toList⟩,
  ⟨["remove".toList], "를(을) 제거합니다.".toList, "항목을 제거합니다.".toList⟩,
  ⟨["update".toList], "를(을) 업데이트합니다.".toList, "상태를 업데이트합니다.".toList⟩,
  ⟨["create".toList, "build".toList], "를(을) 생성합니다.".toList,
    "새 인스턴스를 생성합니다.".toList⟩,
  ⟨["delete".toList], "를(을) 삭제합니다.".toList, "항목을 삭제합니다.".toList⟩,
  ⟨["find".toList, "search".toList], "를(을) 찾습니다.".toList, "항목을 찾습니다.".toList⟩,
  ⟨["load".toList], "를(을) 로드합니다.".toList, "데이터를 로드합니다.".toList⟩,
  ⟨["save".toList], "를(을) 저장합니다.".toList, "데이터를 저장합니다.".toList⟩,
  ⟨["parse".toList], "를(을) 구문 분석합니다.".toList, "입력을 구문 분석합니다.".toList⟩]

def lateVerbRules : List VerbRule := [
  ⟨["to".toList, "convert".toList], "로 변환합니다.".toList, "값을 변환합니다.".toList⟩,
  ⟨["try".toList], "를(을) 시도하고, 성공 여부를 반환합니다.".toList,
    "작업을 시도하고, 성공 여부를 반환합니다.".toList⟩,
  ⟨["is".toList], "인지 여부를 확인합니다.".toList,
    "조건을 만족하는지 여부를 확인합니다.".toList⟩,
  ⟨["has".toList], "를(을) 보유하는지 여부를 확인합니다.".toList,
    "값을 보유하는지 여부를 확인합니다.".toList⟩]

def predicateSentences : List (Text × Text) := [
  ("Contains".toList, "포함 여부를 확인합니다.".toList),
  ("StartsWith".toList, "시작 여부를 확인합니다.".toList),
  ("EndsWith".toList, "끝나는지 여부를 확인합니다.".toList)]

def converterSentences : List (Text × Text) := [
  ("Convert".toList, "값을 변환합니다.".toList),
  ("ConvertBack".toList, "대상 값을 원본으로 변환합니다.".toList)]

/-- The sentence of the first rule that applies. The object is every word of the name but the
first, wherever the verb ends. -/
def verbSentence? (rules : List VerbRule) (name : Text) : Option Text :=
  (rules.find? fun rule => rule.appliesTo name.lower).map fun rule =>
    rule.sentence (Identifier.fragments name).tail

def converterSentence? (name : Text) (cues : FileCues) : Option Text :=
  if cues.valueConverter then converterSentences.lookup name else none

def ofMember (name : Text) (kind : MemberKind) (cues : FileCues) : Text :=
  let known := verbSentence? verbRules name <|> converterSentence? name cues <|>
    verbSentence? lateVerbRules name <|> predicateSentences.lookup name
  known.getD <|
    if kind = .property then
      Identifier.phrase (Identifier.fragments name) ++ "를(을) 가져오거나 설정합니다.".toList
    else "동작을 수행합니다.".toList

def ofInterface (name : Text) : Text :=
  let words := Identifier.fragments name
  if name.head? = some 'I' && 1 < words.length then
    Identifier.phrase words.tail ++ " 인터페이스를 정의합니다.".toList
  else "인터페이스를 정의합니다.".toList

def ofClass (name : Text) (cues : FileCues) : Text :=
  if cues.converterModule then "값 변환기를 제공합니다.".toList
  else if cues.helperModule then "유틸리티 메서드를 제공합니다.".toList
  else if "Attribute".toList.isSuffixOf name then "사용자 지정 특성을 정의합니다.".toList
  else if "Extensions".toList.isSuffixOf name || "Ext".toList.isSuffixOf name then
    "확장 메서드를 제공합니다.".toList
  else Identifier.phrase (Identifier.fragments name) ++ "를(을) 제공합니다.".toList

def ofType (name : Text) (kind : Option TypeKind) (cues : FileCues) : Text :=
  match kind with
  | some .interfaceType => ofInterface name
  | some .enumType => "열거형을 정의합니다.".toList
  | _ => ofClass name cues

def ofConstructor (name : Text) : Text :=
  "새 ".toList ++ Identifier.phrase (Identifier.fragments name) ++
    " 인스턴스를 초기화합니다.".toList

end Summary

def summarize (name : Text) (kind : MemberKind) (typeKind : Option TypeKind)
    (cues : FileCues) : Text :=
  match kind with
  | .type => Summary.ofType name typeKind cues
  | .constructor => Summary.ofConstructor name
  | .method => Summary.ofMember name .method cues
  | .property => Summary.ofMember name .property cues

end DocComments
