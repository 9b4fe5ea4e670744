import DocComments.Curated

/-! The curated documentation that comes with the program. -/

namespace DocComments

namespace Curated

def shipped : Table := [
  { key := "Helpers/CollectionHelper.cs".toList
    kind := .method
    name := "AddRange".toList
    doc :=
      { summary := "지정한 항목들을 컬렉션에 순차적으로 추가합니다.".toList
        params := [
          ("collection".toList, "대상 컬렉션".toList),
          ("items".toList, "추가할 항목 시퀀스".toList)] } },
  { key := "Helpers/ColorHelper.cs".toList
    kind := .method
    name := "GetColorName".toList
    doc :=
      { summary := ("입력 색상과 일치하는 미리 정의된 색상 이름을 반환합니다. " ++
          "없으면 색상 문자열을 반환합니다.").toList
        params := [("color".toList, "색상 값".toList)]
        returns := some "색상 이름 또는 색상 문자열".toList } },
  { key := "Helpers/ColorHelper.cs".toList
    kind := .method
    name := "ToColor".toList
    doc :=
      { summary := "문자열 표현을 Color로 변환합니다. 실패 시 기본 색을 반환합니다.".toList
        params := [
          ("str".toList, "색상 문자열".toList),
          ("defaultColor".toList, "파싱 실패 시 반환할 기본 색".toList)]
        returns := some "변환된 색상 값".toList } },
  { key := "Helpers/ColorHelper.cs".toList
    kind := .method
    name := "TryConvertColor".toList
    doc :=
      { summary := "문자열을 Color로 변환을 시도합니다.".toList
        params := [
          ("str".toList, "색상 문자열".toList),
          ("color".toList, "변환 성공 시 결과 색상".toList)]
        returns := some "성공하면 true, 실패하면 false".toList } },
  { key := "Helpers/DataTableHelper.cs".toList
    kind := .method
    name := "ToList".toList
    doc := { summary := "컬렉션의 항목을 목록(List)으로 변환합니다.".toList } }]

end Curated

end DocComments
