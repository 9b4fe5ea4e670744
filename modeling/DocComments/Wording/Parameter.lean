import DocComments.Text.LowerCase

/-! Descriptions of parameters. -/

namespace DocComments

namespace Parameters

def descriptions : List (Text × Text) := [
  ("value".toList, "입력 값".toList),
  ("targettype".toList, "대상 형식".toList),
  ("param".toList, "매개 변수".toList),
  ("parameter".toList, "매개 변수".toList),
  ("culture".toList, "문화권 정보".toList),
  ("target".toList, "대상".toList),
  ("type".toList, "형식".toList),
  ("name".toList, "이름".toList),
  ("collection".toList, "컬렉션".toList),
  ("items".toList, "항목들".toList),
  ("str".toList, "문자열".toList),
  ("color".toList, "색".toList),
  ("attr".toList, "특성".toList),
  ("actual".toList, "실제값".toList),
  ("expect".toList, "기대값".toList),
  ("op".toList, "연산자".toList),
  ("obj".toList, "대상".toList)]

def describe (name : Text) : Text :=
  (descriptions.lookup name.lower).getD "매개 변수".toList

end Parameters

end DocComments
