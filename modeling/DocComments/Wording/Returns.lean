import DocComments.Wording.Summary

/-! Descriptions of return values. -/

namespace DocComments

namespace Returns

def success : Text := "성공하면 true를 반환합니다.".toList

def condition : Text := "조건을 만족하면 true를 반환합니다.".toList

def conversion : Text := "변환 결과를 반환합니다.".toList

def generic : Text := "결과를 반환합니다.".toList

def ofName? (name : Text) : Option Text :=
  if "Try".toList.isPrefixOf name then some success
  else if "Is".toList.isPrefixOf name || "Has".toList.isPrefixOf name ||
      (Summary.predicateSentences.lookup name).isSome then some condition
  else none

def ofSummary (summary : Text) : Text :=
  if Text.occursIn "여부".toList summary then
    if Text.occursIn "성공".toList summary then success else condition
  else if Text.occursIn "변환".toList summary then conversion
  else generic

end Returns

end DocComments
