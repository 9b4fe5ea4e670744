import DocComments.Curated
import DocComments.Declaration.Parameters
import DocComments.Wording.Parameter
import DocComments.Wording.Returns

/-! Documentation blocks as generated: their lines, without indentation and terminators. -/

namespace DocComments

namespace Block

def marker : Text := "///".toList

def summaryLines (summary : Text) : List Text :=
  ["/// <summary>".toList, "/// ".toList ++ summary, "/// </summary>".toList]

def paramLine (name description : Text) : Text :=
  "/// <param name=\"".toList ++ name ++ "\">".toList ++ description ++ "</param>".toList

def returnsLine (description : Text) : Text :=
  "/// <returns>".toList ++ description ++ "</returns>".toList

def describeParam (curated : Option Curated.Doc) (name : Text) : Text :=
  (curated.bind fun doc => doc.params.lookup name).getD (Parameters.describe name)

def describeReturns (curated : Option Curated.Doc) (name summary : Text) : Text :=
  (curated.bind Curated.Doc.returns <|> Returns.ofName? name).getD (Returns.ofSummary summary)

def returnsLines (curated : Option Curated.Doc) (name summary : Text) :
    Option Text → List Text
  | none => []
  | some returnType =>
    if returnType = "void".toList then []
    else [returnsLine (describeReturns curated name summary)]

def methodLines (name summary : Text) (returnType : Option Text) (params : Text)
    (curated : Option Curated.Doc) : List Text :=
  summaryLines summary ++
    (Parameters.names params).map (fun param => paramLine param (describeParam curated param)) ++
    returnsLines curated name summary returnType

end Block

end DocComments
