import DocComments.Block.Location
import DocComments.Declaration.Recognition
import DocComments.Edit
import DocComments.Text.Lines

/-! The refreshing of a file's documentation. Each declaration without a block gets one, and a
block that is out of date is generated anew. All edits are planned on the lines as they stand
(`plan`), then applied together (`refreshed`). -/

namespace DocComments

namespace Refresh

structure Setting where
  table : Curated.Table
  path : Text
  cues : FileCues

structure Documentation where
  lines : List Text
  curated : Bool
  deriving DecidableEq, Repr

def enclosingAfter (outer : Option Text) : Declaration → Option Text
  | .type _ name => some name
  | _ => outer

def isConstructor (enclosing : Option Text) (name : Text) (returnType : Option Text) : Bool :=
  returnType.isNone || enclosing == some name

def document (setting : Setting) (enclosing : Option Text) : Declaration → Documentation
  | .type kind name =>
    let doc := setting.table.lookup? setting.path name .type
    let summary := (doc.map Curated.Doc.summary).getD
      (summarize name .type (some kind) setting.cues)
    ⟨Block.summaryLines summary, doc.isSome⟩
  | .property name =>
    let doc := setting.table.lookup? setting.path name .property
    let summary := (doc.map Curated.Doc.summary).getD
      (summarize name .property none setting.cues)
    ⟨Block.summaryLines summary, doc.isSome⟩
  | .method name returnType params =>
    let constructs := isConstructor enclosing name returnType
    let kind := if constructs then MemberKind.constructor else MemberKind.method
    let doc := setting.table.lookup? setting.path name kind
    let summary := (doc.map Curated.Doc.summary).getD (summarize name kind none setting.cues)
    ⟨Block.methodLines name summary (if constructs then none else returnType) params doc,
      doc.isSome⟩

def setLike (line : Text) (lines : List Text) : List Text :=
  lines.map fun generated => line.indentation ++ generated ++ line.terminator

def isPlaceholderLine (line : Text) : Bool :=
  Block.isDocLine line &&
    "설명".toList.isPrefixOf (Text.dropBlanks (line.dropBlanks.drop Block.marker.length))

def isPlaceholder (block : List Text) : Bool :=
  block.any (Text.occursIn "<summary>".toList) && block.any isPlaceholderLine

def isStaleConversion (cues : FileCues) (name : Text) (block : List Text) : Bool :=
  cues.valueConverter && ["Convert".toList, "ConvertBack".toList].contains name &&
    block.any (Text.occursIn "로 변환합니다.".toList)

/-- Whether a block is out of date. What an author wrote is kept, except for interfaces and for
members with curated documentation. -/
def isOutdated (cues : FileCues) (curated : Bool) (declaration : Declaration)
    (block : List Text) : Bool :=
  isPlaceholder block || curated ||
    match declaration with
    | .type kind _ => kind = .interfaceType
    | .method name _ _ => isStaleConversion cues name block
    | .property _ => false

def edit? (setting : Setting) (enclosing : Option Text) (above : List Text) (line : Text)
    (declaration : Declaration) : Option Edit :=
  let documentation := document setting enclosing declaration
  let fresh := setLike line documentation.lines
  match Block.nearest? above with
  | none => some (.insert above.length fresh)
  | some block =>
    if isOutdated setting.cues documentation.curated declaration block.lines &&
        block.lines != fresh then
      some (.replace block.span.start block.span.last fresh)
    else none

/-- The edits for the remaining lines of a file, `above` being those already read from the nearest
on and `enclosing` the type declared last among them. -/
def planFrom (setting : Setting) (above : List Text) (enclosing : Option Text) :
    List Text → List Edit
  | [] => []
  | line :: below =>
    match Declaration.recognize? line.dropTerminator with
    | none => planFrom setting (line :: above) enclosing below
    | some declaration =>
      let inner := enclosingAfter enclosing declaration
      (edit? setting inner above line declaration).toList ++
        planFrom setting (line :: above) inner below

end Refresh

def plan (table : Curated.Table) (path text : Text) : List Edit :=
  Refresh.planFrom ⟨table, path, FileCues.ofText text⟩ [] none text.lines

def refreshed (table : Curated.Table) (path text : Text) : Text :=
  Edit.applyAll text.lines (plan table path text)

end DocComments
