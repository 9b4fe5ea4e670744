import DocComments.Declaration
import DocComments.Text.Blank
import DocComments.Text.WordCharacter

/-! Recognition of declaration lines. A line is read by its words: an access word first, then
modifiers, then what the kind of declaration asks for. A line is tried as a type, then as a
method, then as a property. -/

namespace DocComments

namespace Declaration

def accessWords : List Text := ["public".toList, "internal".toList]

def typeModifiers : List Text :=
  ["static".toList, "partial".toList, "abstract".toList, "sealed".toList]

def methodModifiers : List Text :=
  ["static".toList, "virtual".toList, "override".toList, "sealed".toList, "async".toList,
    "new".toList]

def isNameStart (character : Char) : Bool := character.isAlpha || character = '_'

def isNameCharacter (character : Char) : Bool := character.isAlphanum || character = '_'

def isName (word : Text) : Bool := word.head?.any isNameStart && word.all isNameCharacter

def isTypeCharacter (character : Char) : Bool :=
  isNameCharacter character || ['<', '>', ',', '[', ']', '.', '?'].contains character

def afterAccess? : List Text → Option (List Text)
  | [] => none
  | access :: rest => if accessWords.contains access then some rest else none

/-- The name a word begins with. It has to end at a word boundary: a letter outside ASCII right
behind it means that this is another name. -/
def leadingName? (word : Text) : Option Text :=
  let name := word.takeWhile isNameCharacter
  let behind := word.dropWhile isNameCharacter
  if isName name && !behind.head?.any Text.isWordCharacter then some name else none

def typeHead? : List Text → Option Declaration
  | [] => none
  | word :: rest =>
    if typeModifiers.contains word then typeHead? rest
    else match TypeKind.ofKeyword? word, rest with
      | some kind, named :: _ => (leadingName? named).map (type kind)
      | _, _ => none

/-- Modifiers, a return type unless it is a constructor, and the name; nothing else. The last word
is the name even if it is spelled like a modifier. -/
def methodHead? : List Text → Option (Option Text × Text)
  | [] => none
  | [name] => if isName name then some (none, name) else none
  | word :: next :: rest =>
    if methodModifiers.contains word then methodHead? (next :: rest)
    else if rest.isEmpty && word.all isTypeCharacter && isName next then some (some word, next)
    else none

def isSignatureEnd (text : Text) : Bool :=
  let next := text.dropBlanks
  next.isEmpty || [['{'], "=>".toList, "where".toList, [':']].any (·.isPrefixOf next)

def splitAt? (mark : Char) (text : Text) : Option (Text × Text) :=
  match text.dropWhile (· ≠ mark) with
  | [] => none
  | _ :: behind => some (text.takeWhile (· ≠ mark), behind)

def type? (line : Text) : Option Declaration := do
  typeHead? (← afterAccess? line.words)

def method? (line : Text) : Option Declaration := do
  let (head, opened) ← splitAt? '(' line
  let (returnType, name) ← methodHead? (← afterAccess? head.words)
  let (params, behind) ← splitAt? ')' opened
  if isSignatureEnd behind then some (method name returnType params) else none

def property? (line : Text) : Option Declaration := do
  if line.contains '(' then none
  let (head, _) ← splitAt? '{' line
  match ← afterAccess? head.words with
  | [written, name] => if written.all isTypeCharacter && isName name then property name else none
  | [modifier, written, name] =>
    if modifier = "static".toList && written.all isTypeCharacter && isName name then property name
    else none
  | _ => none

def recognize? (line : Text) : Option Declaration :=
  type? line <|> method? line <|> property? line

end Declaration

end DocComments
