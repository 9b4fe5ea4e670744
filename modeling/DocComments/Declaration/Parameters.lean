import DocComments.Text.Blank

/-! The names in a parameter list. Attributes and default values are left out, and of the words
that remain of a parameter the last one that is no modifier is its name. -/

namespace DocComments

namespace Parameters

def modifiers : List Text :=
  ["ref".toList, "out".toList, "in".toList, "params".toList, "this".toList]

/-- How deep the text stands in brackets once `character` has been read. A bracket that closes
nothing is ignored, and the kinds of bracket are not told apart. -/
def depthAfter (depth : Nat) (character : Char) : Nat :=
  if ['<', '(', '['].contains character then depth + 1
  else if ['>', ')', ']'].contains character then depth - 1
  else depth

def pieces (depth : Nat) : Text → List Text
  | [] => [[]]
  | character :: rest =>
    if character = ',' && depth == 0 then [] :: pieces 0 rest
    else Text.extendFirst character (pieces (depthAfter depth character) rest)

/-- Drops each bracketed attribute up to the first bracket that closes. A bracket with none to
close it behind it stays. `inside` tells whether an attribute is open. -/
def dropAttributes (inside : Bool) : Text → Text
  | [] => []
  | character :: rest =>
    if inside then dropAttributes (character ≠ ']') rest
    else if character = '[' && rest.contains ']' then dropAttributes true rest
    else character :: dropAttributes false rest

def name? (piece : Text) : Option Text :=
  let declared : Text := (dropAttributes false piece).takeWhile (· ≠ '=')
  (declared.words.filter fun word => !modifiers.contains word).getLast?

def names (params : Text) : List Text := (pieces 0 params).filterMap name?

end Parameters

end DocComments
