import DocComments.Block
import DocComments.Text.Blank

/-! The documentation block that belongs to a declaration: the nearest run of documentation lines
above it, with nothing but blank lines and attributes between. The lines above a declaration are
given from the nearest to the farthest. -/

namespace DocComments

namespace Block

def isDocLine (line : Text) : Bool := marker.isPrefixOf line.dropBlanks

def isBlankLine (line : Text) : Bool := line.all Text.isBlank

def isAttributeLine (line : Text) : Bool := line.dropBlanks.head? = some '['

structure Span where
  start : Nat
  last : Nat
  deriving DecidableEq, Repr

structure Located where
  span : Span
  lines : List Text
  deriving DecidableEq, Repr

def nearest? : List Text → Option Located
  | [] => none
  | line :: higher =>
    if isDocLine line then
      some
        { span := ⟨(higher.dropWhile isDocLine).length, higher.length⟩
          lines := (line :: higher.takeWhile isDocLine).reverse }
    else if isBlankLine line || isAttributeLine line then nearest? higher
    else none

structure OutOfRange where
  line : Nat
  count : Nat
  deriving DecidableEq, Repr

/-- Where the block of the declaration on line number `declaration` stands. The number may be that
of the line behind the last one. -/
def spanAbove (lines : List Text) (declaration : Nat) : Except OutOfRange (Option Span) :=
  if declaration ≤ lines.length then
    .ok ((nearest? (lines.take declaration).reverse).map Located.span)
  else .error ⟨declaration, lines.length⟩

end Block

end DocComments
