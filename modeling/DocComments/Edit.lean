import DocComments.Text

/-! Edits of a file, and their application in one pass. Line numbers in edits are those of the
lines before any edit. -/

namespace DocComments

inductive Edit where
  /-- Puts `lines` in the place of the lines `start` to `last`. -/
  | replace (start last : Nat) (lines : List Text)
  /-- Puts `lines` in front of the line `position`. -/
  | insert (position : Nat) (lines : List Text)
  deriving DecidableEq, Repr

namespace Edit

def anchor : Edit → Nat
  | replace start _ _ => start
  | insert position _ => position

def lines : Edit → List Text
  | replace _ _ lines => lines
  | insert _ lines => lines

def inOrder (edits : List Edit) : List Edit :=
  edits.mergeSort fun left right => left.anchor ≤ right.anchor

/-- Copies the lines from number `next` on, with the edits at their anchors. The first edit has to
be used before the others: if its anchor was passed or lies beyond the end, no edit is used any
more. A replacement goes on behind its last line, even if that leads back. -/
def splice (file : List Text) : List Edit → Nat → List Text
  | [], next => file.drop next
  | edit :: rest, next =>
    if next ≤ edit.anchor ∧ edit.anchor < file.length then
      (file.take edit.anchor).drop next ++ edit.lines ++
        match edit with
        | replace _ last _ => splice file rest (last + 1)
        | insert position _ =>
          (file.drop position).take 1 ++ splice file rest (position + 1)
    else file.drop next

def applyAll (file : List Text) (edits : List Edit) : Text :=
  (splice file (inOrder edits) 0).flatten

end Edit

end DocComments
