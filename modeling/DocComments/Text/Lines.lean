import DocComments.Text

/-! Lines of a text. A line keeps its terminator, so a text is the concatenation of its lines
(`flatten_lines`); only the last line may lack one. -/

namespace DocComments

namespace Text

def consLine (character : Char) (below : List Text) : List Text :=
  if character = '\n' then ['\n'] :: below else extendFirst character below

def lines (text : Text) : List Text := text.foldr consLine []

theorem lines_cons (character : Char) (text : Text) :
    lines (character :: text) = consLine character (lines text) := rfl

theorem flatten_consLine (character : Char) (below : List Text) :
    (consLine character below).flatten = character :: below.flatten := by
  unfold consLine
  split
  · next feed => simp [feed]
  · exact flatten_extendFirst character below

theorem flatten_lines (text : Text) : text.lines.flatten = text := by
  induction text with
  | nil => rfl
  | cons character rest ih => rw [lines_cons, flatten_consLine, ih]

theorem lines_append_lineFeed (line rest : Text) (single : '\n' ∉ line) :
    lines (line ++ '\n' :: rest) = (line ++ ['\n']) :: lines rest := by
  induction line with
  | nil => rfl
  | cons character line ih =>
      rw [List.mem_cons, not_or] at single
      rw [List.cons_append, lines_cons, ih single.2, consLine, if_neg (Ne.symm single.1)]
      rfl

def isTerminator (character : Char) : Bool := character = '\r' || character = '\n'

def dropTerminator (line : Text) : Text := (line.reverse.dropWhile isTerminator).reverse

def terminator (line : Text) : Text :=
  if ['\r', '\n'].isSuffixOf line then ['\r', '\n'] else ['\n']

def indentation (line : Text) : Text :=
  line.takeWhile fun character => character = ' ' || character = '\t'

end Text

end DocComments
