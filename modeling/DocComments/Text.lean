/-! Texts as lists of characters, and the search for one text inside another. -/

namespace DocComments

abbrev Text := List Char

namespace Text

def occursIn (part : Text) : Text → Bool
  | [] => part.isEmpty
  | first :: rest => part.isPrefixOf (first :: rest) || occursIn part rest

theorem occursIn_iff (part whole : Text) : part.occursIn whole = true ↔ part <:+: whole := by
  induction whole with
  | nil => simp [occursIn]
  | cons first rest ih => simp [occursIn, ih, List.infix_cons_iff]

def extendFirst (character : Char) : List Text → List Text
  | [] => [[character]]
  | piece :: rest => (character :: piece) :: rest

theorem flatten_extendFirst (character : Char) (pieces : List Text) :
    (extendFirst character pieces).flatten = character :: pieces.flatten := by
  cases pieces <;> simp [extendFirst]

def byteLength : Text → Nat
  | [] => 0
  | character :: rest => character.utf8Size + byteLength rest

def inRanges (ranges : List (Nat × Nat)) (character : Char) : Bool :=
  ranges.any fun range => range.1 ≤ character.toNat && character.toNat ≤ range.2

end Text

end DocComments
