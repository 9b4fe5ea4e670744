import DocComments.Text

/-! Identifiers cut into the words they are written from: `GetXMLValue2` into `Get`, `XML`,
`Value` and `2`. Only ASCII letters and digits count; anything else separates words and is dropped
(`flatten_fragments`). -/

namespace DocComments

namespace Identifier

/-- Whether a letter or digit belongs to the same word as the character that follows it. Small
letters go together, and so do digits. A capital takes the small letters after it. A capital also
takes a capital, unless that one begins a word of its own with the small letter behind it. -/
def joins (character : Char) : Text → Bool
  | [] => false
  | next :: after =>
    (character.isLower && next.isLower) || (character.isDigit && next.isDigit) ||
      (character.isUpper && next.isLower) ||
      (character.isUpper && next.isUpper && !after.head?.any Char.isLower)

def fragments : Text → List Text
  | [] => []
  | character :: rest =>
    if !character.isAlphanum then fragments rest
    else if joins character rest then Text.extendFirst character (fragments rest)
    else [character] :: fragments rest

def phrase (words : List Text) : Text := List.intercalate [' '] words

theorem flatten_fragments (name : Text) :
    (fragments name).flatten = name.filter Char.isAlphanum := by
  induction name with
  | nil => rfl
  | cons character rest ih =>
      unfold fragments
      split
      · next other => simp_all
      · next kept =>
        have alphanumeric : character.isAlphanum = true := by simpa using kept
        split <;> simp [Text.flatten_extendFirst, alphanumeric, ih]

end Identifier

end DocComments
