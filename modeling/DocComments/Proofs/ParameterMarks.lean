import DocComments.Proofs.ParameterLists
import DocComments.Refresh
import DocComments.Curated.Shipped
import Mathlib.Data.List.DropRight

/-! Names with characters that an attribute value of a documentation block cannot hold as they
are. The name of a parameter is its last word that is no modifier, so it has such a character
exactly where the parameter has one with no further word behind it (`names_unreserved_iff`). -/

namespace DocComments

namespace Text

theorem words_append_word {start : Text} (solid : ∀ character ∈ start, isBlank character = false)
    (nonempty : start ≠ []) (back : Text) :
    words (start ++ back) = (start ++ firstWord back) :: words (behindWord back) := by
  have inside : ∀ character ∈ start, isSolid character = true :=
    fun character member => isSolid_iff.mpr (solid character member)
  have visible : StartsVisibly (start ++ back) := by
    obtain ⟨first, rest, rfl⟩ := List.exists_cons_of_ne_nil nonempty
    simpa [StartsVisibly] using solid first (List.mem_cons_self ..)
  rw [words_of_visible visible (by simp [nonempty]), firstWord, behindWord,
    List.takeWhile_append_of_pos inside, List.dropWhile_append_of_pos inside]
  rfl

theorem words_around {mark : Char} (visible : isBlank mark = false) (front back : Text) :
    ∃ above start, words (front ++ mark :: back) =
      above ++ (start ++ mark :: firstWord back) :: words (behindWord back) := by
  -- The word begins behind the last blank in front of the character.
  have cut : front.rdropWhile isSolid ++ front.rtakeWhile isSolid = front :=
    List.rdropWhile_append_rtakeWhile ..
  have solid : ∀ character ∈ front.rtakeWhile isSolid ++ [mark], isBlank character = false := by
    intro character member
    rcases List.mem_append.mp member with before | last
    · exact isSolid_iff.mp (List.mem_rtakeWhile_imp before)
    · rwa [List.mem_singleton.mp last]
  have word := words_append_word solid (by simp) back
  rw [List.append_assoc, List.append_assoc, List.singleton_append, List.singleton_append] at word
  by_cases alone : front.rdropWhile isSolid = []
  · rw [alone, List.nil_append] at cut
    rw [cut] at word
    exact ⟨[], front, word⟩
  · have blank := List.rdropWhile_last_not isSolid front alone
    rw [isSolid, Bool.not_eq_true, Bool.not_eq_false'] at blank
    have ends := List.dropLast_append_getLast alone
    refine ⟨words (front.rdropWhile isSolid).dropLast, front.rtakeWhile isSolid, ?_⟩
    conv_lhs => rw [← cut, ← ends]
    rw [List.append_assoc, List.append_assoc, List.singleton_append, words_append_cons blank, word]

theorem words_eq_append_behindWord (text : Text) :
    ∃ above, words text = above ++ words (behindWord text) := by
  by_cases visible : StartsVisibly text
  · by_cases nonempty : text = []
    · exact ⟨[], by rw [nonempty]; rfl⟩
    · exact ⟨[firstWord text], words_of_visible visible nonempty⟩
  · refine ⟨[], ?_⟩
    cases text with
    | nil => rfl
    | cons character rest =>
        have blank : isBlank character = true := by simpa [StartsVisibly] using visible
        rw [behindWord, List.dropWhile_cons_of_neg (by simp [isSolid, blank]), List.nil_append]

theorem exists_of_words {text : Text} {above below : List Text} {first last : Text} {mark : Char}
    (cut : words text = above ++ (first ++ mark :: last) :: below) :
    ∃ front back, text = front ++ mark :: back ∧ words (behindWord back) = below := by
  induction text generalizing above with
  | nil => simp [words_nil] at cut
  | cons character rest ih =>
      have later (upper : List Text) (found : words rest = upper ++ (first ++ mark :: last) :: below) :
          ∃ front back, character :: rest = front ++ mark :: back ∧
            words (behindWord back) = below := by
        obtain ⟨front, back, split, behind⟩ := ih found
        exact ⟨character :: front, back, by rw [split, List.cons_append], behind⟩
      by_cases blank : isBlank character = true
      · exact later above (by rwa [words_cons blank] at cut)
      · have visible : StartsVisibly (character :: rest) := by simpa [StartsVisibly] using blank
        rw [words_of_visible visible (List.cons_ne_nil _ _)] at cut
        have same : behindWord (character :: rest) = behindWord rest :=
          List.dropWhile_cons_of_pos (by simpa [isSolid] using blank)
        cases above with
        | cons word above =>
            obtain ⟨upper, more⟩ := words_eq_append_behindWord rest
            rw [same] at cut
            exact later (upper ++ above) (by
              rw [more, (List.cons.inj cut).2, List.append_assoc]; rfl)
        | nil =>
            obtain ⟨word, behind⟩ := List.cons.inj cut
            have solid : ∀ other ∈ last, isSolid other = true := by
              intro other member
              have inside : other ∈ firstWord (character :: rest) := by rw [word]; simp [member]
              exact isSolid_iff.mpr (isBlank_of_mem_firstWord inside)
            refine ⟨first, last ++ behindWord rest, ?_, ?_⟩
            · rw [← firstWord_append_behindWord (character :: rest), word, same, List.append_assoc,
                List.cons_append]
            · have idle : behindWord (behindWord rest) = behindWord rest :=
                List.dropWhile_idempotent isSolid rest
              rw [← behind, same, behindWord, List.dropWhile_append_of_pos solid]
              exact congrArg words idle

end Text

namespace Parameters

def isReserved (character : Char) : Bool := ['"', '<', '&'].contains character

theorem isBlank_of_isReserved {mark : Char} (reserved : isReserved mark = true) :
    Text.isBlank mark = false := by
  simp only [isReserved, List.contains_iff_mem, List.mem_cons, List.not_mem_nil, or_false] at reserved
  rcases reserved with rfl | rfl | rfl <;> decide

theorem not_mem_modifiers {name : Text} {mark : Char} (member : mark ∈ name)
    (reserved : isReserved mark = true) : name ∉ modifiers := by
  have plain : ∀ modifier ∈ modifiers, modifier.any isReserved = false := by decide
  intro modifier
  have marked : name.any isReserved = true := List.any_eq_true.mpr ⟨mark, member, reserved⟩
  rw [plain name modifier] at marked
  cases marked

theorem name?_eq_some_iff (piece name : Text) :
    name? piece = some name ↔ name ∉ modifiers ∧
      ∃ above below, Text.words (declared piece) = above ++ name :: below ∧
        ∀ word ∈ below, word ∈ modifiers := by
  rw [name?_eq, ← List.head?_reverse, ← List.filter_reverse, List.head?_filter,
    List.find?_eq_some_iff_append]
  simp only [Bool.not_eq_true', List.contains_eq_mem, decide_eq_false_iff_not, Bool.not_not,
    decide_eq_true_eq]
  constructor
  · rintro ⟨unmodified, below, above, cut, modified⟩
    refine ⟨unmodified, above.reverse, below.reverse, ?_, ?_⟩
    · rw [← List.reverse_reverse (Text.words (declared piece)), cut]
      simp
    · exact fun word member => modified word (List.mem_reverse.mp member)
  · rintro ⟨unmodified, above, below, cut, modified⟩
    refine ⟨unmodified, below.reverse, above.reverse, by simp [cut], ?_⟩
    exact fun word member => modified word (List.mem_reverse.mp member)

/-- Behind the word around each reserved character of a parameter stands a word that can be its name. -/
def IsCovered (piece : Text) : Prop :=
  ∀ front mark back, declared piece = front ++ mark :: back → isReserved mark = true →
    ∃ word ∈ Text.words (Text.behindWord back), word ∉ modifiers

/-- The name that is read for a parameter is free of reserved characters exactly where the parameter
is covered. -/
theorem isCovered_iff (piece : Text) :
    IsCovered piece ↔ ∀ name ∈ name? piece, name.all (!isReserved ·) = true := by
  constructor
  · intro covered name named
    obtain ⟨_, above, below, cut, modified⟩ := (name?_eq_some_iff piece name).mp named
    rw [List.all_eq_true]
    intro mark member
    rw [Bool.not_eq_true', Bool.eq_false_iff]
    intro reserved
    obtain ⟨first, last, rfl⟩ := List.append_of_mem member
    obtain ⟨front, back, split, behind⟩ := Text.exists_of_words cut
    obtain ⟨word, later, unmodified⟩ := covered front mark back split reserved
    exact unmodified (modified word (behind ▸ later))
  · intro plain front mark back split reserved
    by_contra bare
    have none : ∀ word ∈ Text.words (Text.behindWord back), word ∈ modifiers := by
      intro word later
      by_contra unmodified
      exact bare ⟨word, later, unmodified⟩
    obtain ⟨above, start, words⟩ := Text.words_around (isBlank_of_isReserved reserved) front back
    have unmodified : start ++ mark :: Text.firstWord back ∉ modifiers :=
      not_mem_modifiers (by simp) reserved
    have named := (name?_eq_some_iff piece _).mpr ⟨unmodified, above, _, split ▸ words, none⟩
    have free := List.all_eq_true.mp (plain _ named) mark (by simp)
    simp [reserved] at free

/-- The names in a parameter list can stand in attribute values as they are exactly where every
parameter is covered. -/
theorem names_unreserved_iff (params : Text) :
    (∀ name ∈ names params, name.all (!isReserved ·) = true) ↔
      ∀ piece ∈ pieces 0 params, IsCovered piece := by
  simp only [names, List.mem_filterMap, isCovered_iff, Option.mem_def]
  constructor
  · exact fun plain piece member name named => plain name ⟨piece, member, named⟩
  · rintro plain name ⟨piece, member, named⟩
    exact plain piece member name named

/-- A comma in a default value that is a text cuts the parameter in two, and what is behind the comma
passes for a name. -/
theorem names_reserved_log :
    Declaration.recognize? "public void Log(string text = \"a,b\")".toList =
        some (.method "Log".toList (some "void".toList) "string text = \"a,b\"".toList) ∧
      names "string text = \"a,b\"".toList = ["text".toList, "b\"".toList] ∧
      isReserved '"' = true ∧
      plan Curated.shipped "A.cs".toList "public void Log(string text = \"a,b\")\n".toList =
        [.insert 0
          ["/// <summary>\n".toList, "/// 동작을 수행합니다.\n".toList, "/// </summary>\n".toList,
            "/// <param name=\"text\">매개 변수</param>\n".toList,
            "/// <param name=\"b\"\">매개 변수</param>\n".toList]] := by
  decide +kernel

end Parameters

end DocComments
