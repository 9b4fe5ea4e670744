import DocComments.Proofs.TypePattern
import DocComments.Proofs.MethodPattern
import DocComments.Proofs.PropertyPattern

/-! The lines that are declarations, described by their parts. The recognition by words finds
exactly these, and so do the patterns, tried in their order (`recognize?_eq_some_iff`,
`matchLine?_eq`). So a line declares one thing at most. -/

namespace DocComments

namespace Text

def IsGap (text : Text) : Prop := ∀ character ∈ text, isBlank character = true

inductive Spaced : List Text → Text → Prop
  | nil : Spaced [] []
  | cons {word gap rest : Text} {words : List Text} (nonempty : gap ≠ []) (blank : IsGap gap)
      (others : Spaced words rest) : Spaced (word :: words) (word ++ (gap ++ rest))

theorem isGap_takeWhile (text : Text) : IsGap (text.takeWhile isBlank) :=
  fun _ member => List.mem_takeWhile_imp member

theorem IsWord.startsVisibly_append {word : Text} (solid : IsWord word) (behind : Text) :
    StartsVisibly (word ++ behind) := by
  obtain ⟨first, others, rfl⟩ := List.exists_cons_of_ne_nil solid.1
  simpa [StartsVisibly] using solid.2 first List.mem_cons_self

theorem words_word_gap {word gap : Text} (solid : IsWord word) (nonempty : gap ≠ [])
    (blank : IsGap gap) (rest : Text) : words (word ++ (gap ++ rest)) = word :: words rest := by
  rw [words_append_gap nonempty blank, words_eq_singleton solid.1 solid.2]
  rfl

theorem Spaced.words_append {front : List Text} {head : Text} (spaced : Spaced front head)
    (solid : ∀ word ∈ front, IsWord word) (tail : Text) :
    words (head ++ tail) = front ++ words tail := by
  induction spaced with
  | nil => rfl
  | cons nonempty blank others ih =>
      rw [List.append_assoc, List.append_assoc,
        words_word_gap (solid _ List.mem_cons_self) nonempty blank,
        ih fun word member => solid word (List.mem_cons_of_mem _ member)]
      rfl

theorem exists_spaced {front behind : List Text} {text : Text} (visible : StartsVisibly text)
    (cut : words text = front ++ behind) (more : behind ≠ []) :
    ∃ head tail, text = head ++ tail ∧ Spaced front head ∧ StartsVisibly tail ∧
      words tail = behind := by
  induction front generalizing text with
  | nil => exact ⟨[], text, rfl, .nil, visible, cut⟩
  | cons word front ih =>
      obtain ⟨first, others⟩ := words_eq_cons visible cut
      have separated : behindWord text ≠ [] := by
        intro empty
        rw [empty, words_nil] at others
        exact more (List.append_eq_nil_iff.mp others.symm).2
      have start := isBlank_head_behindWord separated
      rw [← words_dropBlanks] at others
      obtain ⟨head, tail, whole, spaced, below⟩ := ih (startsVisibly_nextWord text) others
      refine ⟨word ++ ((behindWord text).takeWhile isBlank ++ head), tail, ?_, ?_, below⟩
      · rw [List.append_assoc, List.append_assoc, ← whole, nextWord, dropBlanks,
          List.takeWhile_append_dropWhile, ← first, firstWord_append_behindWord]
      · refine .cons ?_ (isGap_takeWhile _) spaced
        obtain ⟨blank, after, shown⟩ := List.exists_cons_of_ne_nil separated
        rw [shown] at start ⊢
        rw [List.takeWhile_cons_of_pos (by simpa using start)]
        exact List.cons_ne_nil _ _

end Text

namespace Declaration

open Text (IsGap Spaced)

def AfterAccess (text inner : Text) : Prop :=
  ∃ lead front access, text = lead ++ (front ++ inner) ∧ IsGap lead ∧ Spaced [access] front ∧
    access ∈ accessWords

def IsTypeLine (line : Text) (kind : TypeKind) (name : Text) : Prop :=
  ∃ inner modifiers head behind, AfterAccess line inner ∧ inner = head ++ (name ++ behind) ∧
    Spaced (modifiers ++ [kind.keyword]) head ∧ (∀ word ∈ modifiers, word ∈ typeModifiers) ∧
    isName name = true ∧ behind.head?.any Text.isWordCharacter = false

def EndsSignature (behind : Text) : Prop :=
  ∃ gap rest, behind = gap ++ rest ∧ IsGap gap ∧
    (rest = [] ∨ ∃ start ∈ [['{'], "=>".toList, "where".toList, [':']], start <+: rest)

/-- The words behind the access word of a method: modifiers, its return type unless it is a constructor,
and its name. A return type is not spelled like a modifier. -/
def IsMethodHead (words : List Text) (name : Text) (returnType : Option Text) : Prop :=
  ∃ modifiers, words = modifiers ++ (returnType.toList ++ [name]) ∧
    (∀ word ∈ modifiers, word ∈ methodModifiers) ∧
    (∀ written ∈ returnType, written ∉ methodModifiers ∧ written.all isTypeCharacter = true) ∧
    isName name = true

def IsMethodLine (line name : Text) (returnType : Option Text) (params : Text) : Prop :=
  ∃ header inner behind, line = header ++ '(' :: (params ++ ')' :: behind) ∧ '(' ∉ header ∧
    ')' ∉ params ∧ AfterAccess header inner ∧ IsMethodHead inner.words name returnType ∧
    EndsSignature behind

def IsPropertyLine (line name : Text) : Prop :=
  '(' ∉ line ∧ ∃ header inner below written, line = header ++ '{' :: below ∧ '{' ∉ header ∧
    AfterAccess header inner ∧
    (inner.words = [written, name] ∨ inner.words = ["static".toList, written, name]) ∧
    written.all isTypeCharacter = true ∧ isName name = true

inductive Declares (line : Text) : Declaration → Prop
  | type {kind : TypeKind} {name : Text} (parts : IsTypeLine line kind name) :
      Declares line (.type kind name)
  | method {name : Text} {returnType : Option Text} {params : Text}
      (untyped : ∀ kind other, ¬IsTypeLine line kind other)
      (parts : IsMethodLine line name returnType params) :
      Declares line (.method name returnType params)
  | property {name : Text} (untyped : ∀ kind other, ¬IsTypeLine line kind other)
      (uncalled : ∀ other returnType params, ¬IsMethodLine line other returnType params)
      (parts : IsPropertyLine line name) : Declares line (.property name)

theorem AfterAccess.afterAccess? {text inner : Text} (after : AfterAccess text inner) :
    Declaration.afterAccess? text.words = some inner.words := by
  obtain ⟨lead, front, access, rfl, blank, spaced, member⟩ := after
  have solid : ∀ word ∈ [access], Text.IsWord word := by
    simpa using isWord_of_mem_accessWords access member
  rw [Text.words_append_of_blank blank, spaced.words_append solid, List.singleton_append,
    Declaration.afterAccess?, if_pos (List.contains_iff_mem.mpr member)]

theorem exists_afterAccess {text : Text} {rest : List Text}
    (found : Declaration.afterAccess? text.words = some rest) (more : rest ≠ []) :
    ∃ inner, AfterAccess text inner ∧ Text.StartsVisibly inner ∧ inner.words = rest := by
  rw [← Text.words_dropBlanks] at found
  cases cut : Text.words text.dropBlanks with
  | nil => simp [cut, Declaration.afterAccess?] at found
  | cons access others =>
      rw [cut, Declaration.afterAccess?, Option.ite_none_right_eq_some, Option.some.injEq] at found
      obtain ⟨member, rfl⟩ := found
      rw [← List.singleton_append] at cut
      obtain ⟨front, inner, whole, spaced, visible, below⟩ :=
        Text.exists_spaced (Text.startsVisibly_dropBlanks text) cut more
      have parts : text = text.takeWhile Text.isBlank ++ (front ++ inner) := by
        rw [← whole, Text.dropBlanks, List.takeWhile_append_dropWhile]
      have after : AfterAccess text inner :=
        ⟨_, front, access, parts, Text.isGap_takeWhile text, spaced, List.contains_iff_mem.mp member⟩
      exact ⟨inner, after, visible, below⟩

theorem leadingName?_eq_some_iff {text name : Text} :
    leadingName? text = some name ↔ ∃ behind, text = name ++ behind ∧ isName name = true ∧
      behind.head?.any Text.isWordCharacter = false := by
  constructor
  · intro found
    rw [leadingName?, Option.ite_none_right_eq_some, Option.some.injEq] at found
    obtain ⟨named, rfl⟩ := found
    rw [Bool.and_eq_true, Bool.not_eq_true'] at named
    exact ⟨_, List.takeWhile_append_dropWhile.symm, named⟩
  · rintro ⟨behind, rfl, named, ends⟩
    have stop : ∀ character ∈ behind.head?, isNameCharacter character = false := by
      intro character first
      rw [Bool.eq_false_iff]
      intro inside
      rw [Option.mem_def.mp first] at ends
      simp [isWordCharacter_of_isNameCharacter inside] at ends
    obtain ⟨front, rest⟩ := takeWhile_isNameCharacter named stop
    rw [leadingName?, front, rest]
    simp [named, ends]

theorem typeHead?_append {modifiers : List Text} (all : ∀ word ∈ modifiers, word ∈ typeModifiers)
    (rest : List Text) : typeHead? (modifiers ++ rest) = typeHead? rest := by
  induction modifiers with
  | nil => rfl
  | cons word modifiers ih =>
      rw [List.forall_mem_cons] at all
      rw [List.cons_append, typeHead?_modified (List.contains_iff_mem.mpr all.1), ih all.2]

theorem typeHead?_eq_some {words : List Text} {declaration : Declaration}
    (found : typeHead? words = some declaration) :
    ∃ (modifiers : List Text) (kind : TypeKind) (named : Text) (rest : List Text) (name : Text),
      words = modifiers ++ kind.keyword :: named :: rest ∧
      (∀ word ∈ modifiers, word ∈ typeModifiers) ∧ leadingName? named = some name ∧
      declaration = type kind name := by
  induction words with
  | nil => cases found
  | cons word words ih =>
      by_cases modifier : typeModifiers.contains word = true
      · rw [typeHead?_modified modifier] at found
        obtain ⟨modifiers, kind, named, rest, name, rfl, all, naming⟩ := ih found
        exact ⟨word :: modifiers, kind, named, rest, name, rfl,
          List.forall_mem_cons.mpr ⟨List.contains_iff_mem.mp modifier, all⟩, naming⟩
      · rw [typeHead?_named modifier, Option.bind_eq_some_iff] at found
        obtain ⟨kind, keyword, found⟩ := found
        obtain rfl := (TypeKind.ofKeyword?_eq_some_iff word kind).mp keyword
        rw [Option.bind_eq_some_iff] at found
        obtain ⟨named, behind, found⟩ := found
        rw [Option.map_eq_some_iff] at found
        obtain ⟨name, naming, rfl⟩ := found
        obtain ⟨rest, rfl⟩ := List.head?_eq_some_iff.mp behind
        exact ⟨[], kind, named, rest, name, rfl, by simp, naming, rfl⟩

theorem typeHead?_keyword {kind : TypeKind} {text name : Text} (naming : leadingName? text = some name)
    (visible : Text.StartsVisibly text) :
    typeHead? (kind.keyword :: text.words) = some (type kind name) := by
  have foreign : ∀ kind : TypeKind, ¬typeModifiers.contains kind.keyword = true := by
    intro kind
    cases kind <;> decide
  have nonempty : text ≠ [] := by
    rintro rfl
    cases naming
  rw [typeHead?_named (foreign kind), (TypeKind.ofKeyword?_eq_some_iff _ kind).mpr rfl,
    Text.words_of_visible visible nonempty, Option.bind_some, List.head?_cons, Option.bind_some,
    leadingName?_firstWord, naming]
  rfl

theorem isWord_keyword (kind : TypeKind) : Text.IsWord kind.keyword := by
  cases kind <;> decide

theorem type?_eq_some_iff {line : Text} {declaration : Declaration} :
    type? line = some declaration ↔
      ∃ kind name, declaration = type kind name ∧ IsTypeLine line kind name := by
  rw [type?, Option.bind_eq_bind, Option.bind_eq_some_iff]
  constructor
  · rintro ⟨words, access, found⟩
    obtain ⟨modifiers, kind, named, rest, name, rfl, all, naming, rfl⟩ := typeHead?_eq_some found
    obtain ⟨inner, after, visible, cut⟩ := exists_afterAccess access (by simp)
    have cut' : Text.words inner = (modifiers ++ [kind.keyword]) ++ named :: rest := by
      rw [cut, List.append_assoc, List.singleton_append]
    obtain ⟨head, tail, rfl, spaced, starts, below⟩ := Text.exists_spaced visible cut' (by simp)
    obtain rfl := (Text.words_eq_cons starts below).1
    rw [leadingName?_firstWord] at naming
    obtain ⟨behind, rfl, parts⟩ := leadingName?_eq_some_iff.mp naming
    exact ⟨kind, name, rfl, _, modifiers, head, behind, after, rfl, spaced, all, parts⟩
  · rintro ⟨kind, name, rfl, inner, modifiers, head, behind, after, rfl, spaced, all, parts⟩
    have solid : ∀ word ∈ modifiers ++ [kind.keyword], Text.IsWord word := by
      rw [List.forall_mem_append]
      exact ⟨fun word member => isWord_of_mem_typeModifiers word (all word member),
        by simpa using isWord_keyword kind⟩
    refine ⟨_, after.afterAccess?, ?_⟩
    rw [spaced.words_append solid, List.append_assoc, typeHead?_append all]
    exact typeHead?_keyword (leadingName?_eq_some_iff.mpr ⟨behind, rfl, parts⟩)
      ((isWord_of_isName parts.1).startsVisibly_append behind)

theorem type?_eq_none_iff {line : Text} :
    type? line = none ↔ ∀ kind name, ¬IsTypeLine line kind name := by
  simp only [Option.eq_none_iff_forall_ne_some, ne_eq, type?_eq_some_iff, not_exists, not_and]
  exact ⟨fun none kind name => none _ kind name rfl, fun none _ kind name _ => none kind name⟩

theorem isSignatureEnd_iff {behind : Text} : isSignatureEnd behind = true ↔ EndsSignature behind := by
  rw [isSignatureEnd]
  simp only [Bool.or_eq_true, List.isEmpty_iff, List.any_eq_true, List.isPrefixOf_iff_prefix]
  constructor
  · intro ends
    exact ⟨_, _, List.takeWhile_append_dropWhile.symm, Text.isGap_takeWhile behind, ends⟩
  · rintro ⟨gap, rest, rfl, blank, ends⟩
    have visible : Text.StartsVisibly rest := by
      rcases ends with rfl | ⟨start, member, behind, rfl⟩
      · rfl
      · have words : ∀ start ∈ [['{'], "=>".toList, "where".toList, [':']], Text.IsWord start := by
          decide
        exact (words start member).startsVisibly_append behind
    rw [Text.dropBlanks_append_of_blank blank, Text.dropBlanks_of_visible visible]
    exact ends

theorem methodHead?_append {modifiers rest : List Text}
    (all : ∀ word ∈ modifiers, word ∈ methodModifiers) (more : rest ≠ []) :
    methodHead? (modifiers ++ rest) = methodHead? rest := by
  induction modifiers with
  | nil => rfl
  | cons word modifiers ih =>
      rw [List.forall_mem_cons] at all
      have nonempty : modifiers ++ rest ≠ [] := List.append_ne_nil_of_right_ne_nil modifiers more
      obtain ⟨next, others, shown⟩ := List.exists_cons_of_ne_nil nonempty
      rw [← ih all.2, List.cons_append, shown,
        methodHead?_modified (List.contains_iff_mem.mpr all.1)]

theorem methodHead?_eq_some_iff {words : List Text} {name : Text} {returnType : Option Text} :
    methodHead? words = some (returnType, name) ↔ IsMethodHead words name returnType := by
  constructor
  · intro found
    induction words with
    | nil => cases found
    | cons word words ih =>
        by_cases last : words = []
        · rw [last, methodHead?, Option.ite_none_right_eq_some, Option.some.injEq,
            Prod.mk.injEq] at found
          obtain ⟨named, rfl, rfl⟩ := found
          exact ⟨[], by rw [last]; rfl, by simp, by simp, named⟩
        obtain ⟨next, rest, rfl⟩ := List.exists_cons_of_ne_nil last
        by_cases modifier : methodModifiers.contains word = true
        · rw [methodHead?_modified modifier] at found
          obtain ⟨modifiers, whole, all, parts⟩ := ih found
          refine ⟨word :: modifiers, by rw [whole]; rfl, ?_, parts⟩
          exact List.forall_mem_cons.mpr ⟨List.contains_iff_mem.mp modifier, all⟩
        · rw [methodHead?, if_neg modifier, Option.ite_none_right_eq_some, Option.some.injEq,
            Prod.mk.injEq, Bool.and_eq_true, Bool.and_eq_true, List.isEmpty_iff] at found
          obtain ⟨⟨⟨rfl, accepted⟩, named⟩, rfl, rfl⟩ := found
          refine ⟨[], rfl, by simp, ?_, named⟩
          rintro written ⟨⟩
          exact ⟨mt List.contains_iff_mem.mpr modifier, accepted⟩
  · rintro ⟨modifiers, rfl, all, written, named⟩
    rw [methodHead?_append all (by simp)]
    cases returnType with
    | none => simp [methodHead?, named]
    | some typed =>
        obtain ⟨unmodified, accepted⟩ := written typed rfl
        change methodHead? [typed, name] = _
        rw [methodHead?_unmodified (by simpa using unmodified), plainHead?, accepted, named]
        rfl

theorem method?_eq_some_iff {line : Text} {declaration : Declaration} :
    method? line = some declaration ↔ ∃ name returnType params,
      declaration = method name returnType params ∧ IsMethodLine line name returnType params := by
  simp only [method?, Option.bind_eq_bind, Option.bind_eq_some_iff, Option.ite_none_right_eq_some,
    Option.some.injEq]
  constructor
  · rintro ⟨⟨header, opened⟩, cut, words, access, ⟨returnType, name⟩, found, rest⟩
    obtain ⟨⟨params, behind⟩, closed, ends, rfl⟩ := rest
    obtain ⟨rfl, first⟩ := eq_append_of_splitAt? cut
    obtain ⟨rfl, next⟩ := eq_append_of_splitAt? closed
    have more : words ≠ [] := by
      rintro rfl
      cases found
    obtain ⟨inner, after, _, rfl⟩ := exists_afterAccess access more
    exact ⟨name, returnType, params, rfl, header, inner, behind, rfl, first, next, after,
      methodHead?_eq_some_iff.mp found, isSignatureEnd_iff.mp ends⟩
  · rintro ⟨name, returnType, params, rfl, header, inner, behind, rfl, first, next, parts⟩
    obtain ⟨after, head, ends⟩ := parts
    exact ⟨(header, _), splitAt?_append first _, inner.words, after.afterAccess?, (returnType, name),
      methodHead?_eq_some_iff.mpr head, (params, behind), splitAt?_append next _,
      isSignatureEnd_iff.mpr ends, rfl⟩

theorem method?_eq_none_iff {line : Text} :
    method? line = none ↔ ∀ name returnType params, ¬IsMethodLine line name returnType params := by
  simp only [Option.eq_none_iff_forall_ne_some, ne_eq, method?_eq_some_iff, not_exists, not_and]
  exact ⟨fun none name returnType params => none _ name returnType params rfl,
    fun none _ name returnType params _ => none name returnType params⟩

theorem typedName?_eq_some_iff {words : List Text} {written name : Text} :
    typedName? words = some (written, name) ↔
      words = [written, name] ∧ written.all isTypeCharacter = true ∧ isName name = true := by
  constructor
  · intro found
    rw [typedName?.eq_def] at found
    split at found
    · rw [Option.ite_none_right_eq_some, Option.some.injEq, Prod.mk.injEq, Bool.and_eq_true] at found
      obtain ⟨parts, rfl, rfl⟩ := found
      exact ⟨rfl, parts⟩
    · cases found
  · rintro ⟨rfl, accepted, named⟩
    rw [typedName?, accepted, named]
    rfl

theorem propertyHead?_eq_some_iff {words : List Text} {name : Text} :
    propertyHead? words = some name ↔ ∃ written,
      (words = [written, name] ∨ words = ["static".toList, written, name]) ∧
      written.all isTypeCharacter = true ∧ isName name = true := by
  have typed : ∀ pair : List Text, (typedName? pair).map Prod.snd = some name ↔
      ∃ written, pair = [written, name] ∧ written.all isTypeCharacter = true ∧ isName name = true := by
    simp [Option.map_eq_some_iff, typedName?_eq_some_iff]
  rw [propertyHead?.eq_def]
  split
  · next modifier written last =>
      rw [Option.ite_none_right_eq_some, typed]
      constructor
      · rintro ⟨rfl, _, same, parts⟩
        obtain ⟨rfl, rfl⟩ : written = _ ∧ last = name := by simpa using same
        exact ⟨written, Or.inr rfl, parts⟩
      · rintro ⟨_, same | same, parts⟩
        · cases same
        · obtain ⟨rfl, rfl, rfl⟩ : modifier = _ ∧ written = _ ∧ last = name := by
            simpa only [List.cons.injEq, and_true] using same
          exact ⟨rfl, written, rfl, parts⟩
  · next words other =>
      rw [typed]
      constructor
      · rintro ⟨written, same, parts⟩
        exact ⟨written, Or.inl same, parts⟩
      · rintro ⟨written, same | same, parts⟩
        · exact ⟨written, same, parts⟩
        · exact absurd same (other _ _ _)

theorem property?_eq_some_iff {line : Text} {declaration : Declaration} :
    property? line = some declaration ↔
      ∃ name, declaration = property name ∧ IsPropertyLine line name := by
  simp only [property?_eq, splitWords?, Option.bind_map, Function.comp_apply,
    Option.ite_none_left_eq_some, Option.bind_eq_some_iff, Option.map_eq_some_iff,
    List.contains_iff_mem]
  constructor
  · rintro ⟨uncalled, ⟨header, below⟩, cut, words, access, name, found, rfl⟩
    obtain ⟨rfl, single⟩ := eq_append_of_splitAt? cut
    obtain ⟨written, shape, parts⟩ := propertyHead?_eq_some_iff.mp found
    have more : words ≠ [] := by
      rcases shape with rfl | rfl
      · simp
      · simp
    obtain ⟨inner, after, _, rfl⟩ := exists_afterAccess access more
    exact ⟨name, rfl, uncalled, header, inner, below, written, rfl, single, after, shape, parts⟩
  · rintro ⟨name, rfl, uncalled, header, inner, below, written, rfl, single, after, parts⟩
    exact ⟨uncalled, (header, below), splitAt?_append single below, inner.words,
      after.afterAccess?, name, propertyHead?_eq_some_iff.mpr ⟨written, parts⟩, rfl⟩

def matchLine? (line : Text) : Option Declaration :=
  (typePattern.firstMatch? line).bind typeOf? <|> (methodPattern.firstMatch? line).bind methodOf? <|>
    if line.contains '(' then none else (propertyPattern.firstMatch? line).bind propertyOf?

theorem matchLine?_eq (line : Text) : matchLine? line = recognize? line := by
  rw [matchLine?, firstMatch?_typePattern, firstMatch?_methodPattern, firstMatch?_propertyPattern,
    recognize?]

/-- A modifier in front of the parenthesis is read again as the name. -/
example : matchLine? "public static new(int size) :".toList =
    some (.method "new".toList none "int size".toList) := by
  rw [matchLine?_eq]
  decide

theorem recognize?_eq_some_iff {line : Text} {declaration : Declaration} :
    recognize? line = some declaration ↔ Declares line declaration := by
  simp only [recognize?, Option.orElse_eq_orElse, Option.orElse_eq_or, Option.or_eq_some_iff,
    type?_eq_some_iff, method?_eq_some_iff, property?_eq_some_iff, type?_eq_none_iff,
    method?_eq_none_iff]
  constructor
  · rintro (⟨kind, name, rfl, parts⟩ | ⟨none, ⟨name, returnType, params, rfl, parts⟩ |
      ⟨neither, name, rfl, parts⟩⟩)
    · exact .type parts
    · exact .method none parts
    · exact .property none neither parts
  · intro declares
    cases declares with
    | type parts => exact Or.inl ⟨_, _, rfl, parts⟩
    | method untyped parts => exact Or.inr ⟨untyped, Or.inl ⟨_, _, _, rfl, parts⟩⟩
    | property untyped uncalled parts =>
        exact Or.inr ⟨untyped, Or.inr ⟨uncalled, _, rfl, parts⟩⟩

/-- The patterns, the recognition by words and the parts of a line agree on every line, and no line has
its parts in two ways. -/
theorem recognize?_grammar (line : Text) :
    matchLine? line = recognize? line ∧
      (∀ declaration, recognize? line = some declaration ↔ Declares line declaration) ∧
      ∀ first second, Declares line first → Declares line second → first = second := by
  refine ⟨matchLine?_eq line, fun _ => recognize?_eq_some_iff, ?_⟩
  intro first second one other
  rw [← recognize?_eq_some_iff] at one other
  exact Option.some.inj (one.symm.trans other)

end Declaration

end DocComments
