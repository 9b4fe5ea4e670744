import DocComments.FilePath
import DocComments.Proofs.Words

/-! Paths joined from names. Such a path is cut into the same names again (`pieces_join`), and
slashes are its only characters that stand in none of them. The last name is what is behind the
last slash (`lastPiece?_eq_some_iff`). -/

namespace DocComments

namespace FilePath

theorem join_pieces (path : Text) : join (pieces path) = path :=
  List.intercalate_splitOn '/'

theorem pieces_join {names : List Text} (nonempty : names ≠ [])
    (plain : ∀ name ∈ names, '/' ∉ name) : pieces (join names) = names :=
  List.splitOn_intercalate '/' plain nonempty

theorem pieces_append_slash (front back : Text) :
    pieces (front ++ '/' :: back) = pieces front ++ pieces back := by
  rw [pieces, List.splitOnP_append_cons _ _ (by simp), ← pieces, ← pieces]

theorem slash_not_mem_of_mem_pieces {path piece : Text} (member : piece ∈ pieces path) :
    '/' ∉ piece := by
  intro slash
  have outside := not_of_mem_splitOnP path piece member '/' slash
  simp at outside

theorem join_cons {names : List Text} (more : names ≠ []) (first : Text) :
    join (first :: names) = first ++ '/' :: join names := by
  obtain ⟨second, rest, rfl⟩ := List.exists_cons_of_ne_nil more
  rw [join, List.intercalate_cons_cons, List.append_assoc]
  rfl

theorem join_append {above below : List Text} (front : above ≠ []) (back : below ≠ []) :
    join (above ++ below) = join above ++ '/' :: join below := by
  rw [join, intercalate_append_of_ne_nil _ front back, List.append_assoc]
  rfl

theorem mem_join_iff (names : List Text) (character : Char) (name : character ≠ '/') :
    character ∈ join names ↔ ∃ name ∈ names, character ∈ name := by
  induction names with
  | nil => simp [join]
  | cons first rest ih =>
      by_cases more : rest = []
      · simp [more, join]
      · rw [join_cons more]
        simp [ih, name]

theorem isAbsolute_join {first : Text} (nonempty : first ≠ []) (plain : '/' ∉ first)
    (rest : List Text) : isAbsolute (join (first :: rest)) = false := by
  obtain ⟨character, others, rfl⟩ := List.exists_cons_of_ne_nil nonempty
  rw [List.mem_cons, not_or] at plain
  have front : (join ((character :: others) :: rest)).head? = some character := by
    by_cases more : rest = []
    · simp [more, join]
    · simp [join_cons more]
  simp [isAbsolute, front, Ne.symm plain.1]

theorem join_singleton (name : Text) : join [name] = name := List.intercalate_singleton

theorem pieces_name {name : Text} (plain : '/' ∉ name) : pieces name = [name] := by
  have alone : pieces (join [name]) = [name] := pieces_join (by simp) (by simpa using plain)
  rwa [join_singleton] at alone

def lastPiece? (path : Text) : Option Text := (pieces path).getLast?

theorem join_concat (above : List Text) (name : Text) :
    join (above ++ [name]) = name ∨ ∃ front, join (above ++ [name]) = front ++ '/' :: name := by
  by_cases alone : above = []
  · exact Or.inl (by rw [alone, List.nil_append, join_singleton])
  · exact Or.inr ⟨join above, by rw [join_append alone (by simp), join_singleton]⟩

theorem lastPiece?_eq_some_iff {path name : Text} :
    lastPiece? path = some name ↔
      '/' ∉ name ∧ (path = name ∨ ∃ front, path = front ++ '/' :: name) := by
  constructor
  · intro last
    obtain ⟨above, cut⟩ := List.getLast?_eq_some_iff.mp last
    have member : name ∈ pieces path := by simp [cut]
    refine ⟨slash_not_mem_of_mem_pieces member, ?_⟩
    rw [← join_pieces path, cut]
    exact join_concat above name
  · rintro ⟨plain, rfl | ⟨front, rfl⟩⟩
    · rw [lastPiece?, pieces_name plain]
      rfl
    · rw [lastPiece?, pieces_append_slash, pieces_name plain, List.getLast?_concat]

theorem suffix_of_lastPiece? {path name : Text} (last : lastPiece? path = some name) :
    name <:+ path := by
  obtain ⟨_, rfl | ⟨front, rfl⟩⟩ := lastPiece?_eq_some_iff.mp last
  · exact List.suffix_refl _
  · exact (List.suffix_cons '/' name).trans (List.suffix_append front _)

def EndsInside (name path : Text) : Prop :=
  ∃ front character, character ≠ '/' ∧ path = front ++ character :: name

theorem lastPiece?_iff_of_suffix {path name : Text} (plain : '/' ∉ name) (ending : name <:+ path) :
    lastPiece? path = some name ↔ ¬EndsInside name path := by
  rw [lastPiece?_eq_some_iff]
  constructor
  · rintro ⟨_, rfl | ⟨front, rfl⟩⟩ ⟨other, character, different, same⟩
    · have lengths := congrArg List.length same
      simp only [List.length_append, List.length_cons] at lengths
      omega
    · exact different (List.cons.inj (List.append_inj' same rfl).2).1.symm
  · intro outside
    obtain ⟨front, rfl⟩ := ending
    refine ⟨plain, ?_⟩
    rcases List.eq_nil_or_concat front with rfl | ⟨before, character, rfl⟩
    · exact Or.inl rfl
    · by_cases slash : character = '/'
      · exact Or.inr ⟨before, by simp [slash]⟩
      · exact (outside ⟨before, character, slash, by simp⟩).elim

theorem mem_components {path component : Text} (member : component ∈ components path) :
    component ∈ pieces path ∨ component = ['/'] := by
  unfold components at member
  split at member
  · cases member
  · next first rest cut =>
      rw [cut]
      rcases List.mem_append.mp member with lead | later
      · split at lead
        · exact Or.inl (by simp [List.mem_singleton.mp lead])
        · split at lead
          · exact Or.inr (List.mem_singleton.mp lead)
          · cases lead
      · exact Or.inl (List.mem_cons_of_mem _ (List.mem_filter.mp later).1)

theorem slash_not_mem_of_fileName? {path name : Text} (named : fileName? path = some name) :
    '/' ∉ name := by
  obtain ⟨last, proper⟩ := Option.filter_eq_some_iff.mp named
  rcases mem_components (List.mem_of_getLast? last) with piece | rfl
  · exact slash_not_mem_of_mem_pieces piece
  · simp at proper

theorem lastPiece?_join_concat (above : List Text) {name : Text} (plain : '/' ∉ name) :
    lastPiece? (join (above ++ [name])) = some name :=
  lastPiece?_eq_some_iff.mpr ⟨plain, join_concat above name⟩

theorem lastPiece?_join_lastTwo {path name : Text} (named : fileName? path = some name) :
    lastPiece? (join (lastTwo path)) = some name := by
  obtain ⟨above, cut⟩ := List.getLast?_eq_some_iff.mp (Option.filter_eq_some_iff.mp named).1
  have two : lastTwo path = above.drop (above.length - 1) ++ [name] := by
    rw [lastTwo, cut, List.length_append, List.length_singleton, List.drop_append_of_le_length (by omega)]
    rfl
  rw [two]
  exact lastPiece?_join_concat _ (slash_not_mem_of_fileName? named)

def IsName (name : Text) : Prop := name ≠ [] ∧ '/' ∉ name ∧ name ∉ steps

instance (name : Text) : Decidable (IsName name) := inferInstanceAs (Decidable (_ ∧ _ ∧ _))

theorem components_join {names : List Text} (nonempty : names ≠ [])
    (proper : ∀ name ∈ names, IsName name) : components (join names) = names := by
  unfold components
  rw [pieces_join nonempty fun name member => (proper name member).2.1]
  obtain ⟨first, rest, rfl⟩ := List.exists_cons_of_ne_nil nonempty
  rw [List.forall_mem_cons] at proper
  dsimp only
  rw [if_pos proper.1.1, List.filter_eq_self.mpr ?_]
  · rfl
  · intro name member
    obtain ⟨visible, _, noStep⟩ := proper.2 name member
    rw [decide_eq_true_eq]
    exact ⟨visible, fun dot => noStep (dot ▸ List.mem_cons_self ..)⟩

theorem fileName?_of_lastPiece? {path name : Text} (proper : IsName name)
    (last : lastPiece? path = some name) : fileName? path = some name := by
  obtain ⟨nonempty, plain, noStep⟩ := proper
  simp only [steps, List.mem_cons, List.not_mem_nil, or_false, not_or] at noStep
  have shown : (components path).getLast? = some name := by
    obtain ⟨above, cut⟩ := List.getLast?_eq_some_iff.mp last
    unfold components
    cases above with
    | nil => simp [cut, nonempty]
    | cons first middle => simp [cut, nonempty, noStep.1]
  have slash : name ≠ ['/'] := by
    rintro rfl
    simp at plain
  rw [fileName?, shown, Option.filter_some, if_pos (by simp [steps, slash, noStep])]

theorem fileName?_below {name : Text} (proper : IsName name) (folder : Text) :
    fileName? (folder ++ '/' :: name) = fileName? name := by
  have alone := lastPiece?_eq_some_iff.mpr ⟨proper.2.1, Or.inl (Eq.refl name)⟩
  have below := lastPiece?_eq_some_iff.mpr ⟨proper.2.1, Or.inr ⟨folder, rfl⟩⟩
  rw [fileName?_of_lastPiece? proper alone, fileName?_of_lastPiece? proper below]

end FilePath

end DocComments
