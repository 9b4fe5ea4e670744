import DocComments.Proofs.Places
import DocComments.Proofs.Planning

/-! The declarations of a file as sites, each with the lines above and below it. A planned edit is
the edit of a site (`mem_plan_iff`), and a block belongs to one site only (`Site.eq_of_start`). -/

namespace DocComments

structure Site where
  higher : List Text
  line : Text
  below : List Text
  declaration : Declaration
  recognized : Declaration.recognize? line.dropTerminator = some declaration

namespace Site

def file (site : Site) : List Text := site.higher ++ site.line :: site.below

def enclosing (site : Site) : Option Text := Refresh.enclosingIn (site.higher ++ [site.line])

def block? (site : Site) : Option Block.Located := Block.nearest? site.higher.reverse

def fresh (setting : Refresh.Setting) (site : Site) : List Text :=
  Refresh.fresh setting site.enclosing site.line site.declaration

def edit? (setting : Refresh.Setting) (site : Site) : Option Edit :=
  Refresh.edit? setting site.enclosing site.higher.reverse site.line site.declaration

end Site

namespace Refresh

theorem mem_planFrom_iff {setting : Setting} {above file : List Text} {outer : Option Text}
    {edit : Edit} :
    edit ∈ planFrom setting above outer file ↔ ∃ site : Site, site.file = file ∧
      edit? setting ((Declaration.ofLines (site.higher ++ [site.line])).foldl enclosingAfter outer)
        (site.higher.reverse ++ above) site.line site.declaration = some edit := by
  induction file generalizing above outer with
  | nil => simp [planFrom, Site.file]
  | cons line below ih =>
      unfold planFrom
      split
      · next unrecognized =>
          rw [ih]
          constructor
          · rintro ⟨⟨higher, own, lower, declaration, recognized⟩, rfl, found⟩
            refine ⟨⟨line :: higher, own, lower, declaration, recognized⟩, rfl, ?_⟩
            simpa [Declaration.ofLines, unrecognized] using found
          · rintro ⟨⟨higher, own, lower, declaration, recognized⟩, cut, found⟩
            cases higher with
            | nil =>
                obtain ⟨rfl, _⟩ := List.cons.inj cut
                rw [unrecognized] at recognized
                cases recognized
            | cons first higher =>
                obtain ⟨rfl, rest⟩ := List.cons.inj cut
                refine ⟨⟨higher, own, lower, declaration, recognized⟩, rest, ?_⟩
                simpa [Declaration.ofLines, unrecognized] using found
      · next nearest nearestRecognized =>
          rw [List.mem_append, Option.mem_toList, ih]
          constructor
          · rintro (found | ⟨⟨higher, own, lower, declaration, recognized⟩, rfl, found⟩)
            · refine ⟨⟨[], line, below, nearest, nearestRecognized⟩, rfl, ?_⟩
              simpa [Declaration.ofLines, nearestRecognized] using found
            · refine ⟨⟨line :: higher, own, lower, declaration, recognized⟩, rfl, ?_⟩
              simpa [Declaration.ofLines, nearestRecognized] using found
          · rintro ⟨⟨higher, own, lower, declaration, recognized⟩, cut, found⟩
            cases higher with
            | nil =>
                obtain ⟨rfl, rfl⟩ := List.cons.inj cut
                obtain rfl : nearest = declaration :=
                  Option.some.inj (nearestRecognized.symm.trans recognized)
                left
                simpa [Declaration.ofLines, nearestRecognized] using found
            | cons first higher =>
                obtain ⟨rfl, rest⟩ := List.cons.inj cut
                right
                refine ⟨⟨higher, own, lower, declaration, recognized⟩, rest, ?_⟩
                simpa [Declaration.ofLines, nearestRecognized] using found

end Refresh

theorem mem_plan_iff {table : Curated.Table} {path text : Text} {edit : Edit} :
    edit ∈ plan table path text ↔ ∃ site : Site, site.file = text.lines ∧
      site.edit? ⟨table, path, FileCues.ofText text⟩ = some edit := by
  simp only [plan, Refresh.mem_planFrom_iff, List.append_nil]
  rfl

namespace Site

theorem edit?_of_missing {site : Site} (missing : site.block? = none) (setting : Refresh.Setting) :
    site.edit? setting = some (.insert site.higher.length (site.fresh setting)) := by
  unfold block? at missing
  unfold edit? Refresh.edit?
  dsimp only
  rw [missing, List.length_reverse]
  rfl

theorem edit?_of_block {site : Site} {block : Block.Located} (found : site.block? = some block)
    (setting : Refresh.Setting) :
    site.edit? setting =
      if Replaceable setting.cues (Refresh.document setting site.enclosing site.declaration).curated
          site.declaration block.lines ∧ block.lines ≠ site.fresh setting then
        some (.replace block.span.start block.span.last (site.fresh setting))
      else none := by
  unfold block? at found
  unfold edit? Refresh.edit?
  dsimp only
  rw [found]
  simp only [Bool.and_eq_true, isOutdated_iff, bne_iff_ne]
  rfl

theorem block_of_edit? {site : Site} {setting : Refresh.Setting} {start last : Nat}
    {lines : List Text} (found : site.edit? setting = some (.replace start last lines)) :
    ∃ block, site.block? = some block ∧ block.span = ⟨start, last⟩ := by
  cases own : site.block? with
  | none =>
      rw [edit?_of_missing own] at found
      cases found
  | some block =>
      rw [edit?_of_block own] at found
      split at found
      · obtain ⟨rfl, rfl, _⟩ := Edit.replace.inj (Option.some.inj found)
        exact ⟨block, rfl, rfl⟩
      · cases found

theorem position_of_edit? {site : Site} {setting : Refresh.Setting} {position : Nat}
    {lines : List Text} (found : site.edit? setting = some (.insert position lines)) :
    position = site.higher.length := by
  cases own : site.block? with
  | none =>
      rw [edit?_of_missing own] at found
      exact (Edit.insert.inj (Option.some.inj found)).1.symm
  | some block =>
      rw [edit?_of_block own] at found
      split at found
      · cases found
      · cases found

theorem exists_parts {site : Site} {block : Block.Located} (found : site.block? = some block) :
    ∃ beyond passed, site.higher = beyond ++ (block.lines ++ passed) ∧
      block.span.start = beyond.length ∧ (∀ line ∈ block.lines, Block.isDocLine line = true) ∧
      ∀ line ∈ passed, Block.isPassedOver line = true := by
  have parts := congrArg List.reverse (Block.parts_append site.higher.reverse)
  simp only [List.reverse_append, List.reverse_reverse, List.append_assoc] at parts
  have shown := Block.nearest?_eq_some found
  refine ⟨(Block.beyond site.higher.reverse).reverse, (Block.passed site.higher.reverse).reverse,
    ?_, ?_, ?_, ?_⟩
  · rw [shown, parts]
  · rw [block?, Block.nearest?_eq] at found
    split at found
    · cases found
    · rw [← Option.some.inj found, List.length_reverse]
  · intro line member
    rw [shown, List.mem_reverse] at member
    exact Block.isDocLine_of_mem_run member
  · intro line member
    exact Block.isPassedOver_of_mem_passed (List.mem_reverse.mp member)

/-- From the first line of its block a site is reached by the first line that is no documentation
and is not passed over. -/
theorem length_higher {site : Site} {block : Block.Located} (found : site.block? = some block) :
    site.higher.length = block.span.start + ((site.file.drop block.span.start).takeWhile
      fun line => Block.isDocLine line || Block.isPassedOver line).length := by
  have access := Declaration.hasAccess_of_recognize? site.recognized
  have stop : ∀ line ∈ (site.line :: site.below).head?,
      (Block.isDocLine line || Block.isPassedOver line) = false := by
    intro line first
    obtain rfl : site.line = line := by simpa using first
    rw [Block.isDocLine_of_hasAccess access, Block.isPassedOver_of_hasAccess access]
    rfl
  obtain ⟨beyond, passed, whole, start, docs, skipped⟩ := exists_parts found
  have between : ∀ line ∈ block.lines ++ passed,
      (Block.isDocLine line || Block.isPassedOver line) = true := by
    intro line member
    rw [Bool.or_eq_true]
    rcases List.mem_append.mp member with doc | pass
    · exact Or.inl (docs line doc)
    · exact Or.inr (skipped line pass)
  rw [file, whole, start, List.append_assoc, List.drop_left, takeWhile_append_stop stop,
    List.takeWhile_eq_self_iff.mpr between, List.length_append]

theorem eq_of_length {site other : Site} (same : site.file = other.file)
    (length : site.higher.length = other.higher.length) : site = other := by
  obtain ⟨higher, line, below, declaration, recognized⟩ := site
  obtain ⟨higher', line', below', declaration', recognized'⟩ := other
  obtain ⟨rfl, lower⟩ := List.append_inj same length
  obtain ⟨rfl, rfl⟩ := List.cons.inj lower
  obtain rfl : declaration = declaration' :=
    Option.some.inj (recognized.symm.trans recognized')
  rfl

theorem eq_of_start {site other : Site} (same : site.file = other.file)
    {block block' : Block.Located} (found : site.block? = some block)
    (found' : other.block? = some block') (start : block.span.start = block'.span.start) :
    site = other := by
  apply eq_of_length same
  rw [length_higher found, length_higher found', same, start]

end Site

namespace Edit

def IsFor (site : Site) : Edit → Prop
  | insert position _ => position = site.higher.length
  | replace start last _ => ∃ block, site.block? = some block ∧ block.span = ⟨start, last⟩

end Edit

namespace Site

theorem isFor_of_edit? {site : Site} {setting : Refresh.Setting} {edit : Edit}
    (planned : site.edit? setting = some edit) : edit.IsFor site := by
  cases edit with
  | insert position lines => exact position_of_edit? planned
  | replace start last lines => exact block_of_edit? planned

theorem eq_of_isFor {site other : Site} {edit : Edit} (same : site.file = other.file)
    (one : edit.IsFor site) (two : edit.IsFor other) : site = other := by
  cases edit with
  | insert position lines => exact eq_of_length same (one.symm.trans two)
  | replace start last lines =>
      obtain ⟨block, found, span⟩ := one
      obtain ⟨block', found', span'⟩ := two
      exact eq_of_start same found found' (by rw [span, span'])

theorem edit?_of_isFor {table : Curated.Table} {path text : Text} {site : Site} {edit : Edit}
    (cut : site.file = text.lines) (own : edit.IsFor site) (planned : edit ∈ plan table path text) :
    site.edit? ⟨table, path, FileCues.ofText text⟩ = some edit := by
  obtain ⟨other, cut', planned⟩ := mem_plan_iff.mp planned
  rw [eq_of_isFor (cut.trans cut'.symm) own (isFor_of_edit? planned)]
  exact planned

theorem replace_mem_plan_iff {table : Curated.Table} {path text : Text} {site : Site}
    (cut : site.file = text.lines) {block : Block.Located} (found : site.block? = some block)
    (lines : List Text) :
    .replace block.span.start block.span.last lines ∈ plan table path text ↔
      site.edit? ⟨table, path, FileCues.ofText text⟩ =
        some (.replace block.span.start block.span.last lines) := by
  constructor
  · intro planned
    exact edit?_of_isFor cut ⟨block, found, rfl⟩ planned
  · intro planned
    exact mem_plan_iff.mpr ⟨site, cut, planned⟩

theorem lines_of_edit? {site : Site} {setting : Refresh.Setting} {edit : Edit}
    (planned : site.edit? setting = some edit) : edit.lines = site.fresh setting := by
  cases found : site.block? with
  | none =>
      rw [edit?_of_missing found] at planned
      rw [← Option.some.inj planned]
      rfl
  | some block =>
      rw [edit?_of_block found] at planned
      split at planned
      · rw [← Option.some.inj planned]
        rfl
      · cases planned

end Site

end DocComments
