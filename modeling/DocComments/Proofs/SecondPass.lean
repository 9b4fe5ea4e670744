import DocComments.Proofs.Documented

/-! A pass over a file that a pass has left. What the first one wrote is not replaced by the
second, with one exception: if the file has become one about value converters by what was written
into it, the blocks of conversions are worded anew. -/

namespace DocComments

namespace Refresh

def HasStaleConversion (setting : Setting) (file : List Text) : Prop :=
  ∃ higher line below name returnType params block,
    file = higher ++ line :: below ∧
      Declaration.recognize? line.dropTerminator = some (.method name returnType params) ∧
      Block.nearest? higher.reverse = some block ∧
      isStaleConversion setting.cues name block.lines = true ∧
      block.lines ≠ setLike line (document setting (enclosingIn (higher ++ [line]))
        (.method name returnType params)).lines

end Refresh

namespace Segment

/-- Of the reasons to replace a block, only one can be new to a block that a pass has left. -/
theorem stale_of_refresh {table : Curated.Table} (written : table.IsWritten) {path : Text}
    {cues later : FileCues} {enclosing : Option Text} {segment : Segment}
    (replaceable : (segment.refresh ⟨table, path, cues⟩ enclosing).IsReplaceable
      ⟨table, path, later⟩ enclosing)
    (different : (segment.refresh ⟨table, path, cues⟩ enclosing).block ≠
      segment.fresh ⟨table, path, later⟩ enclosing) :
    cues.valueConverter = false ∧ ∃ name returnType params,
      segment.declaration = .method name returnType params ∧
        Refresh.isStaleConversion later name
          (segment.refresh ⟨table, path, cues⟩ enclosing).block = true := by
  rcases replaceable_iff.mp replaceable with
    template | curated | interface | ⟨name, returnType, params, method, stale⟩
  · rw [isPlaceholder_block_refresh written] at template
    cases template
  · exact (different (block_refresh_of_prescribed (Or.inl curated))).elim
  · exact (different (block_refresh_of_prescribed (Or.inr interface))).elim
  · refine ⟨?_, name, returnType, params, method, stale⟩
    rw [Bool.eq_false_iff]
    intro cue
    have kept : cues.valueConverter = later.valueConverter :=
      cue.trans ((isStaleConversion_iff _ _ _).mp stale).1.symm
    have same : segment.fresh ⟨table, path, cues⟩ enclosing =
        segment.fresh ⟨table, path, later⟩ enclosing := by
      change segment.declaration = _ at method
      rw [fresh, fresh, method, Refresh.fresh, Refresh.fresh,
        Refresh.document_lines_of_method kept]
    by_cases rewritten : segment.block = [] ∨ segment.IsReplaceable ⟨table, path, cues⟩ enclosing
    · rw [block_refresh, if_pos rewritten] at different
      exact different same
    · rw [block_refresh, if_neg rewritten] at stale
      have before : Refresh.isStaleConversion cues name segment.block = true := by
        rw [isStaleConversion_iff] at stale ⊢
        exact ⟨cue, stale.2⟩
      exact rewritten (Or.inr (replaceable_of_stale method before))

end Segment

namespace Outline

theorem hasStaleConversion_iff {setting : Refresh.Setting} {outline : Outline}
    (documented : ∀ place ∈ enclosed none outline.segments, place.2.block ≠ []) :
    Refresh.HasStaleConversion setting outline.lines ↔
      ∃ place ∈ enclosed none outline.segments, place.2.block ≠ place.2.fresh setting place.1 ∧
        ∃ name returnType params, place.2.declaration = .method name returnType params ∧
          Refresh.isStaleConversion setting.cues name place.2.block = true := by
  constructor
  · rintro ⟨higher, line, below, name, returnType, params, block, cut, recognized, found, stale,
      different⟩
    obtain ⟨place, member, rfl, method, located⟩ := exists_place cut recognized
    rw [Block.nearest?_eq_some found, ← located.block] at stale different
    rw [← located.enclosing, ← method] at different
    exact ⟨place, member, different, name, returnType, params, method, stale⟩
  · rintro ⟨place, member, different, name, returnType, params, method, stale⟩
    obtain ⟨higher, below, located⟩ := exists_lines member
    have nonempty := located.run_ne_nil (documented place member)
    obtain ⟨block, found⟩ := Block.exists_nearest? nonempty
    have recognized := place.2.recognized
    rw [method] at recognized
    refine ⟨higher, place.2.line, below, name, returnType, params, block, located.lines, recognized,
      found, ?_, ?_⟩
    · rw [Block.nearest?_eq_some found, ← located.block]
      exact stale
    · rw [Block.nearest?_eq_some found, ← located.block, ← located.enclosing, ← method]
      exact different

end Outline

theorem plan_refreshed_eq_nil {table : Curated.Table} (single : table.Avoids '\n')
    (written : table.IsWritten) (path text : Text) :
    plan table path (refreshed table path text) = [] ↔
      ¬((FileCues.ofText text).valueConverter = false ∧
        Refresh.HasStaleConversion ⟨table, path, FileCues.ofText (refreshed table path text)⟩
          (refreshed table path text).lines) := by
  have cut := Outline.lines_ofLines text.lines
  have after := Outline.lines_refreshed single path cut
  rw [Outline.plan_lines table path after.symm, Outline.edits_eq_nil_iff, after,
    Outline.hasStaleConversion_iff fun place member => Outline.block_ne_nil_of_mem_refresh member]
  constructor
  · rintro unchanged ⟨_, place, member, different, name, returnType, params, method, stale⟩
    have nonempty := Outline.block_ne_nil_of_mem_refresh member
    have settled := (Segment.edit?_eq_none_iff nonempty).mp (unchanged place member)
    exact different (settled (replaceable_of_stale method stale))
  · intro settled place member
    rw [Segment.edit?_eq_none_iff (Outline.block_ne_nil_of_mem_refresh member)]
    intro replaceable
    by_contra different
    obtain ⟨segment, _, same⟩ := Outline.exists_of_mem_refresh member
    have outdated := replaceable
    have changed := different
    rw [same] at outdated changed
    obtain ⟨cue, name, returnType, params, method, stale⟩ :=
      Segment.stale_of_refresh written outdated changed
    apply settled
    refine ⟨cue, place, member, different, name, returnType, params, ?_, ?_⟩
    · rw [same]
      exact method
    · rw [same]
      exact stale

/-- A second pass with the shipped or with no curated texts changes nothing, unless the first one made
the file one about value converters and left it the block of a conversion to be worded anew. -/
theorem second_pass_idle_iff {table : Curated.Table}
    (known : table = Curated.shipped ∨ table = []) (path text : Text) :
    plan table path (refreshed table path text) = [] ↔
      ¬((FileCues.ofText text).valueConverter = false ∧
        Refresh.HasStaleConversion ⟨table, path, FileCues.ofText (refreshed table path text)⟩
          (refreshed table path text).lines) := by
  rcases known with rfl | rfl
  · exact plan_refreshed_eq_nil Curated.Table.avoids_shipped Curated.Table.isWritten_shipped path text
  · exact plan_refreshed_eq_nil (by simp [Curated.Table.Avoids]) (by simp [Curated.Table.IsWritten])
      path text

theorem second_pass_idle_area :
    (Curated.shipped = Curated.shipped ∨ Curated.shipped = []) ∧
      plan Curated.shipped "A.cs".toList
        (refreshed Curated.shipped "A.cs".toList "public int Area()\n".toList) = [] := by
  refine ⟨Or.inl rfl, (second_pass_idle_iff (Or.inl rfl) _ _).mpr ?_⟩
  rintro ⟨_, higher, line, below, name, returnType, params, block, _, _, _, stale, _⟩
  rw [isStaleConversion_iff] at stale
  have without : (FileCues.ofText (refreshed Curated.shipped "A.cs".toList
      "public int Area()\n".toList)).valueConverter = false := by decide +kernel
  rw [without] at stale
  cases stale.1

/-- The brackets that are dropped from a parameter list can leave a name that is a cue. -/
theorem second_pass_rewords :
    plan Curated.shipped "A.cs".toList (refreshed Curated.shipped "A.cs".toList
      "public object ConvertBack(int IValue[]Converter)\n".toList) ≠ [] := by
  decide +kernel

end DocComments
