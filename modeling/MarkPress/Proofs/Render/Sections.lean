/-
Module: MarkPress.Proofs.Render.Sections
Purpose: The output of regions among which sections begin and end in turn.
  Read in order, the tags of the regions say where a section is open, and every region that is no
  boundary of a section stands inside of one. The export drops none of the boundaries, since they
  always appear, are no half of an empty pair and have their counterparts. So the tags of sections
  in the output alternate, whatever else is dropped between them.
Main exports:
  Tag.crossSection, Region.Sewn, Sewn.render, Sewing, Sewing.drop, Sewing.html
-/
import MarkPress.Export
import MarkPress.Proofs.Html.Sections

namespace MarkPress

open Html

/-- Whether a section is open behind a region of a tag, given whether one is open before it.
Sections begin and end in turn, and nothing else stands outside of one. -/
def Tag.crossSection (inside : Bool) : Tag → Option Bool
  | .sectionBegin => crossTag inside true
  | .sectionEnd => crossTag inside false
  | _ => if inside then some true else none

/-- What a region holds may stand inside of a section, and the boundaries of sections are written
without attributes. -/
structure Region.Sewn (region : Region) : Prop where
  inner : Seam region.inner
  attributes : region.attributes.Known
  boundary : region.tag.traits.element = some .sect → region.attributes = Dictionary.empty

section Tags

variable {tag : Tag} {inside behind : Bool}

theorem Tag.crossSection_inner (inner : tag.traits.element ≠ some .sect) :
    tag.crossSection inside = if inside then some true else none := by
  cases tag <;> first | rfl | exact absurd rfl inner

/-- What is no boundary of a section stands inside of one. -/
theorem Tag.inside_of_inner (inner : tag.traits.element ≠ some .sect)
    (crossed : tag.crossSection inside = some behind) : inside = true ∧ behind = true := by
  rw [crossSection_inner inner] at crossed
  cases inside with
  | false => cases crossed
  | true => exact ⟨rfl, (Option.some.inj crossed).symm⟩

/-- Outside of sections only the beginning of one can stand. -/
theorem Tag.eq_sectionBegin (crossed : tag.crossSection false = some behind) :
    tag = .sectionBegin := by
  cases tag <;> first | rfl | cases crossed

/-- Only the end of a section leads out of it. -/
theorem Tag.eq_sectionEnd (crossed : tag.crossSection inside = some false) : tag = .sectionEnd := by
  cases tag <;> cases inside <;> first | rfl | cases crossed

theorem Tag.sectionEnd_of_boundary (boundary : tag.traits.element = some .sect)
    (crossed : tag.crossSection true = some behind) : tag = .sectionEnd ∧ behind = false := by
  cases tag <;> try cases boundary
  · cases crossed
  · exact ⟨rfl, (Option.some.inj crossed).symm⟩

end Tags

namespace Region

variable {region : Region} {inside behind : Bool}

theorem sewn_ofTag (tag : Tag) : (ofTag tag).Sewn where
  inner := seam_nil
  attributes := tag.attributes_known
  boundary := by cases tag <;> first | exact fun _ => rfl | exact fun other => nomatch other

theorem Sewn.extend (sewn : region.Sewn) {text : Text} (seam : Seam text) :
    (region.extend text).Sewn where
  inner := by
    rw [inner_extend]
    exact sewn.inner.append seam
  attributes := sewn.attributes
  boundary := sewn.boundary

/-- A region that is no boundary of a section is rendered as a seam. -/
theorem Sewn.render_inner (sewn : region.Sewn) (inner : region.tag.traits.element ≠ some .sect) :
    Seam region.render :=
  sewn.inner.write (fun _ h => region.tag.name_mem_elementNames h) sewn.attributes inner _

theorem Sewn.render_begin (sewn : region.Sewn) (isBegin : region.tag = .sectionBegin) :
    region.render = "<section>".toList ++ region.inner := by
  have plain : region.attributes = Dictionary.empty := sewn.boundary (by rw [isBegin]; rfl)
  rw [render, Tag.write, isBegin, plain]
  rfl

theorem render_end (isEnd : region.tag = .sectionEnd) :
    region.render = region.inner ++ "</section>".toList := by
  rw [render, Tag.write, isEnd]
  rfl

/-- The text of a region leads across the sections as its tag does. -/
theorem Sewn.render (sewn : region.Sewn) (crossed : region.tag.crossSection inside = some behind) :
    Tokenized region.render
      ∧ (sectionTags region.render).foldlM crossTag inside = some behind := by
  by_cases inner : region.tag.traits.element = some .sect
  · cases inside with
    | false =>
        have isBegin := Tag.eq_sectionBegin crossed
        have opening : Tokenized "<section>".toList :=
          tokenized_token (.opening "section".toList (by decide) [])
        rw [isBegin] at crossed
        rw [sewn.render_begin isBegin, sectionTags_append opening, List.foldlM_append]
        refine ⟨opening.append sewn.inner.tokenized, ?_⟩
        exact sewn.inner.followed.trans crossed
    | true =>
        obtain ⟨isEnd, rfl⟩ := Tag.sectionEnd_of_boundary inner crossed
        have closing : Tokenized "</section>".toList :=
          tokenized_token (.closing "section".toList (by decide))
        rw [render_end isEnd, sectionTags_append sewn.inner.tokenized, List.foldlM_append,
          sewn.inner.followed]
        exact ⟨sewn.inner.tokenized.append closing, rfl⟩
  · obtain ⟨rfl, rfl⟩ := Tag.inside_of_inner inner crossed
    have seam := sewn.render_inner inner
    exact ⟨seam.tokenized, seam.followed⟩

end Region

/-! ### What the export leaves out -/

/-- Regions that lead from inside or outside of a section to inside or outside of one. -/
structure Sewing (inside : Bool) (regions : List Region) (behind : Bool) : Prop where
  order : (regions.map Region.tag).foldlM Tag.crossSection inside = some behind
  sewn : ∀ region ∈ regions, region.Sewn

namespace Sewing

variable {inside behind : Bool} {region left right : Region} {regions rest : List Region}

theorem cons_iff : Sewing inside (region :: rest) behind ↔
    region.Sewn ∧ ∃ next, region.tag.crossSection inside = some next ∧ Sewing next rest behind := by
  constructor
  · rintro ⟨order, sewn⟩
    rw [List.map_cons, List.foldlM_cons, Option.bind_eq_bind, Option.bind_eq_some_iff] at order
    obtain ⟨next, crossed, later⟩ := order
    exact ⟨sewn region List.mem_cons_self, next, crossed, later,
      fun r member => sewn r (List.mem_cons_of_mem _ member)⟩
  · rintro ⟨first, next, crossed, later⟩
    refine ⟨?_, List.forall_mem_cons.mpr ⟨first, later.sewn⟩⟩
    rw [List.map_cons, List.foldlM_cons, crossed]
    exact later.order

theorem append_iff {more : List Region} {last : Bool} :
    Sewing inside (regions ++ more) last ↔
      ∃ middle, Sewing inside regions middle ∧ Sewing middle more last := by
  induction regions generalizing inside with
  | nil =>
      constructor
      · exact fun sewing => ⟨inside, ⟨rfl, by simp⟩, sewing⟩
      · rintro ⟨middle, none, sewing⟩
        have same : inside = middle := Option.some.inj none.order
        exact same ▸ sewing
  | cons region rest ih =>
      simp only [List.cons_append, cons_iff, ih]
      constructor
      · rintro ⟨sewn, next, crossed, middle, first, later⟩
        exact ⟨middle, ⟨sewn, next, crossed, first⟩, later⟩
      · rintro ⟨middle, ⟨sewn, next, crossed, first⟩, later⟩
        exact ⟨sewn, next, crossed, middle, first, later⟩

theorem single (sewn : region.Sewn) (crossed : region.tag.crossSection inside = some behind) :
    Sewing inside [region] behind :=
  cons_iff.mpr ⟨sewn, behind, crossed, rfl, by simp⟩

/-- A region that is no boundary may be left out. -/
theorem drop (sewing : Sewing inside (region :: rest) behind)
    (inner : region.tag.traits.element ≠ some .sect) : Sewing inside rest behind := by
  obtain ⟨-, next, crossed, later⟩ := cons_iff.mp sewing
  obtain ⟨rfl, rfl⟩ := Tag.inside_of_inner inner crossed
  exact later

theorem inner_of_hidden (hidden : region.isShown = false) :
    region.tag.traits.element ≠ some .sect := by
  intro boundary
  have shown : ∀ t ∈ Tag.all, t.traits.element = some .sect → ∀ empty, t.isShown empty = true := by
    decide
  rw [Region.isShown, shown region.tag region.tag.mem_all boundary] at hidden
  cases hidden

theorem inner_of_prunable (prunable : region.isPrunable = true) :
    region.tag.traits.element ≠ some .sect := by
  intro boundary
  have kept : ∀ t ∈ Tag.all, t.traits.element = some .sect →
      ∀ empty, t.isPrunable empty = false := by decide
  rw [Region.isPrunable, kept region.tag region.tag.mem_all boundary] at prunable
  cases prunable

theorem shown (sewing : Sewing inside regions behind) :
    Sewing inside (regions.filter Region.isShown) behind := by
  induction regions generalizing inside with
  | nil => exact sewing
  | cons region rest ih =>
      rw [List.filter_cons]
      split
      · obtain ⟨first, next, crossed, later⟩ := cons_iff.mp sewing
        exact cons_iff.mpr ⟨first, next, crossed, ih later⟩
      · rename_i hidden
        exact ih (sewing.drop (inner_of_hidden (Bool.eq_false_iff.mpr hidden)))

theorem dropEmptyPairs (sewing : Sewing inside regions behind) :
    Sewing inside (Export.dropEmptyPairs id regions) behind := by
  induction regions using Export.dropEmptyPairs.induct id generalizing inside with
  | case1 => exact sewing
  | case2 region => exact sewing
  | case3 left right rest empty ih =>
      rw [Export.dropEmptyPairs, if_pos empty]
      simp only [Export.isEmptyPair, Bool.and_eq_true, id] at empty
      exact ih ((sewing.drop (inner_of_prunable empty.1.1)).drop (inner_of_prunable empty.1.2))
  | case4 left right rest filled ih =>
      rw [Export.dropEmptyPairs, if_neg filled]
      obtain ⟨first, next, crossed, later⟩ := cons_iff.mp sewing
      exact cons_iff.mpr ⟨first, next, crossed, ih later⟩

/-- The sections that are open, counted as the export does: at most one. -/
def Counted (inside : Bool) (opened : List Element) : Prop :=
  opened.count .sect = if inside then 1 else 0

/-- A region stays and is counted as its tag says, or it is no boundary of a section and goes. -/
theorem dropOrphans_cons {opened : List Element} (counted : Counted inside opened)
    (crossed : region.tag.crossSection inside = some behind) (rest : List Region) :
    (∃ after, Counted behind after
      ∧ Export.dropOrphans id opened (region :: rest) = region :: Export.dropOrphans id after rest)
    ∨ (region.tag.traits.element ≠ some .sect
      ∧ Export.dropOrphans id opened (region :: rest) = Export.dropOrphans id opened rest) := by
  by_cases boundary : region.tag.traits.element = some .sect
  · left
    cases inside with
    | false =>
        have isBegin := Tag.eq_sectionBegin crossed
        rw [isBegin] at crossed
        cases crossed
        refine ⟨.sect :: opened, ?_, ?_⟩
        · rw [Counted, List.count_cons_self, counted]
          rfl
        · simp [Export.dropOrphans, isBegin, Tag.traits]
    | true =>
        obtain ⟨isEnd, rfl⟩ := Tag.sectionEnd_of_boundary boundary crossed
        have open_ : Element.sect ∈ opened := by
          rw [← List.count_pos_iff, counted]
          decide
        refine ⟨opened.erase .sect, ?_, ?_⟩
        · rw [Counted, List.count_erase_self, counted]
          rfl
        · simp [Export.dropOrphans, isEnd, Tag.traits, open_]
  · obtain ⟨rfl, rfl⟩ := Tag.inside_of_inner boundary crossed
    simp only [Export.dropOrphans, id]
    cases element : region.tag.traits.element with
    | none => exact .inl ⟨opened, counted, rfl⟩
    | some e =>
        have differs : e ≠ .sect := fun same => boundary (same ▸ element)
        cases region.tag.traits.shape with
        | whole => exact .inl ⟨opened, counted, rfl⟩
        | void => exact .inl ⟨opened, counted, rfl⟩
        | opening =>
            refine .inl ⟨e :: opened, ?_, rfl⟩
            rw [Counted, List.count_cons_of_ne differs, counted]
        | closing =>
            by_cases among : e ∈ opened
            · refine .inl ⟨opened.erase e, ?_, if_pos among⟩
              rw [Counted, List.count_erase_of_ne differs.symm, counted]
            · exact .inr ⟨by simpa using differs, if_neg among⟩

/-- What is written of the regions leads across the sections as their tags do. If anything leads out
of a section, the end of one is the last of it. -/
theorem dropOrphans {opened : List Element} (sewing : Sewing inside regions behind)
    (counted : Counted inside opened) :
    Tokenized ((Export.dropOrphans id opened regions).flatMap Region.render)
      ∧ (sectionTags ((Export.dropOrphans id opened regions).flatMap Region.render)).foldlM crossTag
          inside = some behind
      ∧ (behind = false → (inside = false ∧ Export.dropOrphans id opened regions = [])
        ∨ "</section>".toList
          <:+ (Export.dropOrphans id opened regions).flatMap Region.render) := by
  induction regions generalizing inside opened with
  | nil =>
      have same : inside = behind := Option.some.inj sewing.order
      exact ⟨tokenized_nil, sewing.order, fun out => .inl ⟨same.trans out, rfl⟩⟩
  | cons region rest ih =>
      obtain ⟨sewn, next, crossed, later⟩ := cons_iff.mp sewing
      rcases dropOrphans_cons counted crossed rest with ⟨after, counted', kept⟩ | ⟨inner, dropped⟩
      · obtain ⟨tokenized, followed⟩ := sewn.render crossed
        obtain ⟨laterTokenized, laterFollowed, laterEnds⟩ := ih later counted'
        rw [kept, List.flatMap_cons, sectionTags_append tokenized, List.foldlM_append, followed]
        refine ⟨tokenized.append laterTokenized, laterFollowed, fun out => .inr ?_⟩
        rcases laterEnds out with ⟨rfl, none⟩ | ends
        · rw [none, Region.render_end (Tag.eq_sectionEnd crossed), List.flatMap_nil,
            List.append_nil]
          exact List.suffix_append _ _
        · exact ends.trans (List.suffix_append _ _)
      · obtain ⟨rfl, rfl⟩ := Tag.inside_of_inner inner crossed
        rw [dropped]
        exact ih later counted

theorem dropEmptyPairs_begin (isBegin : region.tag = .sectionBegin) (rest : List Region) :
    Export.dropEmptyPairs id (region :: rest) = region :: Export.dropEmptyPairs id rest := by
  have kept : region.isPrunable = false := by
    rw [Region.isPrunable, isBegin]
    rfl
  cases rest with
  | nil => rfl
  | cons next rest =>
      rw [Export.dropEmptyPairs, if_neg]
      simp [Export.isEmptyPair, kept]

/-- The output of regions that begin with a section and end all of them: it begins with the tag that
opens a section, ends with one that closes one, and such tags alternate between. -/
theorem html (sewing : Sewing false (region :: rest) false) :
    "<section>".toList <+: Export.html (region :: rest)
      ∧ "</section>".toList <:+ Export.html (region :: rest)
      ∧ (sectionTags (Export.html (region :: rest))).IsChain (· ≠ ·) := by
  have outside : Counted false [] := rfl
  have written := sewing.shown.dropEmptyPairs.dropOrphans outside
  obtain ⟨sewn, next, crossed, -⟩ := cons_iff.mp sewing
  have isBegin := Tag.eq_sectionBegin crossed
  have isShown : region.isShown = true := by
    rw [Region.isShown, isBegin]
    rfl
  -- the beginning of the first section stays, so it is the first that is written
  obtain ⟨others, kept⟩ : ∃ others, Export.selection id (region :: rest) = region :: others := by
    have among : (region :: rest).filter (fun r => (id r).isShown)
        = region :: rest.filter Region.isShown := List.filter_cons_of_pos isShown
    rw [Export.selection, among, dropEmptyPairs_begin isBegin]
    rcases dropOrphans_cons (show Counted false [] from rfl) crossed
      (Export.dropEmptyPairs id (rest.filter Region.isShown)) with ⟨after, -, stays⟩ | ⟨inner, -⟩
    · exact ⟨_, stays⟩
    · exact absurd (by rw [isBegin]; rfl) inner
  obtain ⟨-, followed, ends⟩ := written
  refine ⟨?_, (ends rfl).resolve_left fun none => ?_, ?_⟩
  · rw [Export.html, kept, List.flatMap_cons, sewn.render_begin isBegin, List.append_assoc]
    exact List.prefix_append _ _
  · exact absurd (kept.symm.trans none.2) (List.cons_ne_nil _ _)
  · exact (isChain_of_crossTag followed).tail

end Sewing

end MarkPress
