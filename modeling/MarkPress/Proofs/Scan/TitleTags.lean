/-
Module: MarkPress.Proofs.Scan.TitleTags
Purpose: The beginnings and ends of tags on the line of a heading.
  What begins there stands inside of the heading. What ends there is folded into the region opened
  before it, and the end of an address ends the link or image around it as well. No such operation
  is refused, and each leaves the scan on the line.
Main exports:
  openTag_onLine, Within.forget_last, closeTagWith_eq, setAddress_within, closeUrl_onLine,
  closeTag_onLine
-/
import MarkPress.Proofs.Scan.Title

namespace MarkPress.Scan

open Html

variable {title : Title} {cut front : Arena} {content text : Text} {s s' : Scan} {calm : Prop}
  {fail : RegionError → Prop} {tag : Tag} {serial : Nat} {e : Entry}

/-! ### Beginnings -/

/-- The halves of inline tags have no anchors. -/
theorem free_halves (openable : tag.traits.opener.isSome = true)
    (inline : tag.traits.isRegion = false) :
    Free [.a] tag.openHalf ∧ Free [.a] tag.closeHalf := by
  have all : ∀ t ∈ [Tag.code, .bold, .italic, .listItem],
      Free [.a] t.openHalf ∧ Free [.a] t.closeHalf := by
    simp only [Free]
    decide
  have among : ∀ t ∈ Tag.all, t.traits.opener.isSome = true → t.traits.isRegion = false →
      t ∈ [Tag.code, .bold, .italic, .listItem] := by decide
  exact all tag (among tag tag.mem_all openable inline)

theorem spaced_opened (s : Scan) : s.spaced.opened = s.opened := by
  rw [spaced]
  split
  · split <;> rfl
  · rfl

theorem Within.isNested (within : s.Within title cut front content) : s.isNested none = true := by
  obtain ⟨host, older, tag, others, -, regions⟩ := within.newest
  simp [Scan.isNested, hostOf, regions]

/-- A region that begins inside of the heading is the newest one. -/
theorem Within.openRegion (within : s.Within title [] front content) (member : tag ∈ Tag.insets)
    (lone : tag = .link → s.openRegions = [⟨title.tag, title.serial⟩]) :
    Meets fail (OnLine title) (s.openRegion tag) := by
  have actions : ∀ t ∈ Tag.insets, t.traits.onOpen = .plain ∨ t.traits.onOpen = .block := by decide
  have nested : s.startsBlock tag = false := by
    rw [startsBlock]
    rcases actions tag member with action | action
    · rw [action]
    · simp only [action, within.isNested, Bool.not_true]
  let inner : Entry := ⟨s.nextSerial, .ofTag tag⟩
  have opens : Within title [] (inner :: front) content { s.push tag with
      opened := ⟨tag, some s.nextSerial⟩ :: s.opened
      atBlockStart := false } := { within with
    arena := congrArg (List.cons inner) within.arena
    regions := congrArg (List.cons inner.opening) within.regions
    first := by
      obtain ⟨newer, opened⟩ := within.first
      exact ⟨⟨tag, some s.nextSerial⟩ :: newer, congrArg (List.cons _) opened⟩
    insets := List.forall_mem_cons.mpr ⟨Region.inset_ofTag member, within.insets⟩
    others := by
      cases front with
      | nil => exact List.forall_mem_nil _
      | cons next front =>
          rw [List.nil_append, List.dropLast_cons_cons]
          refine List.forall_mem_cons.mpr ⟨fun link => ?_, within.others⟩
          have alone := lone link
          rw [within.regions] at alone
          simp at alone }
  rw [Scan.openRegion, nested]
  rcases actions tag member with action | action <;>
    · simp only [action]
      exact ⟨_, _, opens⟩

theorem OnLine.openInline (onLine : s.OnLine title) (takes : s.TakesText)
    (openable : tag.traits.opener.isSome = true) (inline : tag.traits.isRegion = false)
    (several : tag.isSingleLine = false) : Meets fail (OnLine title) (s.openInline tag) := by
  have actions : ∀ t ∈ Tag.all, t.traits.isRegion = false → t.isSingleLine = false →
      t.traits.onOpen = .plain := by decide
  obtain ⟨front, content, within⟩ := onLine
  have opens : OnLine title { s with opened := ⟨tag, none⟩ :: s.opened } := by
    refine ⟨front, content, { within with first := ?_ }⟩
    obtain ⟨newer, opened⟩ := within.first
    exact ⟨⟨tag, none⟩ :: newer, congrArg (List.cons _) opened⟩
  have wrote := write_eq (s := { s with opened := ⟨tag, none⟩ :: s.opened }) takes tag.openHalf
  rw [Scan.openInline, actions tag tag.mem_all inline several]
  change Meets fail _ (write tag.openHalf { s with opened := ⟨tag, none⟩ :: s.opened } >>= _)
  rw [wrote]
  exact (opens.put tag.tokenized_openHalf (free_halves openable inline).1).flags rfl rfl rfl rfl rfl
    fun _ => id

/-- A tag that may begin does, and a link only where nothing else is open inside of the heading. -/
theorem openTag_onLine (onLine : s.OnLine title) (coherent : s.Coherent calm)
    (mayBegin : s.MayBegin calm tag) (several : tag.isSingleLine = false)
    (lone : tag = .link → s.openRegions = [⟨title.tag, title.serial⟩]) :
    Meets fail (OnLine title) (s.openTag tag) := by
  have takes := coherent.sound.takesText coherent.writable
  let s₁ : Scan := { s with
    skipWhitespace := s.skipWhitespace || tag.isSingleLine
    pendingSpace := s.pendingSpace && !(tag.isSingleLine || s.startsBlock tag) }
  let s₂ : Scan := { s₁.spaced with
    exclusive := if tag.traits.isExclusive then some tag else s₁.spaced.exclusive
    afterFence := s₁.spaced.afterFence || tag.traits.isVerbatim }
  have takes₁ : s₁.TakesText := takes
  have onLine₁ : s₁.OnLine title := onLine.flags rfl rfl rfl rfl rfl fun _ => id
  have onLine₂ : s₂.OnLine title := onLine₁.spaced.flags rfl rfl rfl rfl rfl fun _ => id
  have regions₂ : s₂.openRegions = s.openRegions := openRegions_congr s₁.spaced_opened
  rw [openTag, show flushSpace _ = _ from flushSpace_eq takes₁]
  change Meets fail _ (if _ then s₂.openRegion tag else s₂.openInline tag)
  cases region : tag.traits.isRegion with
  | true =>
      have member : tag ∈ Tag.insets := by
        have all : ∀ t ∈ Tag.all, t.traits.opener.isSome = true → t.traits.isRegion = true →
            t.isSingleLine = false → t ∈ Tag.insets := by decide
        exact all tag tag.mem_all mayBegin.openable region several
      obtain ⟨front, content, within⟩ := onLine₂
      exact within.openRegion member fun link => regions₂.trans (lone link)
  | false => exact onLine₂.openInline takes₁.spaced mayBegin.openable region several

/-! ### Tags that are forgotten -/

namespace Within

theorem forget_inline (within : s.Within title cut front content) (sound : s.Sound)
    (inline : tag.traits.isRegion = false) : (s.forget tag).Within title cut front content :=
  { within with
    regions := (openRegions_forget_inline sound inline).trans within.regions
    first := by
      obtain ⟨newer, opened⟩ := within.first
      have other : title.tag ≠ tag := by
        rintro rfl
        rw [Tag.isRegion_of_isHeading title.isHeading] at inline
        cases inline
      refine ⟨newer.filter fun o => o.tag ≠ tag, ?_⟩
      rw [forget, opened, List.filter_append, List.filter_singleton]
      simp [other] }

/-- The region opened last inside of the heading waits to be folded when its tag is forgotten. -/
theorem forget_last (within : s.Within title cut (e :: front) content) (sound : s.Sound) :
    (s.forget e.tag).Within title (cut ++ [e]) front content := by
  have moved : cut ++ [e] ++ front = cut ++ e :: front := by simp
  exact { within with
    arena := by
      rw [moved]
      exact within.arena
    regions := openRegions_forget_head sound within.regions
    first := by
      obtain ⟨newer, opened⟩ := within.first
      have other := (within.ne_title List.mem_cons_self).symm
      refine ⟨newer.filter fun o => o.tag ≠ e.tag, ?_⟩
      rw [forget, opened, List.filter_append, List.filter_singleton]
      simp [other]
    insets := by
      rw [moved]
      exact within.insets
    others := by
      rw [moved]
      exact within.others }

end Within

/-! ### Ends -/

theorem closeInline_onLine (onLine : s.OnLine title) (coherent : s.Coherent calm)
    (mayEnd : s.MayEnd calm tag) (inline : tag.traits.isRegion = false) :
    Meets fail (OnLine title) (s.closeTag tag) := by
  obtain ⟨front, content, within⟩ := onLine
  obtain ⟨o, isOpened, rfl⟩ := mayEnd.active
  have takes : (s.forget o.tag).TakesText := coherent.sound.takesText coherent.writable
  have free := (free_halves (coherent.sound.openable o isOpened) inline).2
  rw [closeTag, closeTagWith, if_neg (by simp [inline]), write_eq takes]
  exact (within.forget_inline coherent.sound inline).put o.tag.tokenized_closeHalf free

/-- Inside of the heading the end of a tag other than that of an address only leaves its region. -/
theorem closeTagWith_eq (within : (s.forget tag).Within title cut front content)
    (sound : (s.forget tag).Sound) (found : s.serialOf tag = some serial)
    (among : serial ∈ cut.map Entry.serial) (member : tag ∈ Tag.insets) (other : tag ≠ .url)
    (address : Nat → Scan → Outcome) :
    s.closeTagWith address tag = (s.forget tag).leave (some serial) := by
  have all : ∀ t ∈ Tag.insets, t ≠ .url → t.traits.isRegion = true
      ∧ (t.traits.onClose = .plain ∨ t.traits.onClose = .block) := by decide
  obtain ⟨region, action⟩ := all tag member other
  have ends : (s.forget tag).endRegion address tag (some serial) = .ok (s.forget tag) := by
    rcases action with plain | block
    · simp only [endRegion, plain]
    · obtain ⟨host, older, hostTag, others, split, regions⟩ := within.newest
      have hosted := hostOf_last sound split among regions
      simp only [endRegion, block, endBlock, isNested, hosted, Option.isSome_some, Bool.or_true,
        if_true]
  rw [closeTagWith, found, if_pos region, ends]
  rfl

/-- A region that has gone with another one leaves nothing to do. -/
theorem OnLine.leave_absent (onLine : s.OnLine title) (absent : serial ∉ s.arena.map Entry.serial) :
    s.leave (some serial) = .ok s := by
  obtain ⟨front, content, within⟩ := onLine
  obtain ⟨host, older, tag, others, split, regions⟩ := within.newest
  have noHost : s.hostOf (some serial) = none := by
    have held : s.arena.holds serial = false :=
      Bool.eq_false_iff.mpr fun held => absent (Arena.holds_iff.mp held)
    simp [hostOf, held]
  have isOpen : s.isOpen host.serial = true :=
    isOpen_iff.mpr ⟨⟨tag, host.serial⟩, by simp [regions], rfl⟩
  rw [List.nil_append] at split
  simp only [leave, Option.bind_some, noHost, bind, Except.bind, split, isOpen]
  rfl

/-! ### Addresses -/

namespace Within

/-- A region that waits to be folded gets other attributes. -/
theorem describe {described : Entry} (within : s.Within title (cut ++ [e]) front content)
    (inset : described.region.Inset) (same : described.tag = e.tag) :
    Within title (cut ++ [described]) front content
      { s with arena := cut ++ described :: (front ++ title.entry content :: title.before) } :=
  { within with
    arena := by simp
    insets := by
      have insets := within.insets
      simp only [List.forall_mem_append, List.forall_mem_singleton] at insets ⊢
      exact ⟨⟨insets.1.1, inset⟩, insets.2⟩
    others := by
      have others := within.others
      rw [List.append_assoc, List.singleton_append,
        List.dropLast_append_of_ne_nil (List.cons_ne_nil _ _), List.forall_mem_append] at others ⊢
      refine ⟨others.1, ?_⟩
      cases front with
      | nil => exact List.forall_mem_nil _
      | cons next front =>
          rw [List.dropLast_cons_cons, List.forall_mem_cons, same]
          exact List.forall_mem_cons.mp others.2 }

/-- A region that begins to wait before it can be open. -/
theorem push {region : Region} (within : s.Within title cut front content) (waits : cut ≠ [])
    (inset : region.Inset) (other : region.tag ≠ .link) :
    (s.pushRegion region).Within title (⟨s.nextSerial, region⟩ :: cut) front content :=
  { within with
    arena := congrArg (List.cons _) within.arena
    insets := List.forall_mem_cons.mpr ⟨inset, within.insets⟩
    others := by
      rw [List.cons_append, List.dropLast_cons_of_ne_nil (by simp [waits])]
      exact List.forall_mem_cons.mpr ⟨other, within.others⟩ }

end Within

/-- The link or image opened last inside of the heading takes its address and waits to be folded,
an image perhaps with a caption behind. -/
theorem setAddress_within (sound : s.Sound) (within : s.Within title cut (e :: front) content)
    (target : e.tag ∈ Tag.urlTargets) (address : Text) :
    ∃ s' newer, (if e.region.tag = .link then s.setLinkAddress e.serial address
        else s.setImageAddress e address) = .ok s' ∧ s'.opened = s.opened
      ∧ (s'.forget e.tag).Sound ∧ ∃ described : Entry, described.serial = e.serial
        ∧ (s'.forget e.tag).Within title (newer ++ cut ++ [described]) front content := by
  have split : s.arena = cut ++ e :: (front ++ title.entry content :: title.before) := by
    simpa using within.arena
  have inset := within.insets e (by simp)
  have forgotten := within.forget_last sound
  split
  · rename_i link
    obtain ⟨s', takes, edit, -⟩ := setLinkAddress_meets sound split link address
    rw [setLinkAddress_eq sound split, Except.ok.injEq] at takes
    subst takes
    have tagEq : e.tag = .link := link
    rw [← tagEq] at edit
    let described : Entry := { e with region := { e.region with
      attributes := e.region.attributes.set "href".toList (some address) } }
    have insetAfter : described.region.Inset := inset.describe "href".toList (by decide) address
    exact ⟨_, [], setLinkAddress_eq sound split address, rfl, edit.sound (sound.forget _), described,
      rfl, forgotten.describe insetAfter rfl⟩
  · rename_i notLink
    have image : e.tag ∈ Tag.images := (List.mem_cons.mp target).resolve_left notLink
    have isOpen : (⟨e.tag, e.serial⟩ : OpenRegion) ∈ s.openRegions := by
      rw [within.regions]
      exact List.mem_append_left _ List.mem_cons_self
    let described : Entry := { e with region := { e.region with
      attributes := imageAttributes e.region address } }
    have insetAfter : described.region.Inset :=
      (inset.describe "src".toList (by decide) address).describe "alt".toList (by decide)
        (stripTags e.region.inner).trim
    have waits := forgotten.describe insetAfter rfl
    obtain ⟨s', takes, edit, -⟩ := setImageAddress_meets sound split image isOpen address
    have sound' := edit.sound (sound.forget _)
    rw [setImageAddress_eq sound split, Except.ok.injEq] at takes
    subst takes
    refine ⟨_, if e.region.tag != .embedSmall && !(stripTags e.region.inner).trim.isEmpty then
      [⟨s.nextSerial, (Region.ofTag .caption).extend e.region.inner⟩] else [],
      setImageAddress_eq sound split address, ?_, sound', described, rfl, ?_⟩
    · split <;> rfl
    · split
      · have caption : ((Region.ofTag .caption).extend e.region.inner).Inset :=
          (Region.inset_ofTag (by decide)).extend inset.inner inset.free
        have other : ((Region.ofTag .caption).extend e.region.inner).tag ≠ .link :=
          show Tag.caption ≠ .link by decide
        exact waits.push (by simp) caption other
      · exact waits

/-- Where no tag is exclusive, the open regions inside of the heading are links and images. -/
theorem Within.targets (within : s.Within title cut front content) (sound : s.Sound)
    (shared : ∀ o ∈ s.openRegions, o.tag.traits.isExclusive = false) :
    ∀ e ∈ front, e.tag ∈ Tag.urlTargets := by
  intro e member
  have isOpen : e.opening ∈ s.openRegions := by
    rw [within.regions]
    exact List.mem_append_left _ (List.mem_map_of_mem member)
  have all : ∀ t ∈ Tag.insets, t.isHeading = false := by decide
  rcases sound.open_cases isOpen with exclusive | heading | target
  · rw [shared _ isOpen] at exclusive
    cases exclusive
  · have other := all _ (within.tag_of_front member)
    rw [show e.tag.isHeading = true from heading] at other
    cases other
  · exact target

/-- An address goes to the link or image opened last inside of the heading, if there is one. -/
theorem Within.addressTarget?_eq {url : Entry} (within : s.Within title [url] front content)
    (sound : s.Sound) (isUrl : url.tag = .url) (targets : ∀ e ∈ front, e.tag ∈ Tag.urlTargets) :
    s.addressTarget? = front.head? := by
  have arena := within.arena
  have passed : url.region.tag ∉ Tag.urlTargets := by
    rw [show url.region.tag = .url from isUrl]
    decide
  cases front with
  | nil =>
      cases found : s.addressTarget? with
      | none => rfl
      | some target =>
          -- only the heading is open, and it takes no address
          obtain ⟨isTarget, isOpen, -⟩ := addressTarget_some sound found
          rw [within.regions, List.map_nil, List.nil_append, List.mem_singleton] at isOpen
          have tagEq : target.tag = title.tag := congrArg OpenRegion.tag isOpen
          have among : title.tag ∈ Tag.insets := by
            have all : ∀ t ∈ Tag.urlTargets, t ∈ Tag.insets := by decide
            exact all _ (tagEq ▸ isTarget)
          exact absurd among title.not_inset
  | cons e front =>
      have target : e.region.tag ∈ Tag.urlTargets := targets e List.mem_cons_self
      have isOpen : s.isOpen e.serial = true :=
        isOpen_iff.mpr ⟨e.opening, by simp [within.regions], rfl⟩
      rw [addressTarget?, arena]
      simp [passed, target, isOpen]

/-- The end of an address inside of the heading ends the link or image around it as well. -/
theorem closeUrl_onLine {url : Entry} (within : s.Within title [] (url :: front) content)
    (coherent : s.Coherent calm) (isUrl : url.tag = .url) :
    Meets fail (OnLine title) (s.closeTag .url) := by
  have sound := coherent.sound
  have isOpen : url.opening ∈ s.openRegions := by simp [within.regions]
  have own : s.exclusive = some .url := by
    have exclusive := coherent.control.only _ (mem_openRegions.mp isOpen) (by
      rw [show url.opening.tag = .url from isUrl]
      rfl)
    rw [exclusive, show url.opening.tag = .url from isUrl]
  have found : s.serialOf .url = some url.serial := isUrl ▸ serialOf_of_open sound isOpen
  have forgotten : (s.forget .url).Within title [url] front content :=
    isUrl ▸ within.forget_last sound
  have sound₁ := sound.forget .url
  have targets := forgotten.targets sound₁ (shared_of_url coherent own)
  have target := forgotten.addressTarget?_eq sound₁ isUrl targets
  have among : url.serial ∈ ([url] : Arena).map Entry.serial := by simp
  rw [closeTag, closeTagWith, found]
  change Meets fail _ (captureAddress url.serial (s.forget .url)
    >>= fun s => s.leave (some url.serial))
  cases front with
  | nil =>
      obtain ⟨s₂, left, onLine, -⟩ := forgotten.leave sound₁ among
      have captures : (s.forget .url).captureAddress url.serial = .ok (s.forget .url) := by
        rw [captureAddress, target]
        rfl
      rw [captures]
      change Meets fail _ ((s.forget .url).leave (some url.serial))
      rw [left]
      exact onLine
  | cons e front =>
      have isTarget := targets e List.mem_cons_self
      have openToo : e.opening ∈ (s.forget .url).openRegions := by simp [forgotten.regions]
      have foundToo : (s.forget .url).serialOf e.tag = some e.serial :=
        serialOf_of_open sound₁ openToo
      have insets : ∀ t ∈ Tag.urlTargets, t ∈ Tag.insets ∧ t ≠ .url := by decide
      obtain ⟨s₂, newer, takes, opened, sound₂, described, serialEq, ended⟩ :=
        setAddress_within sound₁ forgotten isTarget
          ((((s.forget .url).regionOf url.serial).map Region.inner).getD []).trim
      have foundAfter : s₂.serialOf e.tag = some e.serial := by
        rw [serialOf, opened]
        exact foundToo
      have amongAfter : e.serial ∈ (newer ++ [url] ++ [described]).map Entry.serial := by
        simp [serialEq]
      obtain ⟨s₃, left, onLine, serials⟩ := ended.leave sound₂ amongAfter
      -- the region of the address has gone with the one it belongs to
      have absent : url.serial ∉ s₃.arena.map Entry.serial := by
        have distinct := sound₂.arena_distinct
        rw [ended.arena, List.append_assoc, List.map_append, List.nodup_append] at distinct
        rw [serials]
        exact fun member => distinct.2.2 url.serial (by simp) url.serial member rfl
      have closes : closeTagWith (fun _ s => .ok s) e.region.tag s₂ = .ok s₃ :=
        (closeTagWith_eq ended sound₂ foundAfter amongAfter (insets _ isTarget).1
          (insets _ isTarget).2 _).trans left
      have captures : (s.forget .url).captureAddress url.serial = .ok s₃ := by
        rw [captureAddress, target]
        simp only [List.head?_cons]
        by_cases link : e.region.tag = .link
        · rw [if_pos link] at takes ⊢
          rw [takes]
          exact closes
        · rw [if_neg link] at takes ⊢
          rw [takes]
          exact closes
      rw [captures]
      change Meets fail _ (s₃.leave (some url.serial))
      rw [onLine.leave_absent absent]
      exact onLine

/-- A tag that may end inside of the heading does. -/
theorem closeTag_onLine (onLine : s.OnLine title) (coherent : s.Coherent calm)
    (mayEnd : s.MayEnd calm tag) (inside : tag ≠ title.tag)
    (last : tag.traits.isRegion = true → ∃ serial others, s.openRegions = ⟨tag, serial⟩ :: others) :
    Meets fail (OnLine title) (s.closeTag tag) := by
  cases region : tag.traits.isRegion with
  | false => exact closeInline_onLine onLine coherent mayEnd region
  | true =>
      have sound := coherent.sound
      obtain ⟨front, content, within⟩ := onLine
      obtain ⟨serial, others, regions⟩ := last region
      rw [within.regions] at regions
      cases front with
      | nil =>
          rw [List.map_nil, List.nil_append, List.cons.injEq, OpenRegion.mk.injEq] at regions
          exact absurd regions.1.1.symm inside
      | cons e front =>
          rw [List.map_cons, List.cons_append, List.cons.injEq, Entry.opening,
            OpenRegion.mk.injEq] at regions
          obtain ⟨⟨rfl, -⟩, -⟩ := regions
          by_cases url : e.tag = .url
          · rw [url]
            exact closeUrl_onLine within coherent url
          · have isOpen : e.opening ∈ s.openRegions := by simp [within.regions]
            have among : e.serial ∈ ([e] : Arena).map Entry.serial := by simp
            have found : s.serialOf e.tag = some e.serial := serialOf_of_open sound isOpen
            have forgotten : (s.forget e.tag).Within title [e] front content :=
              within.forget_last sound
            obtain ⟨s₂, left, onLine, -⟩ := forgotten.leave (sound.forget _) among
            rw [closeTag, closeTagWith_eq forgotten (sound.forget _) found among
              (within.tag_of_front List.mem_cons_self) url, left]
            exact onLine

end MarkPress.Scan
