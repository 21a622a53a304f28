/-
Module: MarkPress.Proofs.Scan.Edit
Purpose: What a scan can do to its content.
  `Edit` lists the single changes, each with the conditions under which a scan makes it. Whatever
  every edit keeps is kept by every step, however the steps put their edits together; the first such
  property is that regions and open tags fit together.
Main exports:
  Scan.Edit, Scan.Edits, Scan.Edit.sound, Scan.Edits.sound
-/
import Mathlib.Logic.Relation
import MarkPress.Proofs.Html.Balance
import MarkPress.Proofs.Scan.Sound

namespace MarkPress.Scan

open Html

/-- One change to the content of a scan. -/
inductive Edit : Scan → Scan → Prop where
  /-- A change to anything but the content. -/
  | control {s s' : Scan} (same : s'.content = s.content) : Edit s s'
  | push (s : Scan) (tag : Tag) (plain : tag.traits.element ≠ some .p) : Edit s (s.push tag)
  | endParagraph (s : Scan) : Edit s s.endParagraph
  | beginParagraph (s : Scan) (closed : s.paragraphOpen = false) :
      Edit s { s.push .paragraphBegin with paragraphOpen := true }
  /-- Text is written into a region, the newest one or a host. -/
  | write (s : Scan) {newer older : Arena} {entry : Entry}
      (split : s.arena = newer ++ entry :: older)
      (uncaptioned : entry.region.isCaptioned = false) {text : Text} (inline : Inline text) :
      Edit s { s with
        arena := newer ++ { entry with region := entry.region.extend text } :: older
        written := text :: s.written }
  /-- A region gets attributes that do not give it a caption. -/
  | describe (s : Scan) {newer older : Arena} {entry : Entry}
      (split : s.arena = newer ++ entry :: older)
      (uncaptioned : entry.region.isCaptioned = false) {attributes : Attributes}
      (known : entry.region.attributes.Known → attributes.Known)
      (still : ({ entry.region with attributes := attributes } : Region).isCaptioned = false) :
      Edit s { s with
        arena := newer ++
          { entry with region := { entry.region with attributes := attributes } } :: older }
  /-- An image that has ended gets attributes and a caption that shows its content. -/
  | caption (s : Scan) {newer older : Arena} {entry : Entry}
      (split : s.arena = newer ++ entry :: older) (ended : s.isOpen entry.serial = false)
      (uncaptioned : entry.region.isCaptioned = false) {attributes : Attributes}
      (known : entry.region.attributes.Known → attributes.Known)
      (captioned : ({ entry.region with attributes := attributes } : Region).isCaptioned = true) :
      Edit s (pushRegion ((Region.ofTag .caption).extend entry.region.inner) { s with
        arena := newer ++
          { entry with region := { entry.region with attributes := attributes } } :: older })
  | fold (s : Scan) {nested older : Arena} {host : Entry}
      (split : s.arena = nested ++ host :: older)
      (uncaptioned : host.region.isCaptioned = false) : Edit s (s.folded nested host older)
  | openRegion (s : Scan) {tag : Tag} (closed : s.isActive tag = false)
      (openable : tag.traits.opener.isSome = true) (region : tag.traits.isRegion = true) :
      Edit s { s.push tag with opened := ⟨tag, some s.nextSerial⟩ :: s.opened }
  | openInline (s : Scan) {tag : Tag} (closed : s.isActive tag = false)
      (openable : tag.traits.opener.isSome = true) (inline : tag.traits.isRegion = false) :
      Edit s { s with opened := ⟨tag, none⟩ :: s.opened }
  | forget (s : Scan) (tag : Tag) : Edit s (s.forget tag)

/-- Any number of changes to the content of a scan. -/
def Edits : Scan → Scan → Prop := Relation.ReflTransGen Edit

variable {s s' s'' : Scan}

theorem Edit.sound (edit : Edit s s') (sound : s.Sound) : s'.Sound := by
  cases edit with
  | control same => exact sound.congr same
  | push tag => exact sound.push (Region.ofTag_isSealed tag)
  | endParagraph =>
      have pushed : (s.push .paragraphEnd).Sound := sound.push (Region.ofTag_isSealed _)
      exact { pushed with }
  | beginParagraph =>
      have pushed : (s.push .paragraphBegin).Sound := sound.push (Region.ofTag_isSealed _)
      exact { pushed with }
  | @write newer older entry split uncaptioned text =>
      have unsealed : entry.region.isSealed = false := sound.unsealed entry (by simp [split])
      have written : Sound { s with
          arena := newer ++ { entry with region := entry.region.extend text } :: older } :=
        sound.replace split rfl unsealed fun _ => uncaptioned
      exact { written with }
  | @describe newer older entry split uncaptioned attributes known still =>
      have unsealed : entry.region.isSealed = false := sound.unsealed entry (by simp [split])
      exact sound.replace split rfl unsealed fun _ => still
  | @caption newer older entry split ended uncaptioned attributes known captioned =>
      have unsealed : entry.region.isSealed = false := sound.unsealed entry (by simp [split])
      have described : Sound { s with
          arena := newer ++
            { entry with region := { entry.region with attributes := attributes } } :: older } :=
        sound.replace split rfl unsealed fun isOpen => absurd isOpen (by simp [ended])
      exact described.push rfl
  | fold split uncaptioned => exact sound.folded split uncaptioned
  | openRegion closed openable region => exact sound.openRegion closed openable region
  | openInline closed openable inline => exact sound.openInline closed openable inline
  | forget tag => exact sound.forget tag

theorem Edit.finished (edit : Edit s s') : s'.finished = s.finished := by
  cases edit with
  | control same =>
      simp only [content, Prod.mk.injEq] at same
      exact same.2.2.2.2.2.2.2.2
  | _ => rfl

namespace Edits

theorem refl (s : Scan) : Edits s s := Relation.ReflTransGen.refl

theorem single (edit : Edit s s') : Edits s s' := Relation.ReflTransGen.single edit

theorem trans (first : Edits s s') (later : Edits s' s'') : Edits s s'' :=
  Relation.ReflTransGen.trans first later

/-- What every edit keeps, any number of edits keep. -/
theorem keeps {property : Scan → Prop}
    (each : ∀ a b, Edit a b → a.Sound → property a → property b) (edits : Edits s s')
    (sound : s.Sound) (holds : property s) : s'.Sound ∧ property s' := by
  induction edits with
  | refl => exact ⟨sound, holds⟩
  | tail _ edit ih => exact ⟨edit.sound ih.1, each _ _ edit ih.1 ih.2⟩

theorem sound (edits : Edits s s') (sound : s.Sound) : s'.Sound := by
  have kept : s'.Sound ∧ True := edits.keeps (fun _ _ _ _ _ => trivial) sound trivial
  exact kept.1

theorem finished (edits : Edits s s') : s'.finished = s.finished := by
  induction edits with
  | refl => rfl
  | tail _ edit ih => exact edit.finished.trans ih

end Edits

end MarkPress.Scan
