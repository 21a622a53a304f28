/-
Module: MarkPress.Region
Purpose: A region is a stretch of output in the making: a tag, the text collected for it and the
  attributes of its element. Rendering a region seals it, and a sealed region takes no more
  changes, so what has been rendered stays true.
Main exports:
  Region, Region.ofTag, Region.inner, Region.append, Region.prepend, Region.setAttribute,
  Region.markSealed, Region.render, Region.isCaptioned, Region.leftOut, RegionError,
  RegionError.message
-/
import MarkPress.Tag

namespace MarkPress

open Html

/-- A piece of the output with its tag. -/
structure Region where
  tag : Tag
  /-- The characters collected between the tags of the element, the latest first. -/
  collected : Text := []
  attributes : Attributes
  /-- Whether the region has been rendered. -/
  isSealed : Bool := false
deriving Repr, Inhabited, DecidableEq

/-- Why a region can not be reached or changed. -/
inductive RegionError where
  /-- A change to a region that has been rendered. -/
  | sealed (tag : Tag)
  /-- There is no region at this position. -/
  | outOfRange (index : Text)
  /-- There is no tag of this name. -/
  | unknownTag (name : Text)
  /-- An action that works on a region came without one. -/
  | missingRegion (action : Text)
deriving Repr, Inhabited, DecidableEq

/-- The text that reports an error. -/
def RegionError.message : RegionError → Text
  | .sealed tag => "region ".toList ++ tag.name ++ " is already rendered".toList
  | .outOfRange index => "region index out of range: ".toList ++ index
  | .unknownTag name => "unknown tag: ".toList ++ name
  | .missingRegion action => "hook ".toList ++ action ++ " needs a region".toList

/-- The tag of a name, or the error that there is none. -/
def Tag.named (name : Text) : Except RegionError Tag :=
  match Tag.ofName? name with
  | some tag => .ok tag
  | none => .error (.unknownTag name)

namespace Region

/-- A new region of a tag, with the attributes its tag begins with. -/
def ofTag (tag : Tag) : Region := { tag := tag, attributes := tag.traits.attributes }

/-- The text between the tags of the element. -/
def inner (region : Region) : Text := region.collected.reverse

/-- Whether nothing has been collected. -/
def isEmpty (region : Region) : Bool := region.collected.isEmpty

/-- The region with more text at its end. -/
def extend (text : Text) (region : Region) : Region :=
  { region with collected := text.reverse ++ region.collected }

/-- Change a region that is not sealed. -/
def change (region : Region) (f : Region → Region) : Except RegionError Region :=
  if region.isSealed then .error (.sealed region.tag) else .ok (f region)

/-- Add text at the end. -/
def append (region : Region) (text : Text) : Except RegionError Region :=
  region.change (extend text)

/-- Add text at the beginning. -/
def prepend (region : Region) (text : Text) : Except RegionError Region :=
  region.change fun r => { r with collected := r.collected ++ text.reverse }

/-- Give an attribute a value, or take its value away. The reserved name stays without one. -/
def setAttribute (region : Region) (name : Text) (value : Option Text) :
    Except RegionError Region :=
  region.change fun r =>
    if name = Dictionary.reservedKey then r
    else { r with attributes := r.attributes.set name value }

/-- Take no more changes. -/
def markSealed (region : Region) : Region := { region with isSealed := true }

/-- The text of a region in the output. -/
def render (region : Region) : Text :=
  region.tag.write region.inner region.attributes region.tag.traits.shape

/-- Whether the region appears in the output. -/
def isShown (region : Region) : Bool := region.tag.isShown region.isEmpty

/-- Whether the region may be left out as half of an empty pair. -/
def isPrunable (region : Region) : Bool := region.tag.isPrunable region.isEmpty

/-- Whether a caption behind the region shows its content: it is an image, not a small one, and its
alternative text is known and not empty. -/
def isCaptioned (region : Region) : Bool :=
  region.tag ∈ Tag.images && region.tag != .embedSmall
    && ((region.attributes.get? "alt".toList).join.getD []) != []

/-- The content of a region that neither its own text in the output nor a caption shows. -/
def leftOut (region : Region) : Text :=
  if (region.isShown && region.tag.traits.shape != .void) || region.isCaptioned then []
  else region.inner

/-! ### The text of a region -/

theorem isEmpty_eq (region : Region) : region.isEmpty = region.inner.isEmpty := by
  simp [isEmpty, inner]

@[simp] theorem inner_extend (text : Text) (region : Region) :
    (region.extend text).inner = region.inner ++ text := by
  simp [extend, inner]

/-- Appended text stands behind what was there. -/
theorem inner_of_append {region after : Region} {text : Text}
    (h : region.append text = .ok after) : after.inner = region.inner ++ text := by
  simp only [append, change] at h
  split at h
  · simp at h
  · cases h
    simp

/-- Prepended text stands before what was there. -/
theorem inner_of_prepend {region after : Region} {text : Text}
    (h : region.prepend text = .ok after) : after.inner = text ++ region.inner := by
  simp only [prepend, change] at h
  split at h
  · simp at h
  · cases h
    simp [inner]

/-! ### Sealing and rendering -/

@[simp] theorem ofTag_tag (tag : Tag) : (ofTag tag).tag = tag := rfl

@[simp] theorem ofTag_inner (tag : Tag) : (ofTag tag).inner = [] := rfl

@[simp] theorem ofTag_isSealed (tag : Tag) : (ofTag tag).isSealed = false := rfl

/-- Sealing does not change what is rendered. -/
@[simp] theorem render_markSealed (region : Region) :
    region.markSealed.render = region.render :=
  rfl

@[simp] theorem isShown_markSealed (region : Region) :
    region.markSealed.isShown = region.isShown :=
  rfl

@[simp] theorem isPrunable_markSealed (region : Region) :
    region.markSealed.isPrunable = region.isPrunable :=
  rfl

theorem change_of_sealed {region : Region} (h : region.isSealed = true) (f : Region → Region) :
    region.change f = .error (.sealed region.tag) := by
  simp [change, h]

theorem change_of_open {region : Region} (h : region.isSealed = false) (f : Region → Region) :
    region.change f = .ok (f region) := by
  simp [change, h]

/-- A region refuses a change exactly if it is sealed. -/
theorem append_eq_error_iff {region : Region} {text : Text} {error : RegionError} :
    region.append text = .error error ↔ region.isSealed = true ∧ error = .sealed region.tag := by
  cases h : region.isSealed with
  | false => simp [append, change, h]
  | true => simp [append, change, h, eq_comm]

end Region

end MarkPress
