/-
Module: MarkPress.Tag
Purpose: The tags of the markup: how each begins and ends in a text, what it becomes in the
  output, and what opening and closing it does besides.
  A tag either stands in the output as a region of its own, or is inline and writes two halves of
  an element into whatever region is current. `Tag.all` is the order in which beginnings are tried:
  a delimiter that another one extends comes after that other one.
Main exports:
  Tag, Tag.all, Tag.name, Tag.ofName?, TagTraits, Tag.traits, Tag.images, Tag.urlTargets,
  Tag.isSingleLine, Tag.isShown, Tag.isPrunable, Tag.write
-/
import MarkPress.Html.Markup

namespace MarkPress

open Html

/-- The tags, in the order in which their beginnings are tried. -/
inductive Tag where
  | codeBlock
  | code
  | heading3
  | heading2
  | heading1
  | embedPixel
  | embedSmall
  | embed
  | url
  | link
  | bold
  | italic
  | listItem
  | text
  | paragraphBegin
  | paragraphEnd
  | sectionBegin
  | sectionEnd
  | caption
  | rule
  | list
  | anchor
deriving Repr, Inhabited, DecidableEq

/-- When a region appears in the output. -/
inductive Policy where
  /-- Whatever it holds. -/
  | always
  /-- Not at all. -/
  | never
  /-- If it holds something. -/
  | unlessEmpty
  /-- Unless it is half of a pair with nothing between. -/
  | unlessEmptyPair
deriving Repr, Inhabited, DecidableEq

/-- What opening a tag does besides. -/
inductive OpenAction where
  | plain
  /-- Leave the paragraph and begin the anchor of the heading. -/
  | heading
  /-- Leave the paragraph, unless nested. -/
  | block
  /-- Bring the list to the level that the indentation asks for. -/
  | item
deriving Repr, Inhabited, DecidableEq

/-- What closing a tag does besides. -/
inductive CloseAction where
  | plain
  /-- End the anchor of the heading and begin a new section. -/
  | heading
  /-- Begin a new paragraph, unless nested. -/
  | block
  /-- Give the captured address to the link or image it belongs to, and close that too. -/
  | address
deriving Repr, Inhabited, DecidableEq

/-- Everything that is fixed about a tag. -/
structure TagTraits where
  /-- The delimiter that begins the tag; a tag without one is never found in a text. -/
  opener : Option Text := none
  /-- The delimiter that ends the tag; a tag that has only an opener ends with its line. -/
  closer : Option Text := none
  /-- Whether the tag stands in the output as a region of its own. -/
  isRegion : Bool := false
  /-- Whether no other delimiter counts while the tag is open. -/
  isExclusive : Bool := false
  /-- Whether white space and line breaks inside are content. -/
  isVerbatim : Bool := false
  policy : Policy := .always
  shape : Shape := .whole
  element : Option Element := none
  /-- The attributes that every occurrence begins with. -/
  attributes : Attributes := Dictionary.empty
  /-- Tags of which one has to be open for this one to begin. -/
  within : Option (List Tag) := none
  onOpen : OpenAction := .plain
  onClose : CloseAction := .plain
deriving Repr, Inhabited, DecidableEq

namespace Tag

/-- Every tag once, in the order in which beginnings are tried. -/
def all : List Tag :=
  [.codeBlock, .code, .heading3, .heading2, .heading1, .embedPixel, .embedSmall, .embed, .url,
    .link, .bold, .italic, .listItem, .text, .paragraphBegin, .paragraphEnd, .sectionBegin,
    .sectionEnd, .caption, .rule, .list, .anchor]

theorem mem_all (tag : Tag) : tag ∈ all := by cases tag <;> decide

/-- The name of a tag. -/
def name : Tag → Text
  | .codeBlock => "codeBlock".toList
  | .code => "code".toList
  | .heading3 => "heading3".toList
  | .heading2 => "heading2".toList
  | .heading1 => "heading1".toList
  | .embedPixel => "embedPixel".toList
  | .embedSmall => "embedSmall".toList
  | .embed => "embed".toList
  | .url => "url".toList
  | .link => "link".toList
  | .bold => "bold".toList
  | .italic => "italic".toList
  | .listItem => "listItem".toList
  | .text => "text".toList
  | .paragraphBegin => "paragraphBegin".toList
  | .paragraphEnd => "paragraphEnd".toList
  | .sectionBegin => "sectionBegin".toList
  | .sectionEnd => "sectionEnd".toList
  | .caption => "caption".toList
  | .rule => "rule".toList
  | .list => "list".toList
  | .anchor => "anchor".toList

/-- The tag of a name. -/
def ofName? (name : Text) : Option Tag := all.find? fun tag => tag.name = name

theorem ofName?_name (tag : Tag) : ofName? tag.name = some tag := by cases tag <;> decide

/-- The tags whose content is the caption of an image. -/
def images : List Tag := [.embedPixel, .embedSmall, .embed]

/-- The tags that an address can belong to. -/
def urlTargets : List Tag := .link :: images

/-- Attributes of an image, without the address and the caption that its end will give. -/
def imageAttributes (cssClass : Text) : Attributes :=
  Dictionary.ofList
    [("class".toList, some cssClass), ("src".toList, none), ("alt".toList, none)]

/-- The traits of a heading. -/
def headingTraits (opener : Text) (element : Element) : TagTraits :=
  { opener := some opener, isRegion := true, element := some element,
    onOpen := .heading, onClose := .heading }

/-- What is fixed about each tag. -/
def traits : Tag → TagTraits
  | .codeBlock =>
      { opener := some "\x60\x60\x60".toList, closer := some "\x60\x60\x60".toList,
        isRegion := true, isExclusive := true, isVerbatim := true, policy := .unlessEmpty,
        element := some .pre,
        attributes := Dictionary.ofList [("class".toList, some "code".toList)],
        onOpen := .block, onClose := .block }
  | .code =>
      { opener := some ['\x60'], closer := some ['\x60'], isExclusive := true,
        element := some .code }
  | .heading3 => headingTraits "###".toList .h3
  | .heading2 => headingTraits "##".toList .h2
  | .heading1 => headingTraits "#".toList .h1
  | .embedPixel =>
      { opener := some "!pixel[".toList, closer := some "]".toList, isRegion := true,
        shape := .void, element := some .img,
        attributes := imageAttributes "embed-pixel".toList, onOpen := .block, onClose := .block }
  | .embedSmall =>
      { opener := some "!small[".toList, closer := some "]".toList, isRegion := true,
        shape := .void, element := some .img,
        attributes := imageAttributes "embed-small".toList }
  | .embed =>
      { opener := some "![".toList, closer := some "]".toList, isRegion := true, shape := .void,
        element := some .img, attributes := imageAttributes "embed".toList,
        onOpen := .block, onClose := .block }
  | .url =>
      { opener := some "](".toList, closer := some ")".toList, isRegion := true,
        isExclusive := true, policy := .never, within := some urlTargets, onClose := .address }
  | .link =>
      { opener := some "[".toList, closer := some "]".toList, isRegion := true,
        element := some .a,
        attributes :=
          Dictionary.ofList [("class".toList, some "link".toList), ("href".toList, none)] }
  | .bold => { opener := some "*".toList, closer := some "*".toList, element := some .strong }
  | .italic => { opener := some "/".toList, closer := some "/".toList, element := some .em }
  | .listItem => { opener := some "-".toList, element := some .li, onOpen := .item }
  | .text => { isRegion := true, policy := .unlessEmpty }
  | .paragraphBegin =>
      { isRegion := true, policy := .unlessEmptyPair, shape := .opening, element := some .p }
  | .paragraphEnd =>
      { isRegion := true, policy := .unlessEmptyPair, shape := .closing, element := some .p }
  | .sectionBegin => { isRegion := true, shape := .opening, element := some .sect }
  | .sectionEnd => { isRegion := true, shape := .closing, element := some .sect }
  | .caption =>
      { isRegion := true, policy := .unlessEmpty, element := some .span,
        attributes := Dictionary.ofList [("class".toList, some "caption".toList)] }
  | .rule => { isRegion := true, shape := .void, element := some .hr }
  | .list => { element := some .ul }
  | .anchor =>
      { element := some .a,
        attributes := Dictionary.ofList [("href".toList, none), ("id".toList, none)] }

/-- A tag that begins with a delimiter and ends with its line. -/
def isSingleLine (tag : Tag) : Bool := tag.traits.opener.isSome && tag.traits.closer.isNone

/-- Whether the tag is a heading. -/
def isHeading (tag : Tag) : Bool := tag.traits.onClose = .heading

/-- Whether a region of this tag appears in the output, given whether it is empty. -/
def isShown (tag : Tag) (empty : Bool) : Bool :=
  match tag.traits.policy with
  | .never => false
  | .unlessEmpty => !empty
  | .always | .unlessEmptyPair => true

/-- Whether a region of this tag may be left out as half of an empty pair. -/
def isPrunable (tag : Tag) (empty : Bool) : Bool :=
  match tag.traits.policy with
  | .unlessEmpty | .unlessEmptyPair => empty
  | .always | .never => false

/-- Write the element of a tag. -/
def write (tag : Tag) (content : Text) (attributes : Attributes) (shape : Shape) : Text :=
  Html.write tag.traits.element attributes content shape

/-- The half of an element that an inline tag writes where it opens. -/
def openHalf (tag : Tag) : Text := tag.write [] tag.traits.attributes .opening

/-- The half of an element that an inline tag writes where it closes. -/
def closeHalf (tag : Tag) : Text := tag.write [] tag.traits.attributes .closing

end Tag

end MarkPress
