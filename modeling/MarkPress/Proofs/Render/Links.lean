/-
Module: MarkPress.Proofs.Render.Links
Purpose: The output of links and images.
  A link stands in a paragraph, and an image between two of them. The address and the alternative
  text become attributes, trimmed and escaped. An image with an alternative text has its caption
  behind it, with all its brackets.
Main exports:
  Html.attributeValue, captionHtml, render_link, render_image
-/
import MarkPress.Proofs.Scan.Links
import MarkPress.Proofs.Text.Trim

namespace MarkPress

open Html Scan

/-! ### Attributes -/

namespace Html

/-- A text as the value of an attribute: trimmed, without angle brackets and double quotes. -/
def attributeValue (text : Text) : Text := (escapeText text).trim.replace '"' "&quot;".toList

theorem escapeAttribute_trim (text : Text) :
    escapeAttribute (escapeText text).trim = attributeValue text := by
  have plain : ∀ c ∈ (escapeText text).trim, c ≠ '<' ∧ c ≠ '>' := fun c member =>
    plain_escapeText c (Text.mem_of_mem_trim member)
  rw [escapeAttribute, escapeText_eq_self plain, attributeValue]

theorem attributeValue_eq_nil {text : Text} :
    attributeValue text = [] ↔ (escapeText text).trim = [] :=
  replace_eq_nil (by decide)

end Html

/-- The caption behind an image, if there is anything to show. -/
def captionHtml (caption : Text) : Text :=
  if attributeValue caption = [] then []
  else "<span class=\"caption\">".toList ++ escapeText caption ++ "</span>".toList

namespace Scan

variable {text address html : Text} {written written' : List Text}

/-! ### The end of an address -/

/-- A link with its address. -/
def linked (html address : Text) : Region :=
  { (Region.ofTag .link).extend html with
    attributes := Tag.link.traits.attributes.set "href".toList (some address) }

theorem render_linked (text address : Text) :
    (linked (escapeText text) (escapeText address).trim).render
      = "<a class=\"link\" href=\"".toList ++ attributeValue address ++ "\">".toList
        ++ escapeText text ++ "</a>".toList := by
  have entries : (Tag.link.traits.attributes.set "href".toList
      (some (escapeText address).trim)).entries = [("class".toList, some "link".toList),
        ("href".toList, some (escapeText address).trim)] := rfl
  have opens : Element.openTag .a (Tag.link.traits.attributes.set "href".toList
        (some (escapeText address).trim))
      = "<a class=\"link\"".toList ++ attributeText "href".toList (escapeText address).trim
        ++ ['>'] := by
    rw [Element.openTag, Attributes.toText, entries, List.flatMap_cons, List.flatMap_cons,
      List.flatMap_nil, List.append_nil]
    rfl
  have inner : (linked (escapeText text) (escapeText address).trim).inner = escapeText text :=
    Region.inner_extend_ofTag .link (escapeText text)
  rw [Region.render, inner]
  change Element.openTag .a (Tag.link.traits.attributes.set "href".toList
    (some (escapeText address).trim)) ++ escapeText text ++ Element.closeTag .a = _
  rw [opens, attributeText, escapeAttribute_trim]
  simp only [List.append_assoc]
  rfl

/-- The end of an address ends the link. -/
theorem output_linkEnd :
    output [] (inAddress (inLink (escapeText text) written []) (escapeText address) written'
      [')']).complete
      = .ok ("<section><p>".toList ++ ("<a class=\"link\" href=\"".toList ++ attributeValue address
        ++ "\">".toList ++ escapeText text ++ "</a>".toList) ++ "</p></section>".toList) := by
  let s : Scan := { inLink (escapeText text) written' [] with
    arena := ⟨5, .ofTag .text⟩ :: ⟨4, (Region.ofTag .url).extend (escapeText address)⟩
      :: ⟨3, linked (escapeText text) ((Region.ofTag .url).extend (escapeText address)).inner.trim⟩
      :: (startAt [] []).arena
    nextSerial := 6, opened := [] }
  have ready := inAddress_ready (inLink_ready (escapeText text) written []) (escapeText address)
    written' [')']
  have step : (inAddress (inLink (escapeText text) written []) (escapeText address) written'
      [')']).step = .ok s := rfl
  have captured := Region.inner_extend_ofTag .url (escapeText address)
  have regions : s.regions ++ [Region.ofTag .paragraphEnd, .ofTag .sectionEnd]
      = .ofTag .sectionBegin :: .ofTag .paragraphBegin :: .ofTag .text
        :: linked (escapeText text) ((Region.ofTag .url).extend (escapeText address)).inner.trim
        :: (Region.ofTag .url).extend (escapeText address) :: .ofTag .text
        :: .ofTag .paragraphEnd :: [.ofTag .sectionEnd] := rfl
  have shown : Export.htmlIn [] (s.regions ++ [Region.ofTag .paragraphEnd, .ofTag .sectionEnd])
      = Export.htmlIn [] (.ofTag .sectionBegin :: .ofTag .paragraphBegin
        :: linked (escapeText text) (escapeText address).trim
        :: .ofTag .paragraphEnd :: [.ofTag .sectionEnd]) := by
    rw [regions, captured]
    exact Export.htmlIn_congr rfl
  rw [complete_step ready.grounded (List.cons_ne_nil _ _), step]
  change output [] s.finish = _
  rw [output_finish_outside rfl rfl, shown, Export.htmlIn_sectionBegin,
    Export.htmlIn_paragraphBegin rfl rfl, Export.htmlIn_whole rfl (.inl rfl), render_linked,
    Export.htmlIn_paragraphEnd, Export.htmlIn_sectionEnd]
  simp only [List.append_assoc]
  rfl

/-- An image with its address and its alternative text. -/
def described (html address : Text) : Region :=
  { (Region.ofTag .embed).extend html with
    attributes := imageAttributes ((Region.ofTag .embed).extend html) address }

theorem render_described (caption address : Text) :
    (described (escapeText caption) (escapeText address).trim).render
      = "<img alt=\"".toList ++ attributeValue caption ++ "\" class=\"embed\" src=\"".toList
        ++ attributeValue address ++ "\" />".toList := by
  have alternative : (stripTags ((Region.ofTag .embed).extend (escapeText caption)).inner).trim
      = (escapeText caption).trim := by
    rw [Region.inner_extend_ofTag, stripTags_eq_self plain_escapeText]
  have entries : (described (escapeText caption) (escapeText address).trim).attributes.entries
      = [("alt".toList, some (escapeText caption).trim), ("class".toList, some "embed".toList),
        ("src".toList, some (escapeText address).trim)] := by
    rw [← alternative]
    rfl
  have void : Element.voidTag .img
        (described (escapeText caption) (escapeText address).trim).attributes
      = "<img".toList ++ (attributeText "alt".toList (escapeText caption).trim
        ++ (" class=\"embed\"".toList ++ attributeText "src".toList (escapeText address).trim))
        ++ " />".toList := by
    rw [Element.voidTag, Attributes.toText, entries, List.flatMap_cons, List.flatMap_cons,
      List.flatMap_cons, List.flatMap_nil, List.append_nil]
    rfl
  change Element.voidTag .img
    (described (escapeText caption) (escapeText address).trim).attributes = _
  rw [void, attributeText, attributeText, escapeAttribute_trim, escapeAttribute_trim]
  simp only [List.append_assoc]
  rfl

/-- The regions of the caption behind an image. -/
def captions (html : Text) : List Region :=
  if html.trim = [] then [] else [(Region.ofTag .caption).extend html]

theorem htmlIn_captions (opened : List Element) (caption : Text) (regions : List Region) :
    Export.htmlIn opened (captions (escapeText caption) ++ regions)
      = captionHtml caption ++ Export.htmlIn opened regions := by
  rw [captions, captionHtml]
  simp only [attributeValue_eq_nil]
  split
  · rfl
  · rename_i filled
    have inner := Region.inner_extend_ofTag .caption (escapeText caption)
    have some : escapeText caption ≠ [] := by
      intro none
      rw [none] at filled
      exact filled rfl
    have shown : ((Region.ofTag .caption).extend (escapeText caption)).isShown = true := by
      rw [Region.isShown, Region.isEmpty_eq, inner]
      change (!(escapeText caption).isEmpty) = true
      simp [some]
    have rendered : ((Region.ofTag .caption).extend (escapeText caption)).render
        = "<span class=\"caption\">".toList ++ escapeText caption ++ "</span>".toList := by
      rw [Region.render, inner]
      rfl
    rw [List.singleton_append, Export.htmlIn_whole shown (.inl rfl), rendered]

/-- The state behind an image that has its address, with its caption if there is one. -/
def behindImage (html address : Text) (written : List Text) : Scan :=
  let s : Scan := { inCaption 0 html written [] with
    arena := ⟨5, (Region.ofTag .url).extend address⟩
      :: ⟨4, described html ((Region.ofTag .url).extend address).inner.trim⟩
      :: ⟨3, .ofTag .paragraphEnd⟩ :: (startAt [] []).arena
    nextSerial := 6, opened := [] }
  if html.trim = [] then s else s.pushRegion ((Region.ofTag .caption).extend html)

theorem regions_behindImage (html address : Text) (written : List Text) :
    (behindImage html address written).regions
      = [Region.ofTag .sectionBegin, .ofTag .paragraphBegin, .ofTag .text, .ofTag .paragraphEnd,
          described html ((Region.ofTag .url).extend address).inner.trim,
          (Region.ofTag .url).extend address] ++ captions html := by
  rw [behindImage, captions]
  split <;> rfl

/-- The end of an address describes the image and ends it, and a new paragraph begins. -/
theorem step_imageEnd (plain : stripTags html = html) :
    (inAddress (inCaption 0 html written []) address written' [')']).step
      = .ok (behindImage html address written').endParagraph.openParagraph := by
  let image := (Region.ofTag .embed).extend html
  let source := ((Region.ofTag .url).extend address).inner.trim
  let s : Scan := { inCaption 0 html written' [] with
    arena := ⟨5, (Region.ofTag .url).extend address⟩ :: (inCaption 0 html written []).arena
    nextSerial := 6 }
  let s' : Scan := { s with
    arena := ⟨5, (Region.ofTag .url).extend address⟩ :: ⟨4, described html source⟩
      :: ⟨3, .ofTag .paragraphEnd⟩ :: (startAt [] []).arena }
  have gives : (inAddress (inCaption 0 html written []) address written' [')']).step
      = (s.setImageAddress ⟨4, image⟩ source >>= closeTagWith (fun _ s => .ok s) .embed)
        >>= leave (some 5) := rfl
  have describes : s.setImageAddress ⟨4, image⟩ source
      = .ok (if !(stripTags image.inner).trim.isEmpty then
          s'.pushRegion ((Region.ofTag .caption).extend image.inner) else s') := rfl
  have inner : image.inner = html := Region.inner_extend_ofTag .embed html
  rw [gives, describes, inner, plain, behindImage]
  cases html.trim <;> rfl

/-- An image ends with its address, and its caption stands behind it. -/
theorem output_imageEnd (caption address : Text) :
    output [] (inAddress (inCaption 0 (escapeText caption) written []) (escapeText address)
      written' [')']).complete
      = .ok ("<section>".toList ++ ("<img alt=\"".toList ++ attributeValue caption
        ++ "\" class=\"embed\" src=\"".toList ++ attributeValue address ++ "\" />".toList)
        ++ captionHtml caption ++ "</section>".toList) := by
  have ready := inAddress_ready (inCaption_ready 0 (escapeText caption) written [])
    (escapeText address) written' [')']
  have captured := Region.inner_extend_ofTag .url (escapeText address)
  let s := behindImage (escapeText caption) (escapeText address) written'
  have ended : s.endParagraph.openParagraph.opened = [] ∧ s.endParagraph.openParagraph.rest = []
      ∧ s.endParagraph.openParagraph.listLevel = 0 := by
    simp only [s, behindImage]
    split <;> exact ⟨rfl, rfl, rfl⟩
  have regions : s.endParagraph.openParagraph.regions
        ++ [Region.ofTag .paragraphEnd, .ofTag .sectionEnd]
      = [Region.ofTag .sectionBegin, .ofTag .paragraphBegin, .ofTag .text, .ofTag .paragraphEnd,
          described (escapeText caption) (escapeText address).trim,
          (Region.ofTag .url).extend (escapeText address)]
        ++ (captions (escapeText caption) ++ [Region.ofTag .paragraphEnd, .ofTag .paragraphBegin,
          .ofTag .text, .ofTag .paragraphEnd, .ofTag .sectionEnd]) := by
    rw [regions_openParagraph rfl, regions_endParagraph, regions_behindImage, captured]
    simp only [List.append_assoc]
    rfl
  have shown : Export.htmlIn [] (s.endParagraph.openParagraph.regions
        ++ [Region.ofTag .paragraphEnd, .ofTag .sectionEnd])
      = Export.htmlIn [] (.ofTag .sectionBegin :: .ofTag .paragraphBegin :: .ofTag .text
        :: .ofTag .paragraphEnd :: described (escapeText caption) (escapeText address).trim
        :: (captions (escapeText caption) ++ (.ofTag .paragraphEnd :: .ofTag .paragraphBegin
        :: .ofTag .text :: .ofTag .paragraphEnd :: [.ofTag .sectionEnd]))) := by
    rw [regions]
    exact Export.htmlIn_congr rfl
  rw [complete_step ready.grounded (List.cons_ne_nil _ _),
    step_imageEnd (stripTags_eq_self plain_escapeText)]
  change output [] s.endParagraph.openParagraph.complete = _
  rw [complete, reading_nil ended.2.1]
  change output [] s.endParagraph.openParagraph.finish = _
  rw [output_finish_outside ended.1 ended.2.2, shown, Export.htmlIn_sectionBegin,
    Export.htmlIn_emptyParagraph, Export.htmlIn_whole rfl (.inr rfl), render_described,
    htmlIn_captions, Export.htmlIn_surplusEnd (by decide), Export.htmlIn_emptyParagraph,
    Export.htmlIn_sectionEnd]
  simp only [List.append_assoc]
  rfl

end Scan

/-! ### Links and images -/

/-- A link is one paragraph. Its address may hold every delimiter but the one that ends it. -/
theorem render_link (text address : Text) (plain : text.Avoids Text.linkMarks)
    (captured : address.Avoids Text.addressMarks) :
    render ('[' :: text ++ "](".toList ++ address ++ ")".toList)
      = .ok ("<section><p><a class=\"link\" href=\"".toList ++ attributeValue address
        ++ "\">".toList ++ escapeText text ++ "</a></p></section>".toList) := by
  let source := '[' :: (text ++ ']' :: '(' :: (address ++ [')']))
  have sourceEq : '[' :: text ++ "](".toList ++ address ++ ")".toList = source := by
    simp only [List.append_assoc]
    rfl
  have noReturn : '\r' ∉ source := by
    have inText : '\r' ∉ text := plain.not_mem (by decide)
    have inAddress : '\r' ∉ address := captured.not_mem (by decide)
    simp [source, inText, inAddress]
  obtain ⟨written, written', reads⟩ := reading_link plain captured
  rw [sourceEq, render_eq_output, Text.normalizeBreaks_eq noReturn, complete, reads]
  refine output_linkEnd.trans ?_
  simp only [List.append_assoc]
  rfl

/-- A link whose address has the delimiters of other tags in it. -/
theorem render_link_markedAddress :
    Text.Avoids "a!".toList Text.linkMarks
      ∧ Text.Avoids "*/[](![\"<".toList Text.addressMarks
      ∧ render "[a!](*/[](![\"<)".toList = .ok
        "<section><p><a class=\"link\" href=\"*/[](![&quot;&lt;\">a!</a></p></section>".toList :=
  ⟨by decide, by decide, render_link "a!".toList "*/[](![\"<".toList (by decide) (by decide)⟩

/-- An image stands between two paragraphs, with a caption behind it unless there is no alternative
text. The brackets of its caption pair up, and only the one that is left over ends it. -/
theorem render_image (caption address : Text) (balanced : Caption caption)
    (captured : address.Avoids Text.addressMarks) :
    render ("![".toList ++ caption ++ "](".toList ++ address ++ ")".toList)
      = .ok ("<section><img alt=\"".toList ++ attributeValue caption
        ++ "\" class=\"embed\" src=\"".toList ++ attributeValue address ++ "\" />".toList
        ++ captionHtml caption ++ "</section>".toList) := by
  let source := "![".toList ++ (caption ++ ']' :: '(' :: (address ++ [')']))
  have sourceEq : "![".toList ++ caption ++ "](".toList ++ address ++ ")".toList = source := by
    simp only [source, List.append_assoc]
    rfl
  have noReturn : '\r' ∉ source := by
    have inAddress : '\r' ∉ address := captured.not_mem (by decide)
    simp [source, balanced.noReturn, inAddress]
  obtain ⟨written, written', reads⟩ := reading_image balanced captured
  rw [sourceEq, render_eq_output, Text.normalizeBreaks_eq noReturn, complete, reads]
  refine (output_imageEnd caption address).trans ?_
  simp only [List.append_assoc]
  rfl

/-- An image with brackets in its caption and in its address. -/
theorem render_image_brackets :
    Caption "a[b](\"".toList ∧ Text.Avoids "x](y".toList Text.addressMarks
      ∧ render "![a[b](\"](x](y)".toList
        = .ok ("<section><img alt=\"a[b](&quot;\" class=\"embed\" src=\"x](y\" />".toList
          ++ "<span class=\"caption\">a[b](\"</span></section>".toList) :=
  have balanced : Caption "a[b](\"".toList :=
    .plain (by decide) (@Caption.brackets ['b'] ['(', '"'] (.plain (by decide) .nil)
      (.plain (by decide) (.plain (by decide) .nil)))
  ⟨balanced, by decide, render_image "a[b](\"".toList "x](y".toList balanced (by decide)⟩

end MarkPress
