/-
Module: MarkPress.Template.Cache
Purpose: Loading templates by name.
  A name has only letters, digits, underscores and hyphens, so it never leads out of the folder of
  the templates. A template that has been loaded is kept until the cache is cleared, whatever
  becomes of its file. A template that could not be loaded is not kept.
Main exports:
  TemplateCache, TemplateCache.load, TemplateCache.fillPage, TemplateCache.clear,
  TemplateError, TemplateError.message
-/
import MarkPress.Site.Files
import MarkPress.Template.Basic

namespace MarkPress

/-- The templates of a folder that have been loaded. -/
structure TemplateCache where
  folder : Text
  texts : Dictionary Text := Dictionary.empty
deriving Repr, Inhabited, DecidableEq

/-- Why a template can not be loaded. -/
inductive TemplateError where
  | invalidName (name : Text)
  | notFound (path : Text)
deriving Repr, Inhabited, DecidableEq

/-- The text that reports an error. -/
def TemplateError.message : TemplateError → Text
  | .invalidName name => "invalid template name: ".toList ++ name
  | .notFound path =>
      "template not found: ".toList ++ path ++ ": Error: ".toList
        ++ (FileError.missing .reading path).message

namespace TemplateCache

/-- Whether a template can have a name. -/
def isValidName (name : Text) : Bool := !name.isEmpty && name.all Template.isNameChar

/-- The file of a template. -/
def pathOf (cache : TemplateCache) (name : Text) : Text :=
  Path.join cache.folder (name ++ ".html".toList)

/-- The text of a template, and the cache that keeps it. -/
def load (files : Files) (name : Text) (cache : TemplateCache) :
    Except TemplateError (Text × TemplateCache) :=
  match cache.texts.get? name with
  | some text => .ok (text, cache)
  | none =>
      if isValidName name then
        let path := cache.pathOf name
        match files.get? path with
        | some text => .ok (text, { cache with texts := cache.texts.set name text })
        | none => .error (.notFound path)
      else .error (.invalidName name)

/-- A template of a name with its placeholders filled in. -/
def fillPage (files : Files) (name : Text) (values : Variables) (cache : TemplateCache) :
    Except TemplateError (Text × TemplateCache) := do
  let (template, cache) ← cache.load files name
  return (Template.fill template values, cache)

/-- Forget every template. -/
def clear (cache : TemplateCache) : TemplateCache := { cache with texts := Dictionary.empty }

end TemplateCache

end MarkPress
