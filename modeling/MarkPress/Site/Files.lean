/-
Module: MarkPress.Site.Files
Purpose: The files that a site is built from and into.
  A file is found under its cleaned path. Folders come into being with the files in them, and stay
  when the files are removed.
Main exports:
  Files, Files.get?, Files.read, Files.follow, Files.makeFolders, Files.write, Files.remove,
  Files.below, Files.list, FileUse, FileError, FileError.message
-/
import MarkPress.Dictionary
import MarkPress.Path

namespace MarkPress

/-- Texts by path. -/
structure Files where
  texts : Dictionary Text := Dictionary.empty
  /-- The parts of every folder there is. -/
  folders : List (List Text) := [[]]
deriving Repr, Inhabited, DecidableEq

/-- What a path is used for. -/
inductive FileUse where
  /-- To read a file. -/
  | reading
  /-- To list a folder. -/
  | listing
deriving Repr, Inhabited, DecidableEq

/-- The name of a use, as errors give it. -/
def FileUse.name : FileUse → Text
  | .reading => "open".toList
  | .listing => "scandir".toList

/-- Why a path can not be used. -/
inductive FileError where
  /-- Nothing is there. -/
  | missing (use : FileUse) (path : Text)
  /-- The path goes on behind a file. -/
  | notFolder (use : FileUse) (path : Text)
  /-- A folder is there, and a file was to be read. -/
  | isFolder
deriving Repr, Inhabited, DecidableEq

/-- The text that reports an error. -/
def FileError.message : FileError → Text
  | .missing use path =>
      "ENOENT: no such file or directory, ".toList ++ use.name ++ " '".toList ++ path ++ ['\x27']
  | .notFolder use path =>
      "ENOTDIR: not a directory, ".toList ++ use.name ++ " '".toList ++ path ++ ['\x27']
  | .isFolder => "EISDIR: illegal operation on a directory, read".toList

namespace Files

/-- The text of a file, if it is there. -/
def get? (files : Files) (path : Text) : Option Text := files.texts.get? (Path.clean path)

/-- Whether parts lead to a file. -/
def isFile (files : Files) (parts : List Text) : Bool := files.texts.contains (Text.join '/' parts)

/-- Why a path whose parts lead nowhere can not be used: it goes on behind a file, or not. -/
def absence (files : Files) (use : FileUse) (path : Text) : FileError :=
  let parts := Path.parts path
  if (List.range (parts.length + 1)).any fun count => files.isFile (parts.take count) then
    .notFolder use path
  else .missing use path

/-- The text of a file, or why there is none. -/
def read (files : Files) (path : Text) : Except FileError Text :=
  match files.get? path with
  | some text => .ok text
  | none =>
      if Path.parts path ∈ files.folders then .error .isFolder
      else .error (files.absence .reading path)

/-- The text of a file whose path is followed part by part as it is written, so that it has to lead
through folders that are there. The empty path leads nowhere. -/
def follow (files : Files) (path : Text) : Except FileError Text :=
  if path.isEmpty then .error (.missing .reading path)
  else
    match (Path.foldersAlong path).find? (· ∉ files.folders) with
    | none => files.read path
    | some parts =>
        .error (if files.isFile parts then .notFolder .reading path else .missing .reading path)

/-- Make the folders of a list that are not there. -/
def makeFolders (folders : List (List Text)) (files : Files) : Files :=
  { files with folders := files.folders ++ folders.filter (· ∉ files.folders) }

/-- Write a file, and make the folders it is in. -/
def write (path text : Text) (files : Files) : Files :=
  { files.makeFolders (Path.foldersOf path) with
    texts := files.texts.set (Path.clean path) text }

/-- Remove a file. -/
def remove (path : Text) (files : Files) : Files :=
  { files with texts := files.texts.erase (Path.clean path) }

/-- The paths of the files below a folder, in parts and as seen from the folder. -/
def below (files : Files) (folder : Text) : List (List Text) :=
  files.texts.keys.filterMap (Path.below? folder)

/-- Whether a file or folder is left out of listings. -/
def isHidden (name : Text) : Bool := Text.startsWith ['.'] name

/-- The paths of the files below a folder, in order, without those that are hidden or in a hidden
folder. -/
def list (files : Files) (folder : Text) : Except FileError (List Text) :=
  if Path.parts folder ∈ files.folders then
    let shown := (files.below folder).filter fun path => !path.any isHidden
    .ok ((shown.mergeSort fun a b => !Path.precedes b a).map (Text.join '/'))
  else .error (files.absence .listing (Path.clean folder))

/-! ### Reading after writing -/

theorem get?_write (files : Files) (path other text : Text) :
    (files.write path text).get? other
      = if Path.clean path = Path.clean other then some text else files.get? other := by
  simp [write, get?]

theorem get?_remove (files : Files) (path other : Text) :
    (files.remove path).get? other
      = if Path.clean path = Path.clean other then none else files.get? other := by
  simp [remove, get?]

end Files

end MarkPress
