/-
Module: MarkPress.Path
Purpose: Paths of files, with a slash between folders.
  A path is cleaned by leaving out empty parts and single dots, and by letting two dots take back
  the part before them. Two dots with nothing before them stay, and behind the root they go.
Main exports:
  Path.parts, Path.clean, Path.join, Path.foldersOf, Path.foldersAlong, Path.below?,
  Path.precedes
-/
import MarkPress.Text.Order

namespace MarkPress.Path

/-- Add a part behind those that were kept, the latest first. The root is an empty part, and nothing
lies before it. -/
def push (kept : List Text) (part : Text) : List Text :=
  if part = [] ∨ part = ['.'] then kept
  else if part = ['.', '.'] then
    match kept with
    | [] => [part]
    | last :: before =>
        if last = part then part :: kept
        else if last = [] then kept
        else before
  else part :: kept

/-- The parts of a path that count. A path that begins at the root has an empty first part. -/
def parts (path : Text) : List Text :=
  let start := if Text.startsWith ['/'] path then [[]] else []
  ((Text.split '/' path).foldl push start).reverse

/-- The shortest path with the same parts. A slash at the end stays. -/
def clean (path : Text) : Text :=
  let ending := if Text.endsWith ['/'] path then ['/'] else []
  match parts path with
  | [] => '.' :: ending
  | [[]] => ['/']
  | kept => Text.join '/' kept ++ ending

/-- The path that leads from a folder on. -/
def join (folder path : Text) : Text :=
  if folder.isEmpty then clean path
  else if path.isEmpty then clean folder
  else clean (folder ++ '/' :: path)

/-- The parts of the folders that a file is in, from the outermost to the innermost. -/
def foldersOf (path : Text) : List (List Text) :=
  let all := parts path
  (List.range all.length).map all.take

/-- The parts of the folders that a path leads through as it is written, also of those that two dots
take back. -/
def foldersAlong (path : Text) : List (List Text) :=
  let written := Text.split '/' path
  (List.range' 1 (written.length - 1)).map fun count => parts (Text.join '/' (written.take count))

/-- The parts of a path below a folder, as seen from the folder. What begins at the root or leads
out of the folder is not below it, and neither is the folder itself. -/
def below? (folder path : Text) : Option (List Text) :=
  match (parts folder).isPrefixOf? (parts path) with
  | some (first :: more) =>
      if first = [] ∨ first = ['.', '.'] then none else some (first :: more)
  | _ => none

/-- Strict dictionary order of paths, part by part. So a folder comes before its neighbours whose
names go on with a character below the slash. -/
def precedes : List Text → List Text → Bool
  | _, [] => false
  | [], _ :: _ => true
  | a :: left, b :: right => Text.precedes a b || (a == b && precedes left right)

end MarkPress.Path
