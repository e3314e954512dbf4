import Coalesce.Config.File

/-!
# A folder of files

`Folder.files` finds files by their paths: names are separated by slashes, one point is the folder
itself, two points are the folder around it.  A path that begins with a slash leads outside.
-/

namespace Coalesce

/-- What a folder holds under a path of names. -/
inductive FolderEntry where
  | file (content : List UInt8)
  | folder
  deriving DecidableEq

/-- Files and folders by their paths. -/
structure Folder where
  entries : List (List String × FolderEntry)

namespace Folder

/-- the names of a path -/
def names (path : String) : List String :=
  let (last, before) := path.toList.foldr (fun c (name, names) =>
    if c = '/' then ([], String.ofList name :: names) else (c :: name, names)) ([], [])
  String.ofList last :: before

def ofList (entries : List (String × FolderEntry)) : Folder :=
  ⟨entries.map fun e => (names e.1, e.2)⟩

/-- What is under some names; a folder is also what holds something. -/
def entry? (f : Folder) (place : List String) : Option FolderEntry :=
  match f.entries.lookup place with
  | some e => some e
  | none =>
    if place.isEmpty ∨ f.entries.any (fun e => place.isPrefixOf e.1) then some .folder else none

/-- Follows names from a place outside: nothing is known there but folders around folders. -/
def outside : List String → Except FileFault FolderEntry
  | [] => .ok .folder
  | name :: rest => if name = "" ∨ name = "." ∨ name = ".." then outside rest else .error .missing

/-- Follows names from a place on. -/
def follow (f : Folder) (place : List String) : List String → Except FileFault FolderEntry
  | [] =>
    match f.entry? place with
    | some e => .ok e
    | none => .error .missing
  | name :: rest =>
    match f.entry? place with
    | none => .error .missing
    | some (.file _) => .error .insideFile
    | some .folder =>
      if 255 < name.utf8ByteSize then .error .nameTooLong
      else if name = "" ∨ name = "." then follow f place rest
      else if name = ".." then if place.isEmpty then outside rest else follow f place.dropLast rest
      else follow f (place ++ [name]) rest

/-- The bytes behind a path. -/
def files (f : Folder) : Files := fun path =>
  if path.toList.contains '\x00' then .error .badName
  else do
    let entry ← match names path with
      | [""] => .error .missing
      | "" :: rest => outside rest
      | place => f.follow [] place
    match entry with
    | .file content => .ok content
    | .folder => .error .directory

end Folder

end Coalesce
