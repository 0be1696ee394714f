/-!
# A tree of files

Folders and files are known by their place, the list of names that leads to
them from the root. A path is followed from the working folder, or from the
root if it starts with a slash.
-/

namespace Opcodes

/-- The names that lead from the root to a file or folder. -/
abbrev Place :=
  List String

inductive CreateError where
  | missing
  | notAFolder
  | isFolder
  | nameTooLong
deriving DecidableEq, Repr

def CreateError.message : CreateError → String
  | missing => "No such file or directory (os error 2)"
  | notAFolder => "Not a directory (os error 20)"
  | isFolder => "Is a directory (os error 21)"
  | nameTooLong => "File name too long (os error 36)"

/-- Folders, files with their content, and the folder from which paths start. -/
structure FileTree where
  workingFolder : Place
  folders : List Place
  files : List (Place × String)
deriving DecidableEq, Repr

namespace FileTree

/-- The longest name that a file or folder can have, in bytes. -/
def nameLimit : Nat :=
  255

/-- The shortest path that is too long, in bytes. -/
def pathLimit : Nat :=
  4096

/-- The pieces between the slashes of a path. -/
def split : List Char → List (List Char)
  | [] => [[]]
  | character :: rest =>
      if character = '/' then
        [] :: split rest
      else
        match split rest with
        | [] => [[character]]
        | piece :: pieces => (character :: piece) :: pieces

/-- Where a path starts. -/
def origin (tree : FileTree) : List Char → Place
  | '/' :: _ => []
  | _ => tree.workingFolder

/-- Follows names through folders. Empty names and single dots stay in place. -/
def follow (tree : FileTree) : Place → List String → Except CreateError Place
  | place, [] => .ok place
  | place, name :: rest =>
      if name = "" ∨ name = "." then
        tree.follow place rest
      else if name = ".." then
        tree.follow place.dropLast rest
      else if nameLimit < name.utf8ByteSize then
        .error .nameTooLong
      else if tree.folders.contains (place ++ [name]) then
        tree.follow (place ++ [name]) rest
      else if (tree.files.lookup (place ++ [name])).isSome then
        .error .notAFolder
      else
        .error .missing

/-- The last name of a path, without the slashes behind it. -/
def lastName (names : List String) : String :=
  ((names.reverse.dropWhile (· == "")).head?).getD ""

def folderNames (names : List String) : List String :=
  ((names.reverse.dropWhile (· == "")).drop 1).reverse

/-- Whether a path can only name a folder: by a slash at its end, or by dots in its last name. -/
def namesFolder (names : List String) : Bool :=
  names.getLast? == some "" || lastName names == "." || lastName names == ".."

/-- The place of the file that a path names. -/
def locate (tree : FileTree) (path : String) : Except CreateError Place :=
  let names := (split path.toList).map String.ofList
  if pathLimit ≤ path.utf8ByteSize then
    .error .nameTooLong
  else
    match tree.follow (tree.origin path.toList) (folderNames names) with
    | .error error => .error error
    | .ok folder =>
        if namesFolder names then
          .error .isFolder
        else if nameLimit < (lastName names).utf8ByteSize then
          .error .nameTooLong
        else if tree.folders.contains (folder ++ [lastName names]) then
          .error .isFolder
        else
          .ok (folder ++ [lastName names])

/-- Puts content into the file that a path names, in place of what it held. -/
def create (tree : FileTree) (path content : String) : Except CreateError FileTree :=
  match tree.locate path with
  | .error error => .error error
  | .ok place =>
      .ok { tree with
        files := (place, content) :: tree.files.filter fun file => file.1 != place }

/-- The names and contents of the files that stand directly in the working folder. -/
def here (tree : FileTree) : List (String × String) :=
  tree.files.filterMap fun (place, content) =>
    match place.getLast? with
    | none => none
    | some name => if place = tree.workingFolder ++ [name] then some (name, content) else none

end FileTree

end Opcodes
