/-!
Where class files are found: directories, searched in order.

A directory is a place in a tree of files. The file of a class has the class's name as its path, cut at
the slashes, with `class` as the extension of the last part. Such a path may lead upwards, out of the
directory, and reaches whatever the tree has there.
-/

namespace JavaMachine

/-- A path from a directory, part by part. -/
abbrev Path := List String

/-- A place in a tree of files, the root of the tree unless it is given. -/
structure Directory where
  /-- The files of the tree by their paths from its root. -/
  files : List (Path × List UInt8)
  location : Path := []
  deriving DecidableEq, Repr, Inhabited

/-- The parts of a text between slashes. -/
def Path.ofText (text : String) : Path := text.splitOn "/"

namespace Directory

/-- Whether the tree has a directory at `path`: one with some file below it. -/
def hasBelow (d : Directory) (path : Path) : Bool :=
  d.files.any fun (file, _) => path.isPrefixOf file && path ≠ file

/-- Follows a path from the directory at `base`, as a path from the root. Empty parts and `.` stay in
place; `..` goes up from an existing directory, never out of the tree. -/
def follow? (d : Directory) (base : Path) : Path → Option Path
  | [] => some base
  | part :: rest =>
    if part = "" || part = "." then follow? d base rest
    else if part = ".." then
      if base ≠ [] && d.hasBelow base then follow? d base.dropLast rest else none
    else follow? d (base ++ [part]) rest

/-- The contents of the file at `path` from this directory. A file that is listed by this very path,
even by one that leads upwards, is taken as it is listed. -/
def read? (d : Directory) (path : Path) : Option (List UInt8) :=
  (d.files.lookup (d.location ++ path)).orElse fun _ =>
    (d.follow? d.location path).bind fun path => d.files.lookup path

/-- The directory that a text names from this one. A tree without files if there is none, or if the text
starts with a slash and so means no place in this tree. -/
def sub (d : Directory) (text : String) : Directory :=
  if text.toList.head? = some '/' then ⟨[], []⟩
  else match d.follow? d.location (Path.ofText text) with
    | none => ⟨[], []⟩
    | some location => { d with location }

end Directory

namespace ClassPath

/-- A file name without its extension, the part from the last dot on. A dot at the start of the name
begins no extension. -/
def stem (file : List Char) : List Char :=
  match file.reverse.dropWhile (· ≠ '.') with
  | _ :: c :: before => (c :: before).reverse
  | _ => file

/-- The path of a class's file. A name that does not end in a file name has none. -/
def file? (className : String) : Option Path :=
  match ((Path.ofText className).filter fun part => part ≠ "" && part ≠ ".").reverse with
  | [] => none
  | last :: parents =>
    if last = ".." then none
    else some ((String.ofList (stem last.toList) ++ ".class") :: parents).reverse

end ClassPath

end JavaMachine
