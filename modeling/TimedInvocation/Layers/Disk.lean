/-!
# Files

The files that there are, the working directory, and how a path leads to one of the files: from the root if
it starts with a slash, and from the working directory otherwise. Every part of a path before the last one
must be a directory.
-/

namespace TimedInvocation.Layers

/-- The pieces between the slashes of a text, with a character put before the text. -/
def addChar (c : Char) (pieces : List (List Char)) : List (List Char) :=
  if c = '/' then [] :: pieces
  else match pieces with
    | piece :: rest => (c :: piece) :: rest
    | [] => [[c]]

def pathParts (path : String) : List String :=
  (path.toList.foldr addChar [[]]).map String.ofList

/-- Whether a part of a path stands for the directory that it is in. -/
def isHere (part : String) : Bool :=
  part = "" || part = "."

/-- A file: the names that lead to it from the root, and its text. -/
structure DiskFile where
  location : List String
  text : String
  deriving DecidableEq

/-- All files, and the names that lead from the root to the working directory. -/
structure Disk where
  directory : List String
  files : List DiskFile
  deriving DecidableEq

def isAbsolute (path : String) : Bool :=
  path.toList.head? = some '/'

namespace Disk

/-- The disk with the given files, seen from a working directory. Of several texts for a file the last one
counts. -/
def seenFrom (directory : List String) (files : List (String × String)) : Disk :=
  ⟨directory, files.reverse.map fun (path, text) =>
    ⟨(if isAbsolute path then [] else directory) ++
      (pathParts path).filter fun part => !isHere part, text⟩⟩

/-- The disk with the given files, of which those without an absolute path are below a working directory of
their own. -/
def ofFiles (files : List (String × String)) : Disk :=
  seenFrom ["work"] files

/-- A place is a directory if it leads on to a file or to the working directory. -/
def isDirectory (disk : Disk) (place : List String) : Bool :=
  place.isPrefixOf disk.directory ||
    disk.files.any fun file => place.isPrefixOf file.location && place ≠ file.location

/-- The place that some parts of a path lead to from a place. -/
def walk? (disk : Disk) : List String → List String → Option (List String)
  | place, [] => some place
  | place, part :: rest =>
    if disk.isDirectory place then
      if isHere part then disk.walk? place rest
      else if part = ".." then disk.walk? place.dropLast rest
      else disk.walk? (place ++ [part]) rest
    else none

/-- A path that leads from the root to where a path leads. -/
def fromRoot (disk : Disk) (path : String) : String :=
  if isAbsolute path then path else "/" ++ "/".intercalate disk.directory ++ "/" ++ path

/-- The text of the file that a path leads to from the root, if there is one. -/
def read? (disk : Disk) (path : String) : Option String :=
  ((disk.walk? [] (pathParts path)).bind fun place =>
    disk.files.find? fun file => file.location = place).map DiskFile.text

/-- Whether a name has an ending of its own: a dot that is not its first character. -/
def hasEnding (name : String) : Bool :=
  (name.toList.drop 1).contains '.'

/-- The name that an ending is added to where a path ends with a slash. -/
def unnamed : String := ".placeholder"

/-- A path with an ending added. It is added to the last name of the path; only if that name has an
ending of its own, whatever follows the name is kept, and the ending goes behind it. -/
def withEnding (ending path : String) : String :=
  match (pathParts path).reverse.dropWhile isHere with
  | [] => path
  | name :: directories =>
    if name = ".." then path
    else if !hasEnding name then "/".intercalate ((name ++ ending) :: directories).reverse
    else if (pathParts path).getLast? = some "" then path ++ unnamed ++ ending
    else path ++ ending

/-- The text of the file that a path leads to as it is or, failing that, with an ending. -/
def find? (disk : Disk) (ending path : String) : Option String :=
  match disk.read? (disk.fromRoot path) with
  | some text => some text
  | none => disk.read? (withEnding ending (disk.fromRoot path))

end Disk

end TimedInvocation.Layers
