/-!
# Paths and file trees

A path is text with slashes between its parts. Empty parts and parts that are a single dot name
nothing, and two dots name the directory above. A file tree has the files below a working directory,
with their contents. A directory is there if a file is below it. What lies outside the working
directory is not known, except that the directories above it are directories.
-/

namespace PhraseStructure

inductive FileError
  | notFound
  | alreadyExists
  | notDirectory
  | isDirectory
  | invalidText
  /-- Any other reason, with the number that the system gives it. -/
  | refused (reason : String) (code : Nat)
  deriving DecidableEq, Repr

def FileError.message : FileError → String
  | .notFound => "No such file or directory (os error 2)"
  | .alreadyExists => "File exists (os error 17)"
  | .notDirectory => "Not a directory (os error 20)"
  | .isDirectory => "Is a directory (os error 21)"
  | .invalidText => "stream did not contain valid UTF-8"
  | .refused reason code => reason ++ " (os error " ++ code.repr ++ ")"

namespace Path

def pieces : List Char → List (List Char)
  | [] => [[]]
  | c :: rest =>
    if c = '/' then [] :: pieces rest
    else match pieces rest with
      | [] => [[c]]
      | piece :: more => (c :: piece) :: more

/-- The parts of a path, those that name nothing included. -/
def parts (path : String) : List String := (pieces path.toList).map String.ofList

def isAbsolute (path : String) : Bool := path.toList.head? == some '/'

def isSilent (part : String) : Bool := part == "" || part == "."

/-- The last name of a path, unless the path ends at a directory by its form. -/
def fileName? (path : String) : Option String :=
  match ((parts path).filter fun part => !isSilent part).getLast? with
  | none => none
  | some part => if part = ".." then none else some part

/-- What stands before and after the last dot of a name, unless the dot comes first. -/
def splitAtDot (name : List Char) : Option (List Char × List Char) :=
  let ending := name.reverse.takeWhile (· != '.')
  match name.reverse.dropWhile (· != '.') with
  | [] => none
  | _ :: stem => if stem.isEmpty then none else some (stem.reverse, ending.reverse)

def stem? (path : String) : Option String :=
  (fileName? path).map fun name =>
    match splitAtDot name.toList with
    | some (stem, _) => String.ofList stem
    | none => name

def extension? (path : String) : Option String :=
  (fileName? path).bind fun name =>
    (splitAtDot name.toList).map fun (_, ending) => String.ofList ending

end Path

/-- How file contents are found by their paths. -/
abbrev Reading := String → Except FileError ByteArray

def Reading.text (read : Reading) (path : String) : Except FileError String :=
  match read path with
  | .error e => .error e
  | .ok bytes =>
    match String.fromUTF8? bytes with
    | some text => .ok text
    | none => .error .invalidText

/-- The files by the names on the way to them. -/
structure FileTree where
  files : List (List String × ByteArray)

namespace FileTree

def ofFiles (files : List (String × ByteArray)) : FileTree :=
  ⟨files.map fun (path, bytes) =>
    ((Path.parts path).filter fun part => !Path.isSilent part, bytes)⟩

variable (t : FileTree)

def file? (place : List String) : Option ByteArray := t.files.lookup place

def isDirectory (place : List String) : Bool :=
  place.isEmpty || t.files.any fun (name, _) =>
    place.isPrefixOf name && place.length < name.length

/-- Follows the parts of a path from a place on. There is no place once the path has left the
working directory by its top. -/
def follow (place : Option (List String)) : List String → Except FileError ByteArray
  | [] => .error .isDirectory
  | part :: rest =>
    if Path.isSilent part then follow place rest
    else if part = ".." then
      match place with
      | some (name :: names) => follow (some (name :: names).dropLast) rest
      | _ => follow none rest
    else match place with
      | none => .error .notFound
      | some names =>
        let here := names ++ [part]
        match t.file? here with
        | some bytes => if rest.isEmpty then .ok bytes else .error .notDirectory
        | none => if t.isDirectory here then follow (some here) rest else .error .notFound

def read : Reading := fun path =>
  if path.isEmpty then .error .notFound
  else if Path.isAbsolute path then t.follow none (Path.parts path)
  else t.follow (some []) (Path.parts path)

end FileTree

end PhraseStructure
