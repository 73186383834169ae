import ObjectLisp.Assoc

/-!
# Files

The files that a program can load: texts under paths relative to the working
directory.  A path is followed name by name; a name that another one follows
must be a directory, which is what the path of some file goes through.  Nothing
is known about files elsewhere, except those that were provided under the very
path that is asked for.

Paths that could not be followed are noted, so that a caller who has more files
can provide them and try again.
-/

namespace ObjectLisp

/-- Why a file cannot be read. -/
inductive FileProblem where
  | missing
  | notDirectory
  | isDirectory
  | nameTooLong
  /-- The path has a character that no path can have. -/
  | impossiblePath
deriving Repr, DecidableEq

/-- The wording of a problem. -/
def FileProblem.message : FileProblem → String
  | missing => "No such file or directory (os error 2)"
  | notDirectory => "Not a directory (os error 20)"
  | isDirectory => "Is a directory (os error 21)"
  | nameTooLong => "File name too long (os error 36)"
  | impossiblePath => "file name contained an unexpected NUL byte"

/-- Texts by the names on their paths. -/
structure Files where
  texts : Assoc (List String) String := {}
  /-- Texts by paths that are not followed. -/
  provided : Assoc String String := {}
  /-- Paths that were asked for and not found, latest first. -/
  asked : List String := []
deriving Repr, Inhabited

namespace Files

/-- The most bytes of a name. -/
def maxName : Nat := 255

/-- The most bytes of a path. -/
def maxPath : Nat := 4095

/-- The names between the slashes of a path. -/
def splitPath : List Char → List (List Char)
  | [] => [[]]
  | c :: rest =>
      if c = '/' then [] :: splitPath rest
      else
        match splitPath rest with
        | [] => [[c]]
        | name :: names => (c :: name) :: names

/-- The names on a path. -/
def namesOf (path : String) : List String := (splitPath path.toList).map String.ofList

/-- Does a name leave a path where it is? -/
def isHere (name : String) : Bool := name = "" || name = "."

/-- Is there a directory at these names? -/
def isDirectory (files : Files) (names : List String) : Bool :=
  names.isEmpty || files.texts.keys.any fun path => names.isPrefixOf path && path ≠ names

/-- Follow names from a directory about whose contents nothing is known. -/
def followOutside : List String → FileProblem
  | [] => .isDirectory
  | name :: rest =>
      if isHere name || name = ".." then followOutside rest
      else if maxName < name.utf8ByteSize then .nameTooLong
      else .missing

/-- Follow names from a directory on, given with its latest name first. -/
def follow (files : Files) (here : List String) : List String → Except FileProblem String
  | [] => .error .isDirectory
  | name :: rest =>
      if isHere name then follow files here rest
      else if name = ".." then
        match here with
        | [] => .error (followOutside rest)
        | _ :: outer => follow files outer rest
      else if maxName < name.utf8ByteSize then .error .nameTooLong
      else
        let there := name :: here
        match files.texts.find? there.reverse with
        | some text => if rest.isEmpty then .ok text else .error .notDirectory
        | none =>
            if files.isDirectory there.reverse then follow files there rest
            else .error .missing

/-- The text at a path. -/
def read (files : Files) (path : String) : Except FileProblem String :=
  match files.provided.find? path, path.toList with
  | some text, _ => .ok text
  | none, chars =>
      if chars.contains '\x00' then .error .impossiblePath
      else if maxPath < path.utf8ByteSize then .error .nameTooLong
      else
        match chars with
        | [] => .error .missing
        | '/' :: _ => .error (followOutside (namesOf path))
        | _ => files.follow [] (namesOf path)

/-- Add a file in the working directory or below it. -/
def add (files : Files) (path text : String) : Files :=
  { files with
    texts := files.texts.insert ((namesOf path).filter fun name => !isHere name) text }

/-- Provide the text for a path as it is written. -/
def provide (files : Files) (path text : String) : Files :=
  { files with provided := files.provided.insert path text }

/-- Note that a path was not found. -/
def note (files : Files) (path : String) : Files := { files with asked := path :: files.asked }

end Files

end ObjectLisp
