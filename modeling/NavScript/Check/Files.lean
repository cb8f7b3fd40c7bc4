import NavScript.Setup.Failure

/-!
# Files and paths

Paths are slash-separated names. `Files` is a directory held in memory; reading from it walks the
path name by name, and a path may not go on behind a file. Of the world around the directory only
this is known, that there are directories above it and none of them holds anything a path names.
-/

namespace NavScript

namespace Path

def segments (path : String) : List String := path.splitOn "/"

/-- Drops names at the end that stay where they are. The first segment stays, since it tells
relative paths from absolute ones. -/
def settle : List String → List String
  | [] => []
  | first :: rest =>
    first :: (rest.reverse.dropWhile fun name => name == "" || name == ".").reverse

/-- The directory a path lies in, empty for a single name; the root lies in none. -/
def parent? (path : String) : Option String :=
  match settle (segments path) with
  | [""] => none
  | names =>
    match settle names.dropLast with
    | [""] => some "/"
    | names => some ("/".intercalate names)

def join (directory name : String) : String :=
  if directory.isEmpty || directory.endsWith "/" then directory ++ name
  else directory ++ "/" ++ name

end Path

/-- A path is shorter than this, in bytes. -/
def Path.limit : Nat := 4096

/-- The greatest length of one name, in bytes. -/
def Path.nameLimit : Nat := 255

/-- Where a walk has come to: down from the directory along some names, or outside of it. -/
inductive Location where
  | within (names : List String)
  | outside
deriving DecidableEq, Inhabited, Repr

/-- The directory that a place lies in. -/
def Location.parent : Location → Location
  | within [] | outside => outside
  | within (name :: names) => within (name :: names).dropLast

/-- Files with the names on the way to each of them. -/
structure Files where
  entries : List (List String × String)

namespace Files

def ofList (files : List (String × String)) : Files :=
  ⟨files.map fun (path, text) =>
    ((Path.segments path).filter fun name => name != "" && name != ".", text)⟩

/-- The text of the file at a place. -/
def file? (fs : Files) : Location → Option String
  | .within names => fs.entries.lookup names
  | .outside => none

/-- The place of a name in a directory, if there is a file or a directory of that name. -/
def enter? (fs : Files) (place : Location) (name : String) : Option Location :=
  match place with
  | .within names =>
    let next := names ++ [name]
    if fs.entries.any (next.isPrefixOf ·.1) then some (.within next) else none
  | .outside => none

/-- The place that some names lead to from another one. -/
def walk (fs : Files) (place : Location) : List String → Except ReadFailure Location
  | [] => .ok place
  | name :: rest =>
    if (fs.file? place).isSome then .error .notDirectory
    else if name == "" || name == "." then walk fs place rest
    else if name == ".." then walk fs place.parent rest
    else if Path.nameLimit < name.utf8ByteSize then .error .tooLong
    else
      match fs.enter? place name with
      | some next => walk fs next rest
      | none => .error .missing

def read (fs : Files) (path : String) : Except ReadFailure String :=
  if path.isEmpty then .error .missing
  else if Path.limit ≤ path.utf8ByteSize then .error .tooLong
  else
    let start := if path.startsWith "/" then Location.outside else .within []
    match fs.walk start (Path.segments path) with
    | .error why => .error why
    | .ok place =>
      match fs.file? place with
      | some text => .ok text
      | none => .error .isDirectory

end Files

end NavScript
