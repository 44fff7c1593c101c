import ShaderGraph.CommandLine.Command

/-! Commands run in a directory that is held in memory. A place is the list of
names that leads to it from the directory; what lies outside is empty. -/
namespace ShaderGraph.CommandLine

abbrev Place := List String

structure Directory where
  files : List (Place × String) := []
  folders : List Place := []

namespace Directory

private def components (path : String) : List String := path.splitOn "/"

/-- The places of the folders above a place, itself left out. -/
private def above (place : Place) : List Place := (List.range place.length).map place.take

private def isOutside (place : Place) : Bool := place == ["/"] || place.all (· == "..")

private def parent (place : Place) : Place :=
  if place == ["/"] then place
  else if isOutside place then place ++ [".."]
  else place.dropLast

private def enter (place : Place) (name : String) : Place :=
  if name = "" || name = "." then place
  else if name = ".." then parent place
  else place ++ [name]

/-- A directory with some files; their folders are made as needed. -/
def ofFiles (files : List (String × String)) : Directory :=
  let placed := files.map fun (path, content) => ((components path).foldl enter [], content)
  { files := placed, folders := placed.flatMap fun file => above file.1 }

def file? (directory : Directory) (place : Place) : Option String := directory.files.lookup place

def isFolder (directory : Directory) (place : Place) : Bool :=
  isOutside place || directory.folders.contains place

private def origin (path : String) : Place := if path.startsWith "/" then ["/"] else []

/-- The longest name and the longest path, in bytes. -/
private def nameLimit : Nat := 255
private def pathLimit : Nat := 4095

/-- The place to which names lead. Every folder on the way must be there. -/
private def follow (directory : Directory) (place : Place) : List String → Except FileError Place
  | [] => .ok place
  | name :: names =>
    if directory.isFolder place then
      if nameLimit < name.utf8ByteSize then .error .nameTooLong
      else follow directory (enter place name) names
    else if (directory.file? place).isSome then .error .notDirectory
    else .error .notFound

private def locate (directory : Directory) (path : String) (names : List String) :
    Except FileError Place :=
  if path.contains '\x00' then .error .nulInName
  else if path = "" then .error .notFound
  else if pathLimit < path.utf8ByteSize then .error .nameTooLong
  else follow directory (origin path) names

def read (directory : Directory) (path : String) : Except FileError String := do
  let place ← directory.locate path (components path)
  match directory.file? place with
  | some content => return content
  | none => throw (if directory.isFolder place then .isDirectory else .notFound)

def write (directory : Directory) (path content : String) : Except FileError Directory := do
  let place ← directory.locate path (components path)
  if directory.isFolder place then throw .isDirectory
  return { directory with files := (place, content) :: directory.files.filter (·.1 != place) }

/-- Makes one folder. The path may end in slashes. -/
def makeFolder (directory : Directory) (path : String) : Except FileError Directory := do
  let names := ((components path).reverse.dropWhile (· == "")).reverse
  let place ← directory.locate path names
  if directory.isFolder place || (directory.file? place).isSome then throw .alreadyExists
  return { directory with folders := place :: directory.folders }

private def isInside (place : Place) : Bool := place.head?.all fun name => name != "/" && name != ".."

/-- The files that are new or have another content than before, by their paths. -/
def changedSince (before after : Directory) : List (String × String) :=
  (after.files.filter fun (place, content) =>
      isInside place && before.file? place != some content).map
    fun (place, content) => ("/".intercalate place, content)

end Directory

/-- What a command leaves behind. -/
structure Outcome where
  exitCode : Nat := 0
  stdout : String := ""
  stderr : String := ""
  directory : Directory

namespace Command

/-- Runs a command to its end. -/
def runIn (stdout stderr : String) (directory : Directory) : Command → Outcome
  | done => { stdout, stderr, directory }
  | fail failure => { exitCode := 1, stdout, stderr := stderr ++ failure.report, directory }
  | print text next => next.runIn (stdout ++ text) stderr directory
  | log text next => next.runIn stdout (stderr ++ text) directory
  | readFile path next => (next (directory.read path)).runIn stdout stderr directory
  | makeFolder path next =>
    match directory.makeFolder path with
    | .ok directory => (next (.ok ())).runIn stdout stderr directory
    | .error error => (next (.error error)).runIn stdout stderr directory
  | writeFile path content next =>
    match directory.write path content with
    | .ok directory => (next (.ok ())).runIn stdout stderr directory
    | .error error => (next (.error error)).runIn stdout stderr directory

end Command

end ShaderGraph.CommandLine
