/-! Commands as data: what a program asks of its surroundings, and how it goes on
with each answer. Files are named by paths, which only the surroundings
understand. -/
namespace ShaderGraph.CommandLine

/-- Why a file cannot be used. -/
inductive FileError where
  | notFound
  | alreadyExists
  | notDirectory
  | isDirectory
  | nameTooLong
  | nulInName
  | other (text : String)
deriving DecidableEq

def FileError.message : FileError → String
  | notFound => "No such file or directory (os error 2)"
  | alreadyExists => "File exists (os error 17)"
  | notDirectory => "Not a directory (os error 20)"
  | isDirectory => "Is a directory (os error 21)"
  | nameTooLong => "File name too long (os error 36)"
  | nulInName => "file name contained an unexpected NUL byte"
  | other text => text

/-- A text of which all lines but the first are indented. -/
def hanging (indent text : String) : String := ("\n" ++ indent).intercalate (text.splitOn "\n")

/-- Why a command failed: what it could not do and, the nearest first, the causes. -/
structure Failure where
  message : String
  causes : List String := []
deriving DecidableEq

namespace Failure

private def numbered : Nat → List String → List String
  | _, [] => []
  | n, cause :: causes => (s!"    {n}: " ++ hanging "       " cause) :: numbered (n + 1) causes

private def causeLines : List String → List String
  | [cause] => ["    " ++ hanging "    " cause]
  | causes => numbered 0 causes

def report (failure : Failure) : String :=
  let head := "Error: " ++ failure.message ++ "\n"
  if failure.causes.isEmpty then head
  else head ++ "\nCaused by:\n" ++ String.join ((causeLines failure.causes).map (· ++ "\n"))

end Failure

inductive Command where
  | done
  | fail (failure : Failure)
  | print (text : String) (next : Command)
  | log (text : String) (next : Command)
  | readFile (path : String) (next : Except FileError String → Command)
  | makeFolder (path : String) (next : Except FileError Unit → Command)
  | writeFile (path content : String) (next : Except FileError Unit → Command)

end ShaderGraph.CommandLine
