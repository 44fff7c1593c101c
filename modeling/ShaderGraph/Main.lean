import ShaderGraph.CommandLine.Program

/-! The program itself: commands run on real files. -/
namespace ShaderGraph.CommandLine

private def fileError : IO.Error → FileError
  | .noFileOrDirectory _ _ _ => .notFound
  | .alreadyExists _ _ _ => .alreadyExists
  | .inappropriateType _ code details =>
    if code = 20 then .notDirectory else if code = 21 then .isDirectory else .other details
  | error => .other (toString error)

private def attempt {α : Type} (action : IO α) : IO (Except FileError α) := do
  match ← action.toBaseIO with
  | .ok a => return .ok a
  | .error error => return .error (fileError error)

/-- Runs a command and gives its exit code. -/
def Command.execute : Command → IO UInt32
  | done => return 0
  | fail failure => do
    (← IO.getStderr).putStr failure.report
    return 1
  | print text next => do
    (← IO.getStdout).putStr text
    next.execute
  | log text next => do
    (← IO.getStderr).putStr text
    next.execute
  | readFile path next => do (next (← attempt (IO.FS.readFile path))).execute
  | makeFolder path next => do (next (← attempt (IO.FS.createDir path))).execute
  | writeFile path content next => do (next (← attempt (IO.FS.writeFile path content))).execute

end ShaderGraph.CommandLine

def main (arguments : List String) : IO UInt32 :=
  (ShaderGraph.CommandLine.ofArguments arguments).execute
