import ShaderGraph.CommandLine.Command
import ShaderGraph.CommandLine.Options
import ShaderGraph.Compile.Run
import ShaderGraph.Glsl.Extraction
import ShaderGraph.Graph.Format
import ShaderGraph.Graph.Sample
import ShaderGraph.Text.Terminal

/-! The program behind the command line. It lists the functions of a source text,
or compiles a graph and prints or saves the shader. -/
namespace ShaderGraph.CommandLine
open Command

private def failWith (message : String) : Command := fail { message }

private def because (message cause : String) : Command := fail { message, causes := [cause] }

/-- Prints the definitions of all functions of a source file. -/
def listSignatures (path : String) : Command :=
  readFile path fun
    | .error error => because s!"failed to read glsl source {path}" error.message
    | .ok source =>
      match Glsl.definitions source with
      | .error error => because s!"failed to extract functions from {path}" error.message
      | .ok definitions =>
        print ((Json.array (definitions.map Definition.encode)).pretty ++ "\n") done

private def faultText : Json.ReadError → String
  | .fault .ended => "the text ends too early"
  | .fault .malformed => "the text is malformed"
  | .mismatch mismatch => mismatch.message

/-- Goes on with a graph from a file, or with the one that comes with the program. -/
def withGraph (path : Option String) (next : Graph → Command) : Command :=
  match path with
  | none => next Graph.sample
  | some path =>
    readFile path fun
      | .error error => because s!"failed to read graph json at {path}" error.message
      | .ok text =>
        match Graph.ofText text with
        | .ok graph => next graph
        | .error error =>
          fail { message := s!"invalid graph json in {path}"
                 causes := ["failed to parse graph json", faultText error] }

/-- The node to compile: the one asked for, or the first preview. -/
def sink (graph : Graph) : Option String → Except String String
  | some id =>
    if graph.nodes.any (·.id == id) then .ok id else .error s!"node {id} is not in the graph"
  | none =>
    match graph.preview? with
    | some node => .ok node.id
    | none => .error "graph has no preview node; pass --node <id>"

/-- A name inside a folder; an absolute one stays as it is. -/
def joinPath (folder name : String) : String :=
  if name.startsWith "/" then name
  else if folder = "" || folder.endsWith "/" then folder ++ name
  else folder ++ "/" ++ name

/-- Makes a folder unless it is there. -/
def ensureFolder (path : String) (next : Except FileError Unit → Command) : Command :=
  makeFolder path fun
    | .ok () => next (.ok ())
    | .error error =>
      readFile path fun
        | .error .isDirectory => next (.ok ())
        | _ => next (.error error)

/-- The names in a path, without those that lead nowhere. -/
def pathNames (path : String) : List String :=
  (path.splitOn "/").filter fun name => name != "" && name != "."

/-- Makes a folder, and those above it when they are missing. The names in its path
are given last one first. -/
def ensureFolders (root path : String) : List String → (Except FileError Unit → Command) → Command
  | [], next => if path = "" then next (.ok ()) else ensureFolder path next
  | _ :: above, next =>
    ensureFolder path fun
      | .error .notFound =>
        ensureFolders root (root ++ "/".intercalate above.reverse) above fun
          | .ok () => ensureFolder path next
          | .error error => next (.error error)
      | outcome => next outcome

private def saveFile (path content : String) (next : Command) : Command :=
  writeFile path content fun
    | .error error => because s!"failed to write {path}" error.message
    | .ok () => print s!"[compile] saved: {path}\n" next

/-- Saves the shader of a node into a folder. -/
def save (folder sink : String) (source : ShaderSource) : Command :=
  let root := if folder.startsWith "/" then "/" else ""
  ensureFolders root folder (pathNames folder).reverse fun
    | .error error => because s!"failed to create {folder}" error.message
    | .ok () =>
      saveFile (joinPath folder s!"{sink}.vert") source.vertex
        (saveFile (joinPath folder s!"{sink}.frag") source.fragment done)

/-- The lines that report an error in a log. -/
def logLines (message : String) : String :=
  Text.withoutControls ("ERROR " ++ hanging "    " message ++ "\n")

private def logErrors (next : Command) : List CompileError → Command
  | [] => next
  | error :: errors => log (logLines error.message) (logErrors next errors)

/-- Compiles the shader of a node and prints or saves it. -/
def compileSink (graph : Graph) (outputDir : Option String) (sink : String) : Command :=
  match compile .builtin graph sink with
  | .error error => because s!"failed to compile graph from node {sink}" error.message
  | .ok shader =>
    let source := shader.source
    if shader.hasErrors then
      logErrors
        (failWith s!"compilation of node {sink} recorded {shader.errors.length} error(s)")
        shader.errors
    else match outputDir with
      | some folder => save folder sink source
      | none =>
        print s!"// {sink}.vert\n{source.vertex}\n"
          (print s!"// {sink}.frag\n{source.fragment}\n" done)

def ofOptions (options : Options) : Command :=
  match options.signatures with
  | some path => listSignatures path
  | none =>
    withGraph options.graph fun graph =>
      match sink graph options.node with
      | .error message => failWith message
      | .ok id => compileSink graph options.outputDir id

/-- What the program does with its arguments. -/
def ofArguments (arguments : List String) : Command :=
  match Options.parse arguments with
  | .error error => failWith error.message
  | .ok options => ofOptions options

end ShaderGraph.CommandLine
