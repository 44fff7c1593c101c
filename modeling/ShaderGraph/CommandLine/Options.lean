/-! The options of the command line: flags, each with a value. -/
namespace ShaderGraph.CommandLine

inductive Flag where
  | graph
  | node
  | outputDir
  | signatures
deriving DecidableEq

namespace Flag

def ofText? (text : String) : Option Flag :=
  if text = "--graph" then some graph
  else if text = "--node" then some node
  else if text = "--outputdir" || text = "--output-dir" then some outputDir
  else if text = "--signatures" then some signatures
  else none

def text : Flag → String
  | graph => "--graph"
  | node => "--node"
  | outputDir => "--output-dir"
  | signatures => "--signatures"

end Flag

structure Options where
  graph : Option String := none
  node : Option String := none
  outputDir : Option String := none
  signatures : Option String := none
deriving DecidableEq

inductive OptionsError where
  | missingValue (flag : Flag)
  | unknownArgument (argument : String)
deriving DecidableEq

def OptionsError.message : OptionsError → String
  | missingValue flag => s!"missing value for {flag.text}"
  | unknownArgument argument =>
    s!"unknown argument: {argument} (supported: --graph <graph.json>, --node <id>, " ++
      "--output-dir <dir>, --signatures <file.glsl>)"

namespace Options

def set (options : Options) (value : String) : Flag → Options
  | .graph => { options with graph := some value }
  | .node => { options with node := some value }
  | .outputDir => { options with outputDir := some value }
  | .signatures => { options with signatures := some value }

/-- Reads arguments in pairs on top of options that are already set. -/
def parseOver (options : Options) : List String → Except OptionsError Options
  | [] => .ok options
  | [argument] =>
    match Flag.ofText? argument with
    | some flag => .error (.missingValue flag)
    | none => .error (.unknownArgument argument)
  | argument :: value :: arguments =>
    match Flag.ofText? argument with
    | some flag => parseOver (options.set value flag) arguments
    | none => .error (.unknownArgument argument)

def parse (arguments : List String) : Except OptionsError Options := parseOver {} arguments

end Options

end ShaderGraph.CommandLine
