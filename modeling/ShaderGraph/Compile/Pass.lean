import ShaderGraph.Shader.Fragment
import ShaderGraph.Table

/-! The state of a compilation: what has been emitted so far, and what went
wrong. -/
namespace ShaderGraph

/-- What is wrong with one node. Compilation goes on, but gives no shader. -/
inductive CompileError where
  | insufficientInputs (node operator : String) (expected found : Nat)
  | undeclaredInput (node source : String)
  | unsupportedOutputType (node : String) (dataType : DataType)
deriving DecidableEq

def CompileError.message : CompileError → String
  | insufficientInputs node operator expected found =>
    s!"node {node} ({operator}) expects {expected} inputs, got {found}"
  | undeclaredInput node source => s!"node {node} reads input node {source} which declared nothing"
  | unsupportedOutputType node dataType =>
    s!"node {node} cannot preview a value of type {dataType.name}"

/-- What stops a compilation. -/
inductive RunError where
  | unknownNodeKind (node kind : String)
  | cyclicGraph (node : String)
deriving DecidableEq

def RunError.message : RunError → String
  | unknownNodeKind node kind => s!"node {node} has unknown kind `{kind}`"
  | cyclicGraph node => s!"cycle detected in graph at node {node}"

/-- An instruction, and the node for which it was emitted. -/
structure Emission where
  node : String
  instruction : Instruction
deriving DecidableEq

/-- A compilation under way; `visiting` are the nodes whose inputs are being compiled. -/
structure Pass where
  emissions : Array Emission := #[]
  declarations : Table Declaration := []
  errors : Array CompileError := #[]
  visiting : List String := []
  source : ShaderSource := {}

namespace Pass

/-- What has been emitted, in order. -/
def instructions (pass : Pass) : List Instruction :=
  pass.emissions.toList.map Emission.instruction

def declaration? (pass : Pass) (node : String) : Option Declaration :=
  pass.declarations.find? node

def dataType? (pass : Pass) (node : String) : Option DataType :=
  (pass.declaration? node).map Declaration.dataType

def variableName? (pass : Pass) (node : String) : Option String :=
  (pass.declaration? node).map Declaration.name

/-- The instruction as it is emitted for a node with this declaration. A second
declaration is dropped, and assigning anew to a variable is a reassignment. -/
def accept (declared : Option Declaration) (i : Instruction) : Option Instruction :=
  match declared with
  | none => some i
  | some d =>
    if i.kind.isDeclareOnce then none
    else if i.kind = .assign && d.kind.isAssignment then some { i with kind := .reassign }
    else some i

/-- Emits an instruction for a node. -/
def add (pass : Pass) (node : String) (i : Instruction) : Pass :=
  match accept (pass.declaration? node) i with
  | none => pass
  | some i =>
    { pass with
      emissions := pass.emissions.push ⟨node, i⟩
      declarations := pass.declarations.insert node i.declaration }

/-- Records an error. -/
def fail (pass : Pass) (error : CompileError) : Pass :=
  { pass with errors := pass.errors.push error }

def hasErrors (pass : Pass) : Bool := !pass.errors.isEmpty

end Pass

/-- The outcome of a compilation that was not stopped. -/
structure CompiledShader where
  source : ShaderSource := {}
  errors : List CompileError := []
deriving DecidableEq

namespace CompiledShader

def hasErrors (shader : CompiledShader) : Bool := !shader.errors.isEmpty
def isEmpty (shader : CompiledShader) : Bool :=
  shader.source.vertex.isEmpty && shader.source.fragment.isEmpty

end CompiledShader

/-- Where something went wrong there is no shader. -/
def Pass.finish (pass : Pass) : CompiledShader :=
  if pass.hasErrors then { errors := pass.errors.toList } else { source := pass.source }

end ShaderGraph
