import ShaderGraph.Compile.Pass
import ShaderGraph.Graph.Basic

/-! Generators: what each kind of node adds to a compilation once its inputs are
compiled. -/
namespace ShaderGraph

inductive Generator where
  | literal
  | operation (operator : String)
  | vec2
  | vec3
  | time
  | color
  | uniform
  | function
  | uv
  | preview
deriving DecidableEq

namespace Generator

def floats (names : List String) : List Socket := names.map (⟨.float, ·⟩)

/-- The shape of a new node of the kind. -/
def definition : Generator → Definition
  | literal => ⟨floats ["input"], [⟨.float, "output"⟩]⟩
  | operation _ => ⟨floats ["a", "b"], [⟨.float, "output"⟩]⟩
  | vec2 => ⟨floats ["x", "y"], [⟨.vec2, "output"⟩]⟩
  | vec3 => ⟨floats ["x", "y", "z"], [⟨.vec3, "output"⟩]⟩
  | time => ⟨[], [⟨.float, "elapsed"⟩]⟩
  | color => ⟨[], [⟨.vec3, "color"⟩]⟩
  | uniform => {}
  | function => {}
  | uv => ⟨[], [⟨.vec2, "vec2"⟩]⟩
  | preview => ⟨[⟨.vec3, "color"⟩, ⟨.float, "alpha"⟩], []⟩

/-- What an editor shows inside a node of the kind. -/
def blocks : Generator → List String
  | function => ["function"]
  | preview => ["preview"]
  | _ => []

/-- The constant for what is not connected. -/
def one : Operand := .constant "1."

/-- The variable of a node, or the constant one if there is none. -/
def operand (pass : Pass) (source : Option String) : Operand :=
  ((source.bind pass.variableName?).map .reference).getD one

/-- The instruction that gives a node its value: a node whose value comes from
outside only declares it. -/
def valueInstruction (node : Node) (type : DataType) (value : Expression) : Instruction :=
  if node.isUniform then ⟨.uniform, type, node.name, none⟩
  else ⟨.assign, type, node.name, some value⟩

/-- The node at the other end of the first edge into a handle. -/
def sourceAt? (edges : List Edge) (handle : String) : Option String :=
  ((Edge.byHandle edges).find? handle).map Edge.source

def emitLiteral (node : Node) (pass : Pass) : Pass :=
  let value := (node.data.literal?.map fun x => Operand.constant (literalText x)).getD one
  pass.add node.id (valueInstruction node .float (.operand value))

def emitOperation (operator : String) (graph : Graph) (node : Node) (pass : Pass) : Pass :=
  match graph.inputEdges node.id with
  | [left, right] =>
    match pass.declaration? left.source with
    | none => pass.fail (.undeclaredInput node.id left.source)
    | some declared =>
      match pass.variableName? right.source with
      | none => pass.fail (.undeclaredInput node.id right.source)
      | some name =>
        pass.add node.id
          (valueInstruction node declared.dataType (.operation operator declared.name name))
  | edges => pass.fail (.insufficientInputs node.id operator 2 edges.length)

def emitVector (type : DataType) (handles : List String) (graph : Graph) (node : Node)
    (pass : Pass) : Pass :=
  let edges := graph.inputEdges node.id
  let components := handles.map fun handle => operand pass (sourceAt? edges handle)
  pass.add node.id (valueInstruction node type (.construct type components))

def emitFunction (graph : Graph) (node : Node) (pass : Pass) : Pass :=
  match node.data.payload with
  | .function definition code =>
    match definition.output? with
    | none => pass
    | some output =>
      let edges := graph.inputEdges node.id
      let arguments := definition.inputs.filterMap fun input =>
        (sourceAt? edges input.name).bind pass.variableName?
      let pass := pass.add node.id ⟨.imported, output.dataType, node.name, some (.verbatim code)⟩
      pass.add node.id ⟨.assign, output.dataType, node.name, some (.call output.name arguments)⟩
  | _ => pass

/-- The colour as which a variable is shown, if its type can be shown. -/
def shownColor? (type : DataType) (name : String) : Option Expression :=
  match type with
  | .float => some (.construct .vec3 [.reference name])
  | .vec2 => some (.construct .vec3 [.reference name, .constant "1"])
  | .vec3 => some (.operand (.reference name))
  | _ => none

def emitPreview (graph : Graph) (node : Node) (pass : Pass) : Pass :=
  match graph.inputEdges node.id with
  | [] => pass
  | first :: more =>
    match pass.declaration? first.source with
    | none => pass.fail (.undeclaredInput node.id first.source)
    | some declared =>
      match shownColor? declared.dataType declared.name with
      | none => pass.fail (.unsupportedOutputType node.id declared.dataType)
      | some shown =>
        let alpha := Expression.operand (operand pass (more.head?.map Edge.source))
        let fragment := renderFragment pass.instructions shown alpha
        { pass with source := { vertex := passthroughVertex, fragment } }

/-- What a node adds to the pass. A reference to a uniform adds nothing by itself. -/
def emit (graph : Graph) (node : Node) (pass : Pass) : Generator → Pass
  | literal => emitLiteral node pass
  | operation operator => emitOperation operator graph node pass
  | vec2 => emitVector .vec2 ["x", "y"] graph node pass
  | vec3 => emitVector .vec3 ["x", "y", "z"] graph node pass
  | time => pass.add node.id ⟨.uniform, .float, node.name, none⟩
  | color => pass.add node.id ⟨.uniform, .vec3, node.name, none⟩
  | uniform => pass
  | function => emitFunction graph node pass
  | uv => pass.add node.id ⟨.varying, .vec2, "vUv", none⟩
  | preview => emitPreview graph node pass

end Generator

end ShaderGraph
