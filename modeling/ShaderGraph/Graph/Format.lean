import ShaderGraph.Graph.Basic
import ShaderGraph.Json.Decode

/-! The JSON form of graphs and their parts. Nodes, node data, edges and uniforms
keep the members that they do not know; graphs, definitions and sockets pass
over them, and may also be written as arrays of their fields. -/
namespace ShaderGraph
open Json

/-- A member that is only written if there is something to write. -/
def optionalMember (name : String) : Option Json → List (String × Json)
  | some value => [(name, value)]
  | none => []

def optionalText (name : String) (value : Option String) : List (String × Json) :=
  optionalMember name (value.map .string)

/-! ### Sockets and definitions -/

structure SocketDraft where
  dataType : Option String := none
  name : Option String := none

def SocketDraft.step (draft : SocketDraft) (key : String) (document : Document) :
    Read SocketDraft := do
  if key = "type" then
    return { draft with dataType := ← once "type" draft.dataType Document.text document }
  else if key = "name" then
    return { draft with name := ← once "name" draft.name Document.text document }
  else
    document.skip
    return draft

def Socket.decode : Document → Read Socket
  | .object documents cut => do
    let draft ← eachMember SocketDraft.step cut {} documents
    let dataType ← required "type" draft.dataType
    let name ← required "name" draft.name
    return ⟨.ofName dataType, name⟩
  | .array documents cut => do
    let (dataType, documents) ← nextItem Document.text cut documents
    let dataType ← requiredItem 0 "struct Socket with 2 elements" dataType
    let (name, documents) ← nextItem Document.text cut documents
    let name ← requiredItem 1 "struct Socket with 2 elements" name
    lastItem cut documents
    return ⟨.ofName dataType, name⟩
  | document => document.refuse "struct Socket"

def Socket.encode (socket : Socket) : Json :=
  .object [("type", .string socket.dataType.name), ("name", .string socket.name)]

structure DefinitionDraft where
  inputs : Option (List Socket) := none
  outputs : Option (List Socket) := none

def DefinitionDraft.step (draft : DefinitionDraft) (key : String) (document : Document) :
    Read DefinitionDraft := do
  if key = "inputs" then
    return { draft with inputs := ← once "inputs" draft.inputs (Document.list Socket.decode) document }
  else if key = "outputs" then
    return { draft with
      outputs := ← once "outputs" draft.outputs (Document.list Socket.decode) document }
  else
    document.skip
    return draft

def Definition.decode : Document → Read Definition
  | .object documents cut => do
    let draft ← eachMember DefinitionDraft.step cut {} documents
    return ⟨draft.inputs.getD [], draft.outputs.getD []⟩
  | .array documents cut => do
    let (inputs, documents) ← nextItem (Document.list Socket.decode) cut documents
    let (outputs, documents) ← nextItem (Document.list Socket.decode) cut documents
    lastItem cut documents
    return ⟨inputs.getD [], outputs.getD []⟩
  | document => document.refuse "struct NodeDefinition"

def Definition.encode (definition : Definition) : Json :=
  .object [("inputs", .array (definition.inputs.map Socket.encode)),
    ("outputs", .array (definition.outputs.map Socket.encode))]

/-! ### Nodes -/

structure NodeDataDraft where
  name : Option String := none
  kind : Option (Option String) := none
  value : Option Json := none
  uniformId : Option (Option String) := none
  definitions : Option (Option Definition) := none
  code : Option (Option String) := none
  extra : Fields := []

def NodeDataDraft.step (draft : NodeDataDraft) (key : String) (document : Document) :
    Read NodeDataDraft := do
  let word := Document.optional Document.text
  if key = "name" then
    return { draft with name := ← once key draft.name Document.text document }
  else if key = "type" then
    return { draft with kind := ← once key draft.kind word document }
  else if key = "value" then
    return { draft with value := ← once key draft.value Document.value document }
  else if key = "uniformId" then
    return { draft with uniformId := ← once key draft.uniformId word document }
  else if key = "definitions" then
    return { draft with
      definitions := ← once key draft.definitions (Document.optional Definition.decode) document }
  else if key = "code" then
    return { draft with code := ← once key draft.code word document }
  else return { draft with extra := draft.extra.insert key (← document.value) }

def NodeFields.decode : Document → Read NodeFields
  | .object documents cut => do
    let draft ← eachMember NodeDataDraft.step cut {} documents
    return { name := draft.name.getD "", kind := draft.kind.join, value := draft.value
             uniformId := draft.uniformId.join, definitions := draft.definitions.join
             code := draft.code.join, extra := draft.extra }
  | document => document.refuse "struct RawNodeData"

def NodeFields.encode (fields : NodeFields) : Json :=
  .object (("name", .string fields.name) :: optionalText "type" fields.kind ++
    optionalMember "value" fields.value ++ optionalText "uniformId" fields.uniformId ++
    optionalMember "definitions" (fields.definitions.map Definition.encode) ++
    optionalText "code" fields.code ++ fields.extra)

def NodeData.decode (document : Document) : Read NodeData := do
  return (← NodeFields.decode document).toData

def NodeData.encode (data : NodeData) : Json := data.toFields.encode

structure NodeDraft where
  id : Option String := none
  type : Option String := none
  data : Option NodeData := none
  extra : Fields := []

def NodeDraft.step (draft : NodeDraft) (key : String) (document : Document) :
    Read NodeDraft := do
  if key = "id" then
    return { draft with id := ← once key draft.id Document.text document }
  else if key = "type" then
    return { draft with type := ← once key draft.type Document.text document }
  else if key = "data" then
    return { draft with data := ← once key draft.data NodeData.decode document }
  else return { draft with extra := draft.extra.insert key (← document.value) }

def Node.decode : Document → Read Node
  | .object documents cut => do
    let draft ← eachMember NodeDraft.step cut {} documents
    let id ← required "id" draft.id
    let type ← required "type" draft.type
    return ⟨id, type, draft.data.getD {}, draft.extra⟩
  | document => document.refuse "struct Node"

def Node.encode (node : Node) : Json :=
  .object ([("id", .string node.id), ("type", .string node.type), ("data", node.data.encode)] ++
    node.extra)

/-! ### Edges -/

structure EdgeDraft where
  id : Option String := none
  source : Option String := none
  target : Option String := none
  sourceHandle : Option (Option String) := none
  targetHandle : Option (Option String) := none
  extra : Fields := []

def EdgeDraft.step (draft : EdgeDraft) (key : String) (document : Document) :
    Read EdgeDraft := do
  let word := Document.optional Document.text
  if key = "id" then
    return { draft with id := ← once key draft.id Document.text document }
  else if key = "source" then
    return { draft with source := ← once key draft.source Document.text document }
  else if key = "target" then
    return { draft with target := ← once key draft.target Document.text document }
  else if key = "sourceHandle" then
    return { draft with sourceHandle := ← once key draft.sourceHandle word document }
  else if key = "targetHandle" then
    return { draft with targetHandle := ← once key draft.targetHandle word document }
  else return { draft with extra := draft.extra.insert key (← document.value) }

def Edge.decode : Document → Read Edge
  | .object documents cut => do
    let draft ← eachMember EdgeDraft.step cut {} documents
    let id ← required "id" draft.id
    let source ← required "source" draft.source
    let target ← required "target" draft.target
    return ⟨id, source, target, draft.sourceHandle.join, draft.targetHandle.join, draft.extra⟩
  | document => document.refuse "struct Edge"

def Edge.encode (edge : Edge) : Json :=
  .object ([("id", .string edge.id), ("source", .string edge.source),
    ("target", .string edge.target)] ++ optionalText "sourceHandle" edge.sourceHandle ++
    optionalText "targetHandle" edge.targetHandle ++ edge.extra)

/-! ### Uniforms -/

def UniformKind.decode (document : Document) : Read UniformKind := do
  let known := UniformKind.all.map UniformKind.name
  let name ← document.variant known
  match UniformKind.ofName? name with
  | some kind => return kind
  | none => throw (.mismatch (.unknownVariant name known))

structure UniformDraft where
  id : Option String := none
  name : Option String := none
  kind : Option UniformKind := none
  value : Option Json := none
  extra : Fields := []

def UniformDraft.step (draft : UniformDraft) (key : String) (document : Document) :
    Read UniformDraft := do
  if key = "id" then
    return { draft with id := ← once key draft.id Document.text document }
  else if key = "name" then
    return { draft with name := ← once key draft.name Document.text document }
  else if key = "type" then
    return { draft with kind := ← once key draft.kind UniformKind.decode document }
  else if key = "value" then
    return { draft with value := ← once key draft.value Document.value document }
  else return { draft with extra := draft.extra.insert key (← document.value) }

def Uniform.decode : Document → Read Uniform
  | .object documents cut => do
    let draft ← eachMember UniformDraft.step cut {} documents
    let id ← required "id" draft.id
    let name ← required "name" draft.name
    let kind ← required "type" draft.kind
    return ⟨id, name, kind, draft.value.getD .null, draft.extra⟩
  | document => document.refuse "struct Uniform"

def Uniform.encode (uniform : Uniform) : Json :=
  .object ([("id", .string uniform.id), ("name", .string uniform.name),
    ("type", .string uniform.kind.name)] ++
    (if uniform.value.isNull then [] else [("value", uniform.value)]) ++ uniform.extra)

/-! ### Graphs -/

structure GraphDraft where
  nodes : Option (List Node) := none
  edges : Option (List Edge) := none
  uniforms : Option (List Uniform) := none

def GraphDraft.step (draft : GraphDraft) (key : String) (document : Document) :
    Read GraphDraft := do
  if key = "nodes" then
    return { draft with nodes := ← once key draft.nodes (Document.list Node.decode) document }
  else if key = "edges" then
    return { draft with edges := ← once key draft.edges (Document.list Edge.decode) document }
  else if key = "uniforms" then
    return { draft with
      uniforms := ← once key draft.uniforms (Document.list Uniform.decode) document }
  else
    document.skip
    return draft

def Graph.decode : Document → Read Graph
  | .object documents cut => do
    let draft ← eachMember GraphDraft.step cut {} documents
    return ⟨draft.nodes.getD [], draft.edges.getD [], draft.uniforms.getD []⟩
  | .array documents cut => do
    let (nodes, documents) ← nextItem (Document.list Node.decode) cut documents
    let (edges, documents) ← nextItem (Document.list Edge.decode) cut documents
    let (uniforms, documents) ← nextItem (Document.list Uniform.decode) cut documents
    lastItem cut documents
    return ⟨nodes.getD [], edges.getD [], uniforms.getD []⟩
  | document => document.refuse "struct GraphSnapshot"

def Graph.encode (graph : Graph) : Json :=
  .object [("nodes", .array (graph.nodes.map Node.encode)),
    ("edges", .array (graph.edges.map Edge.encode)),
    ("uniforms", .array (graph.uniforms.map Uniform.encode))]

/-- Reads a graph from its text. -/
def Graph.ofText (text : String) : Read Graph := Json.read Graph.decode text

/-- The text as which a graph is saved. -/
def Graph.text (graph : Graph) : String := graph.encode.pretty

end ShaderGraph
