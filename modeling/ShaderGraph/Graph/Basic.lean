import ShaderGraph.Graph.Node

/-! Graphs: nodes, edges between their sockets, and uniforms. Ids need not be
unique; wherever something is looked up by its id, the last entry counts. -/
namespace ShaderGraph

structure Edge where
  id : String
  source : String
  target : String
  sourceHandle : Option String := none
  targetHandle : Option String := none
  extra : Json.Fields := []

structure Graph where
  nodes : List Node := []
  edges : List Edge := []
  uniforms : List Uniform := []

namespace Graph

def node? (graph : Graph) (id : String) : Option Node := graph.nodes.reverse.find? (·.id == id)
def edge? (graph : Graph) (id : String) : Option Edge := graph.edges.reverse.find? (·.id == id)

def uniform? (graph : Graph) (id : String) : Option Uniform :=
  graph.uniforms.reverse.find? (·.id == id)

/-- The edges into a node, in the order of the graph. An edge is taken by its id. -/
def inputEdges (graph : Graph) (id : String) : List Edge :=
  (graph.edges.filter (·.target == id)).filterMap (graph.edge? ·.id)

/-- The nodes at the other end of the edges into a node, as far as they exist. -/
def inputNodes (graph : Graph) (id : String) : List Node :=
  (graph.inputEdges id).filterMap (graph.node? ·.source)

/-- The first node that shows something. -/
def preview? (graph : Graph) : Option Node := graph.nodes.find? (·.kind == "preview")

end Graph

namespace Edge

/-- Whether the edge still fits a node whose definition has changed. An edge into
the node is judged by where it ends, one out of it by where it starts. -/
def fits (edge : Edge) (node : String) (definition : Definition) : Bool :=
  if edge.target = node then edge.targetHandle.any definition.hasInput
  else if edge.source = node then edge.sourceHandle.any definition.hasOutput
  else true

/-- The first edge into each handle. -/
def byHandle (edges : List Edge) : Table Edge :=
  edges.foldl (fun table edge =>
    match edge.targetHandle with
    | some handle => table.insertNew handle edge
    | none => table) []

def same (a b : Edge) : Bool :=
  a.id == b.id && a.source == b.source && a.target == b.target &&
    a.sourceHandle == b.sourceHandle && a.targetHandle == b.targetHandle &&
    Json.sameMembers a.extra b.extra

end Edge

namespace Graph

/-- Drops the edges that no longer fit a node, and counts them. -/
def retainFitting (graph : Graph) (node : String) (definition : Definition) : Graph × Nat :=
  let edges := graph.edges.filter (·.fits node definition)
  ({ graph with edges }, graph.edges.length - edges.length)

def sameList {α : Type} (same : α → α → Bool) : List α → List α → Bool
  | [], [] => true
  | a :: as, b :: bs => same a b && sameList same as bs
  | _, _ => false

/-- Equality in which numbers compare by kind and value. -/
def same (g h : Graph) : Bool :=
  sameList Node.same g.nodes h.nodes && sameList Edge.same g.edges h.edges &&
    sameList Uniform.same g.uniforms h.uniforms

end Graph

end ShaderGraph
