import ShaderGraph.Definition
import ShaderGraph.Uniform.Basic

/-! Nodes of a graph. What a node is for shows in the fields that it stores:
`NodeFields` are those fields as they are written, and `NodeData` the same
sorted out by meaning. -/
namespace ShaderGraph

/-- What a node holds for its generator. -/
inductive Payload where
  | empty
  | literal (value : Option Binary64)
  | uniform (id : String) (value : Option Json)
  | function (definition : Definition) (code : String)

structure NodeData where
  name : String := ""
  kind : Option String := none
  payload : Payload := .empty
  extra : Json.Fields := []

/-- The fields of node data as they are written. -/
structure NodeFields where
  name : String := ""
  kind : Option String := none
  value : Option Json := none
  uniformId : Option String := none
  definitions : Option Definition := none
  code : Option String := none
  extra : Json.Fields := []

namespace NodeFields

/-- The fields that the payload does not take, a value among them. -/
def keepValue (fields : NodeFields) : Json.Fields :=
  match fields.value with
  | some value => fields.extra.insert "value" value
  | none => fields.extra

/-- A reference to a uniform comes first, then a function, then a literal. A
literal whose value is no number, and every other node, keeps its value aside. -/
def toData (fields : NodeFields) : NodeData :=
  let data (payload : Payload) (extra : Json.Fields) : NodeData :=
    { name := fields.name, kind := fields.kind, payload, extra }
  match fields.uniformId with
  | some id => data (.uniform id fields.value) fields.extra
  | none =>
    if fields.kind = some "function" || fields.definitions.isSome || fields.code.isSome then
      data (.function (fields.definitions.getD {}) (fields.code.getD "")) fields.keepValue
    else if fields.kind = some "float" then
      match fields.value.bind Json.toBinary64? with
      | some x => data (.literal (some x)) fields.extra
      | none => data (.literal none) fields.keepValue
    else data .empty fields.keepValue

end NodeFields

/-- A whole number of moderate size is written as an integer. -/
def numberJson (x : Binary64) : Json :=
  match x.toInt? with
  | some n => if n.natAbs < twoTo 63 then .ofInt n else .number (.float x)
  | none => if x.isFinite then .number (.float x) else .null

namespace NodeData

def toFields (data : NodeData) : NodeFields :=
  let aside := data.extra.find? "value"
  let fields : NodeFields :=
    { name := data.name, kind := data.kind, value := aside, extra := data.extra.erase "value" }
  match data.payload with
  | .empty => fields
  | .literal value => { fields with value := (value.map numberJson).or aside }
  | .uniform id value => { fields with uniformId := some id, value }
  | .function definition code =>
    { fields with definitions := some definition, code := some code }

/-- The number that the node stores, wherever it stores it. -/
def literal? (data : NodeData) : Option Binary64 :=
  match data.payload with
  | .literal value => value
  | .uniform _ value => value.bind Json.toBinary64?
  | _ => (data.extra.find? "value").bind Json.toBinary64?

/-- The data as which a reference to a uniform is compiled. -/
def ofUniform (name : String) (uniform : Uniform) : NodeData :=
  NodeFields.toData { name, kind := some uniform.kind.name, value := some uniform.value }

end NodeData

structure Node where
  id : String
  type : String
  data : NodeData := {}
  extra : Json.Fields := []

namespace Node

/-- The kind by which the node is compiled: that of its data or, without one, its type. -/
def kind (node : Node) : String := node.data.kind.getD node.type

/-- Whether the node's value comes from outside. -/
def isUniform (node : Node) : Bool := node.type == "uniform"

/-- The name of the node's variable. -/
def name (node : Node) : String := node.data.name

end Node

/-! ### Equality of numbers by value -/

def sameOption {α : Type} (same : α → α → Bool) : Option α → Option α → Bool
  | none, none => true
  | some a, some b => same a b
  | _, _ => false

def Payload.same : Payload → Payload → Bool
  | empty, empty => true
  | literal x, literal y => sameOption Binary64.same x y
  | uniform i a, uniform j b => i == j && sameOption Json.same a b
  | function d s, function e t => d == e && s == t
  | _, _ => false

def NodeData.same (a b : NodeData) : Bool :=
  a.name == b.name && a.kind == b.kind && a.payload.same b.payload &&
    Json.sameMembers a.extra b.extra

def Node.same (a b : Node) : Bool :=
  a.id == b.id && a.type == b.type && a.data.same b.data && Json.sameMembers a.extra b.extra

end ShaderGraph
