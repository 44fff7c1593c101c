/-! The shape of a node: typed, named sockets for what it takes and what it
gives. -/
namespace ShaderGraph

/-- A type of the shading language. Types that no node treats specially are kept by name. -/
inductive DataType where
  | float
  | vec2
  | vec3
  | vec4
  | other (name : String)
deriving DecidableEq

namespace DataType

def ofName (name : String) : DataType :=
  if name = "float" then .float
  else if name = "vec2" then .vec2
  else if name = "vec3" then .vec3
  else if name = "vec4" then .vec4
  else .other name

def name : DataType → String
  | float => "float"
  | vec2 => "vec2"
  | vec3 => "vec3"
  | vec4 => "vec4"
  | other name => name

end DataType

structure Socket where
  dataType : DataType
  name : String
deriving DecidableEq

structure Definition where
  inputs : List Socket := []
  outputs : List Socket := []
deriving DecidableEq

namespace Definition

/-- The socket that carries the value of the node. -/
def output? (d : Definition) : Option Socket := d.outputs.head?

def hasInput (d : Definition) (name : String) : Bool := d.inputs.any (·.name == name)
def hasOutput (d : Definition) (name : String) : Bool := d.outputs.any (·.name == name)

end Definition

end ShaderGraph
