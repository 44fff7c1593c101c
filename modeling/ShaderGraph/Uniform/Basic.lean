import ShaderGraph.Json.Basic

/-! Uniforms: named values that a shader receives from outside. -/
namespace ShaderGraph

inductive UniformKind where
  | float
  | vec2
  | vec3
  | color
  | time
deriving DecidableEq

namespace UniformKind

def all : List UniformKind := [float, vec2, vec3, color, time]

/-- The name of the kind, which is also the kind of node that compiles it. -/
def name : UniformKind → String
  | float => "float"
  | vec2 => "vec2"
  | vec3 => "vec3"
  | color => "color"
  | time => "time"

def ofName? (name : String) : Option UniformKind := all.find? (·.name == name)

/-- The value of a new uniform. -/
def defaultValue : UniformKind → Json
  | float => .ofInt 0
  | vec2 => .array [.ofInt 0, .ofInt 0]
  | vec3 => .array [.ofInt 0, .ofInt 0, .ofInt 0]
  | color => .string "#000000"
  | time => .ofInt 0

end UniformKind

/-- A uniform as the graph stores it. Its value may be anything; null means that there is none. -/
structure Uniform where
  id : String
  name : String
  kind : UniformKind
  value : Json := .null
  extra : Json.Fields := []

namespace Uniform

/-- A new uniform, named for its kind and id. -/
def withDefault (id : String) (kind : UniformKind) : Uniform :=
  { id, kind, name := kind.name ++ "_" ++ id, value := kind.defaultValue }

def same (u v : Uniform) : Bool :=
  u.id == v.id && u.name == v.name && u.kind == v.kind && u.value.same v.value &&
    Json.sameMembers u.extra v.extra

end Uniform

end ShaderGraph
