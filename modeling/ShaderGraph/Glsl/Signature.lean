import ShaderGraph.Definition

/-! Function headers of shader source, and the node shape that a header stands
for. -/
namespace ShaderGraph.Glsl

structure Signature where
  returnType : String
  name : String
  parameters : List Socket
  hasBody : Bool
deriving DecidableEq

namespace Signature

/-- A node can be made of a function that returns nothing, a number or a short vector. -/
def isSupported (s : Signature) : Bool := ["void", "float", "vec2", "vec3"].contains s.returnType

/-- Parameters are inputs; a value that is returned is an output named like the function. -/
def toDefinition (s : Signature) : Definition :=
  { inputs := s.parameters
    outputs := if s.returnType = "void" then [] else [⟨.ofName s.returnType, s.name⟩] }

end Signature

end ShaderGraph.Glsl
