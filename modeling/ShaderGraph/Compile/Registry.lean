import ShaderGraph.Compile.Generator
import ShaderGraph.Text.Quoted

/-! The kinds of nodes that can be compiled, by name. -/
namespace ShaderGraph

abbrev Registry := Table Generator

namespace Registry

/-- The kinds that come with the program. -/
def builtin : Registry :=
  Table.ofList [("float", .literal), ("multiply", .operation "*"), ("add", .operation "+"),
    ("vec2", .vec2), ("vec3", .vec3), ("time", .time), ("color", .color), ("uniform", .uniform),
    ("function", .function), ("uv", .uv), ("preview", .preview)]

/-- A one-line description. -/
def describe (registry : Registry) : String :=
  "Registry \x7b kinds: [" ++ ", ".intercalate (registry.keys.map Text.quoted) ++ "] \x7d"

end Registry

end ShaderGraph
