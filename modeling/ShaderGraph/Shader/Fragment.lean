import ShaderGraph.Text.Blank
import ShaderGraph.Shader.Instruction

/-! Shader source. Declarations and imported functions go to the head of the
fragment shader, assignments into its body. -/
namespace ShaderGraph

structure ShaderSource where
  vertex : String := ""
  fragment : String := ""
deriving DecidableEq

/-- The vertex shader of every preview; it hands on the texture coordinates. -/
def passthroughVertex : String :=
  "varying vec2 vUv;\nvoid main() \x7b\n    vUv = uv;\n" ++
    "    gl_Position = projectionMatrix * modelViewMatrix * vec4(position, 1.0);\n\x7d\n"

namespace Instruction

/-- What the instruction adds to the head of a fragment shader. -/
def headerText (i : Instruction) : String :=
  match i.kind with
  | .imported => Text.trimEnd i.valueText ++ "\n"
  | .assign => ""
  | _ => i.kind.name ++ " " ++ i.dataType.name ++ " " ++ i.name ++ ";\n"

/-- What the instruction adds to the body of a fragment shader. -/
def bodyText (i : Instruction) : String :=
  match i.kind with
  | .assign => "    " ++ i.dataType.name ++ " " ++ i.name ++ " = " ++ i.valueText ++ ";\n"
  | _ => ""

end Instruction

/-- The fragment shader that runs the instructions and shows a colour. -/
def renderFragment (instructions : List Instruction) (color alpha : Expression) : String :=
  String.join (instructions.map Instruction.headerText) ++ "void main() \x7b\n" ++
    String.join (instructions.map Instruction.bodyText) ++
    "    gl_FragColor = vec4(" ++ color.text ++ ", " ++ alpha.text ++ ");\n\x7d\n"

end ShaderGraph
