import ShaderGraph.Compile.Registry
import ShaderGraph.Text.Hexadecimal

/-! The values that uniforms have while a frame is drawn. A value that does not
fit the kind of its uniform counts as zero. -/
namespace ShaderGraph

inductive UniformValue where
  | float (x : Binary32)
  | vec2 (x y : Binary32)
  | vec3 (x y z : Binary32)
deriving DecidableEq

/-- The clock of a frame, in seconds. -/
structure Frame where
  elapsed : Binary32 := .zero
  delta : Binary32 := .zero

structure Color where
  red : Binary32
  green : Binary32
  blue : Binary32
deriving DecidableEq

namespace Color

def black : Color := ⟨.zero, .zero, .zero⟩

def channel (n : Nat) : Binary32 := .ofQuotient false (n % 256) 255

/-- The colour with red, green and blue in the bytes of a number. -/
def ofRgb (n : Nat) : Color := ⟨channel (n / 65536), channel (n / 256), channel n⟩

def dropHash : List Char → List Char
  | '#' :: text => text
  | text => text

/-- The six digits that three stand for, as numbers: 17 times a digit is the byte of that digit
twice. -/
def widen (short : Nat) : Nat :=
  let red := (short >>> 8) &&& 0xF
  let green := (short >>> 4) &&& 0xF
  let blue := short &&& 0xF
  (red * 17) <<< 16 ||| (green * 17) <<< 8 ||| (blue * 17)

/-- Three or six hexadecimal digits, a `#` before them or not; each of three stands for two. -/
def ofHex? (text : String) : Option Color :=
  ((dropHash text.toList).mapM Text.hexValue?).bind fun digits =>
    let number := Text.ofHexDigits digits
    match digits.length with
    | 3 => some (ofRgb (widen number))
    | 6 => some (ofRgb number)
    | _ => none

end Color

/-- An array of numbers. -/
def Json.singles? : Json → Option (List Binary32)
  | .array items => items.mapM fun item => item.toBinary64?.map Binary64.toBinary32
  | _ => none

/-- A colour is written as hexadecimal digits, as one number, or as three. -/
def Color.ofJson? (json : Json) : Option Color :=
  match json with
  | .string text => Color.ofHex? text
  | .number _ => json.toNat?.bind fun n => if n ≤ 0xFFFFFF then some (Color.ofRgb n) else none
  | .array _ =>
    match json.singles? with
    | some [r, g, b] => some ⟨r, g, b⟩
    | _ => none
  | _ => none

def Color.value (color : Color) : UniformValue := .vec3 color.red color.green color.blue

namespace Uniform

/-- The stored colour, or black. -/
def color (uniform : Uniform) : Color := (Color.ofJson? uniform.value).getD .black

/-- The stored value, by the kind of the uniform. -/
def staticValue (uniform : Uniform) : UniformValue :=
  let number := (uniform.value.toBinary64?.map Binary64.toBinary32).getD .zero
  match uniform.kind with
  | .float => .float number
  | .time => .float number
  | .vec2 =>
    match uniform.value.singles? with
    | some [x, y] => .vec2 x y
    | _ => .vec2 .zero .zero
  | .vec3 =>
    match uniform.value.singles? with
    | some [x, y, z] => .vec3 x y z
    | _ => .vec3 .zero .zero .zero
  | .color => uniform.color.value

end Uniform

/-- The value that a kind of node gives a uniform anew in every frame. -/
def Generator.liveValue? (uniform : Uniform) (frame : Frame) : Generator → Option UniformValue
  | time => some (.float frame.elapsed)
  | color => some uniform.color.value
  | _ => none

/-- The value of a uniform in a frame: the live one of its kind, or else the stored one. -/
def Uniform.valueAt (registry : Registry) (frame : Frame) (uniform : Uniform) : UniformValue :=
  ((registry.find? uniform.kind.name).bind (·.liveValue? uniform frame)).getD uniform.staticValue

/-- The values of all uniforms in a frame, by name. -/
def uniformValues (registry : Registry) (uniforms : List Uniform) (frame : Frame) :
    Table UniformValue :=
  Table.ofList (uniforms.map fun u => (u.name, u.valueAt registry frame))

end ShaderGraph
