import ShaderGraph.Graph.Basic

/-! The graph that comes with the program: a coloured wave. -/
namespace ShaderGraph.Graph

private def place (x y : Int) : Json.Fields :=
  [("position", .object [("x", .ofInt x), ("y", .ofInt y)])]

private def waveSource : String :=
  "float wave(vec2 uv, float time) \x7b\n  return 0.5 + 0.5 * sin(uv.x * 10.0 + time);\n\x7d"

private def wave : Definition :=
  { inputs := [⟨.vec2, "uv"⟩, ⟨.float, "time"⟩], outputs := [⟨.float, "wave"⟩] }

private def data (name kind : String) (payload : Payload) : NodeData :=
  { name, kind := some kind, payload }

private def edge (source sourceHandle target targetHandle : String) : Edge :=
  { id := "e" ++ source ++ "-" ++ target, source, target
    sourceHandle := some sourceHandle, targetHandle := some targetHandle }

def sample : Graph where
  nodes :=
    [⟨"3", "uniform", data "time_1" "time" (.uniform "1" (some (.ofInt 0))), place 40 260⟩,
      ⟨"4", "node", data "uv_4" "uv" .empty, place 40 140⟩,
      ⟨"5", "function", data "wave_5" "function" (.function wave waveSource), place 280 180⟩,
      ⟨"6", "uniform", data "color_2" "color" (.uniform "2" (some (.string "#ff8800"))), place 280 40⟩,
      ⟨"7", "node", data "multiply_7" "multiply" .empty, place 520 120⟩,
      ⟨"8", "node", data "float_8" "float" (.literal (some .one)), place 520 300⟩,
      ⟨"9", "node", data "preview_9" "preview" .empty, place 760 180⟩]
  edges :=
    [edge "7" "output" "9" "color", edge "8" "output" "9" "alpha", edge "6" "color" "7" "a",
      edge "5" "wave" "7" "b", edge "4" "vec2" "5" "uv", edge "3" "elapsed" "5" "time"]
  uniforms :=
    [{ id := "1", name := "time_1", kind := .time, value := .ofInt 0 },
      { id := "2", name := "color_2", kind := .color, value := .string "#ff8800" }]

end ShaderGraph.Graph
