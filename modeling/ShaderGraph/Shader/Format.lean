import ShaderGraph.Json.Decode
import ShaderGraph.Shader.Instruction

/-! The JSON form of instructions. A value read from JSON is text that nothing
is known about. -/
namespace ShaderGraph
open Json

def InstructionKind.decode (document : Document) : Read InstructionKind := do
  let known := InstructionKind.all.map InstructionKind.name
  let name ← document.variant known
  match InstructionKind.ofName? name with
  | some kind => return kind
  | none => throw (.mismatch (.unknownVariant name known))

structure InstructionDraft where
  kind : Option InstructionKind := none
  dataType : Option String := none
  name : Option String := none
  value : Option (Option String) := none

def InstructionDraft.step (draft : InstructionDraft) (key : String)
    (document : Document) : Read InstructionDraft := do
  if key = "type" then
    return { draft with kind := ← once key draft.kind InstructionKind.decode document }
  else if key = "dataType" then
    return { draft with dataType := ← once key draft.dataType Document.text document }
  else if key = "name" then
    return { draft with name := ← once key draft.name Document.text document }
  else if key = "value" then
    return { draft with
      value := ← once key draft.value (Document.optional Document.text) document }
  else
    document.skip
    return draft

/-- An instruction whose type and value are given as text. -/
def Instruction.ofText (kind : InstructionKind) (dataType name : String)
    (value : Option String) : Instruction :=
  ⟨kind, .ofName dataType, name, value.map .verbatim⟩

def Instruction.decode : Document → Read Instruction
  | .object documents cut => do
    let draft ← eachMember InstructionDraft.step cut {} documents
    let kind ← required "type" draft.kind
    let dataType ← required "dataType" draft.dataType
    let name ← required "name" draft.name
    return .ofText kind dataType name draft.value.join
  | .array documents cut => do
    let expected := "struct Instruction with 4 elements"
    let (kind, documents) ← nextItem InstructionKind.decode cut documents
    let kind ← requiredItem 0 expected kind
    let (dataType, documents) ← nextItem Document.text cut documents
    let dataType ← requiredItem 1 expected dataType
    let (name, documents) ← nextItem Document.text cut documents
    let name ← requiredItem 2 expected name
    let (value, documents) ← nextItem (Document.optional Document.text) cut documents
    lastItem cut documents
    return .ofText kind dataType name value.join
  | document => document.refuse "struct Instruction"

def Instruction.encode (i : Instruction) : Json :=
  .object ([("type", .string i.kind.name), ("dataType", .string i.dataType.name),
    ("name", .string i.name)] ++ (i.value.map fun v => ("value", Json.string v.text)).toList)

end ShaderGraph
