import ShaderGraph.Proofs.Resaving
import ShaderGraph.Proofs.Slots

/-!
What the records of a graph keep when they are saved. For each record, `Changed` lists what is
not written as it was read: nulls that stand for nothing, the one other spelling of a uniform's
type, and in the data of a node what its payload makes of it. A reference to a uniform has no
room for a function, and the definitions and the code beside it are lost
(`NodeData.Changed.dropped`, `reference_loses_code`). All else comes back
(`records_keep_members`).
-/

namespace ShaderGraph
open Json

/-! ## Edges -/

/-- An edge is written without a handle that is null. -/
inductive Edge.Changed : String → Document → Option Json → Prop
  | handle {key : String} (h : key ∈ ["sourceHandle", "targetHandle"]) : Changed key .null none

def EdgeDraft.slots (draft : EdgeDraft) : List (String × Option Json) :=
  [("id", draft.id.map .string), ("source", draft.source.map .string),
    ("target", draft.target.map .string), ("sourceHandle", draft.sourceHandle.join.map .string),
    ("targetHandle", draft.targetHandle.join.map .string)]

def EdgeDraft.view (draft : EdgeDraft) : String → Option Json := slotAt draft.slots draft.extra

theorem EdgeDraft.step_carries {draft draft' : EdgeDraft} {key : String} {document : Document}
    (h : draft.step key document = .ok draft') :
    (∀ other, other ≠ key → draft'.view other = draft.view other) ∧
      Carried Edge.Changed key document (draft'.view key) := by
  unfold step at h
  simp only at h
  split_ifs at h with h₁ h₂ h₃ h₄ h₅
  case neg =>
    obtain ⟨json, hjson, h⟩ := bind_eq_ok.mp h
    cases h
    exact slotAt_insert (by simp [slots, h₁, h₂, h₃, h₄, h₅]) hjson
  all_goals
    subst key
    refine putOnce_carries h (fun a ha => ?_) fun a other hother => by
      simp only [view, slotAt, slots, Table.find?, hother, ↓reduceIte]
    first
    | exact carried_text ha
    | exact carried_optionalText ha (.handle (by decide))

theorem Edge.keeps {room : Nat} {members : List (Option String × Document)} {cut : Option Break}
    {edge : Edge} (hfits : (Document.object members cut).Fits (room + 1))
    (h : Edge.decode (.object members cut) = .ok edge) :
    ∃ written, edge.encode = .object written ∧ Keeps members written Edge.Changed [] := by
  have hextra := Edge.decode_kept hfits h
  rw [decode] at h
  obtain ⟨draft, hdraft, h⟩ := bind_eq_ok.mp h
  obtain ⟨id, hid, h⟩ := bind_eq_ok.mp h
  obtain ⟨source, hsource, h⟩ := bind_eq_ok.mp h
  obtain ⟨target, htarget, h⟩ := bind_eq_ok.mp h
  cases h
  refine ⟨recordMembers draft.slots draft.extra, ?_, ?_⟩
  · simp [encode, recordMembers, EdgeDraft.slots, required_eq_ok.mp hid, required_eq_ok.mp hsource,
      required_eq_ok.mp htarget, optionalMember, optionalText]
  · have hkeys : draft.slots.map Prod.fst = edgeKeys := rfl
    exact keeps_of_steps (fun _ _ _ _ => EdgeDraft.step_carries)
      (slotAt_empty (by simp [EdgeDraft.slots])) hdraft hkeys (by decide) hextra

/-! ## Uniforms -/

/-- A uniform is written without a value that is null, and its type is written as a text
where it was spelled as an object. -/
inductive Uniform.Changed : String → Document → Option Json → Prop
  | value : Changed "value" .null none
  | spelling (kind : UniformKind) :
      Changed "type" (.object [(some kind.name, .null)] none) (some (.string kind.name))

theorem UniformKind.decode_eq_ok {document : Document} {kind : UniformKind}
    (h : UniformKind.decode document = .ok kind) :
    document = .string (some kind.name) ∨ document = .object [(some kind.name, .null)] none := by
  obtain ⟨name, hname, h⟩ := bind_eq_ok.mp h
  have hkind : ofName? name = some kind := by
    split at h
    · rename_i found hfound
      cases h
      exact hfound
    · cases h
  obtain rfl : kind.name = name := by
    simpa using List.find?_some hkind
  exact variant_eq_ok hname

def UniformDraft.slots (draft : UniformDraft) : List (String × Option Json) :=
  [("id", draft.id.map .string), ("name", draft.name.map .string),
    ("type", draft.kind.map fun kind => .string kind.name),
    ("value", draft.value.filter fun json => !json.isNull)]

def UniformDraft.view (draft : UniformDraft) : String → Option Json :=
  slotAt draft.slots draft.extra

theorem UniformDraft.step_carries {draft draft' : UniformDraft} {key : String}
    {document : Document} (h : draft.step key document = .ok draft') :
    (∀ other, other ≠ key → draft'.view other = draft.view other) ∧
      Carried Uniform.Changed key document (draft'.view key) := by
  unfold step at h
  split_ifs at h with h₁ h₂ h₃ h₄
  case neg =>
    obtain ⟨json, hjson, h⟩ := bind_eq_ok.mp h
    cases h
    exact slotAt_insert (by simp [slots, h₁, h₂, h₃, h₄]) hjson
  all_goals
    subst key
    refine putOnce_carries h (fun a ha => ?_) fun a other hother => by
      simp only [view, slotAt, slots, Table.find?, hother, ↓reduceIte]
  · exact carried_text ha
  · exact carried_text ha
  · rcases UniformKind.decode_eq_ok ha with rfl | rfl
    · exact .kept rfl
    · exact .changed (.spelling a)
  · change Carried _ _ _ ((some a).filter fun json => !json.isNull)
    cases a with
    | null =>
      rw [(value_eq_leaf ha).1 rfl]
      exact .changed .value
    | _ => exact .kept ha

theorem Uniform.keeps {room : Nat} {members : List (Option String × Document)}
    {cut : Option Break} {uniform : Uniform}
    (hfits : (Document.object members cut).Fits (room + 1))
    (h : Uniform.decode (.object members cut) = .ok uniform) :
    ∃ written, uniform.encode = .object written ∧ Keeps members written Uniform.Changed [] := by
  have hextra := (Uniform.decode_sound hfits h).extra
  rw [decode] at h
  obtain ⟨draft, hdraft, h⟩ := bind_eq_ok.mp h
  obtain ⟨id, hid, h⟩ := bind_eq_ok.mp h
  obtain ⟨name, hname, h⟩ := bind_eq_ok.mp h
  obtain ⟨kind, hkind, h⟩ := bind_eq_ok.mp h
  cases h
  refine ⟨recordMembers draft.slots draft.extra, ?_, ?_⟩
  · have hvalue : Uniform.value? ⟨id, name, kind, draft.value.getD .null, draft.extra⟩ =
        draft.value.filter fun json => !json.isNull := by
      cases hdv : draft.value with
      | none => rfl
      | some json => cases json <;> rfl
    simp [encode_eq, hvalue, recordMembers, UniformDraft.slots, required_eq_ok.mp hid,
      required_eq_ok.mp hname, required_eq_ok.mp hkind, optionalMember]
  · have hkeys : draft.slots.map Prod.fst = uniformKeys := rfl
    exact keeps_of_steps (fun _ _ _ _ => UniformDraft.step_carries)
      (slotAt_empty (by simp [UniformDraft.slots])) hdraft hkeys (by decide) hextra

/-! ## Nodes -/

/-- What becomes of the fields of a node before their meaning is known: nulls are left out, and
definitions are written with nothing but their sockets. -/
inductive NodeFields.Changed : String → Document → Option Json → Prop
  | omitted {key : String} (h : key ∈ ["type", "uniformId", "definitions", "code"]) :
      Changed key .null none
  | definitions {document : Document} {definition : Definition}
      (h : Definition.decode document = .ok definition) :
      Changed "definitions" document (some definition.encode)

/-- What becomes of them once it is. A function has definitions and code in any case, the number
of a literal is written anew, and a reference to a uniform loses what only a function has. -/
inductive NodeData.Changed : Payload → String → Document → Option Json → Prop
  | field {payload : Payload} {key : String} {document : Document} {written : Option Json}
      (h : NodeFields.Changed key document written) : Changed payload key document written
  | noDefinitions (definition : Definition) (code : String) :
      Changed (.function definition code) "definitions" .null (some (Definition.encode {}))
  | noCode (definition : Definition) (code : String) :
      Changed (.function definition code) "code" .null (some (.string ""))
  | number (x : Binary64) {document : Document} {n m : Number}
      (h : document.value = .ok (.number n)) (hsame : n.toBinary64.same m.toBinary64 = true) :
      Changed (.literal (some x)) "value" document (some (.number m))
  | dropped (id : String) (value : Option Json) {key : String} (document : Document)
      (h : key ∈ ["definitions", "code"]) : Changed (.uniform id value) key document none

def NodeDataDraft.slots (draft : NodeDataDraft) : List (String × Option Json) :=
  [("name", draft.name.map .string), ("type", draft.kind.join.map .string),
    ("value", draft.value), ("uniformId", draft.uniformId.join.map .string),
    ("definitions", draft.definitions.join.map Definition.encode),
    ("code", draft.code.join.map .string)]

def NodeDataDraft.view (draft : NodeDataDraft) : String → Option Json :=
  slotAt draft.slots draft.extra

theorem NodeDataDraft.step_carries {draft draft' : NodeDataDraft} {key : String}
    {document : Document} (h : draft.step key document = .ok draft') :
    (∀ other, other ≠ key → draft'.view other = draft.view other) ∧
      Carried NodeFields.Changed key document (draft'.view key) := by
  unfold step at h
  simp only at h
  split_ifs at h with h₁ h₂ h₃ h₄ h₅ h₆
  case neg =>
    obtain ⟨json, hjson, h⟩ := bind_eq_ok.mp h
    cases h
    exact slotAt_insert (by simp [slots, h₁, h₂, h₃, h₄, h₅, h₆]) hjson
  all_goals
    subst key
    refine putOnce_carries h (fun a ha => ?_) fun a other hother => by
      simp only [view, slotAt, slots, Table.find?, hother, ↓reduceIte]
  · exact carried_text ha
  · exact carried_optionalText ha (.omitted (by decide))
  · exact .kept ha
  · exact carried_optionalText ha (.omitted (by decide))
  · cases a with
    | none =>
      rw [optional_eq_none ha]
      exact .changed (.omitted (by decide))
    | some definition => exact .changed (.definitions (optional_eq_some ha))
  · exact carried_optionalText ha (.omitted (by decide))

def NodeFields.slots (fields : NodeFields) : List (String × Option Json) :=
  [("name", some (.string fields.name)), ("type", fields.kind.map .string),
    ("value", fields.value), ("uniformId", fields.uniformId.map .string),
    ("definitions", fields.definitions.map Definition.encode), ("code", fields.code.map .string)]

theorem NodeFields.encode_eq (fields : NodeFields) :
    fields.encode = .object (recordMembers fields.slots fields.extra) := by
  simp [encode, recordMembers, slots, optionalText, optionalMember]

namespace NodeFields

variable {members : List (Option String × Document)} {cut : Option Break} {fields : NodeFields}

theorem Changed.mem {key : String} {document : Document} {written : Option Json}
    (h : Changed key document written) : key ∈ ["type", "uniformId", "definitions", "code"] := by
  cases h with
  | omitted h => exact h
  | definitions _ => simp

/-- Only a null leaves a slot empty. -/
theorem Changed.eq_null {key : String} {document : Document}
    (h : Carried Changed key document none) : document = .null := by
  cases h with
  | changed h =>
    cases h
    rfl

/-- What is written outside the definitions is what was read. -/
theorem Changed.value_eq {key : String} {document : Document} {json : Json}
    (h : Carried Changed key document (some json)) (hkey : key ≠ "definitions") :
    document.value = .ok json := by
  cases h with
  | kept h => exact h
  | changed h =>
    cases h
    exact absurd rfl hkey

/-- The fields of a node hold what its members say; a name they have in any case. -/
theorem carries (h : NodeFields.decode (.object members cut) = .ok fields) (key : String) :
    (memberAt? members key = none → key ≠ "name" → slotAt fields.slots fields.extra key = none) ∧
      ∀ d, memberAt? members key = some d →
        Carried Changed key d (slotAt fields.slots fields.extra key) := by
  rw [decode] at h
  obtain ⟨draft, hdraft, h⟩ := bind_eq_ok.mp h
  cases h
  obtain ⟨hnone, hsome⟩ :=
    eachMember_carries (fun _ _ _ _ => NodeDataDraft.step_carries) hdraft key
  have hempty : NodeDataDraft.view {} key = none :=
    slotAt_empty (by simp [NodeDataDraft.slots]) key
  by_cases hkey : key = "name"
  · subst hkey
    refine ⟨fun _ hne => absurd rfl hne, fun d hd => ?_⟩
    have hcarried : Carried Changed "name" d (draft.name.map .string) := hsome d hd
    change Carried Changed "name" d (some (.string (draft.name.getD "")))
    cases hname : draft.name with
    | some name =>
      rw [hname] at hcarried
      exact hcarried
    | none =>
      rw [hname] at hcarried
      cases hcarried with
      | changed hchanged => exact absurd hchanged.mem (by decide)
  · have hsame : ∀ name, slotAt (slots ⟨name, draft.kind.join, draft.value, draft.uniformId.join,
        draft.definitions.join, draft.code.join, draft.extra⟩) draft.extra key = draft.view key := by
      intro name
      simp [NodeDataDraft.view, slotAt, slots, NodeDataDraft.slots, Table.find?, hkey]
    rw [hsame]
    exact ⟨fun hd _ => (hnone hd).trans hempty, hsome⟩

/-- A node refers to a uniform if its member says so with a text. -/
theorem uniformId_eq_some_iff (h : NodeFields.decode (.object members cut) = .ok fields)
    (id : String) : fields.uniformId = some id ↔
      memberAt? members "uniformId" = some (.string (some id)) := by
  obtain ⟨hnone, hsome⟩ := carries h "uniformId"
  change _ → _ → fields.uniformId.map Json.string = none at hnone
  change ∀ d, _ → Carried Changed "uniformId" d (fields.uniformId.map .string) at hsome
  constructor
  · intro hid
    rw [hid] at hnone hsome
    cases hmember : memberAt? members "uniformId" with
    | none => cases hnone hmember (by decide)
    | some d =>
      have hvalue := Changed.value_eq (hsome d hmember) (by decide)
      rw [(value_eq_leaf hvalue).2 id rfl]
  · intro hmember
    have hcarried := hsome _ hmember
    cases hid : fields.uniformId with
    | none =>
      rw [hid] at hcarried
      cases Changed.eq_null hcarried
    | some other =>
      rw [hid] at hcarried
      cases Changed.value_eq hcarried (by decide)
      rfl

end NodeFields

/-- The keys that node data may be written with although it was read without them. -/
def Payload.added : Payload → List String
  | .function _ _ => ["name", "definitions", "code"]
  | _ => ["name"]

/-- A literal is written as a number of the same value. -/
theorem numberJson_same {x : Binary64} (h : x.isFinite = true) :
    ∃ m : Number, numberJson x = .number m ∧ x.same m.toBinary64 = true := by
  have hread := toBinary64?_numberJson h
  cases hjson : numberJson x with
  | number m =>
    rw [hjson] at hread
    refine ⟨m, rfl, ?_⟩
    rw [show m.toBinary64 = x.saved from Option.some.inj hread]
    exact Binary64.same_saved h
  | _ =>
    rw [hjson] at hread
    cases hread

/-- What saving makes of a slot: a reference to a uniform clears those of a function, a function
fills them, and a number is written anew. -/
inductive Resaved : Payload → String → Option Json → Option Json → Prop
  | same (payload : Payload) (key : String) (slot : Option Json) : Resaved payload key slot slot
  | dropped (id : String) (value : Option Json) {key : String} (slot : Option Json)
      (h : key ∈ ["definitions", "code"]) : Resaved (.uniform id value) key slot none
  | noDefinitions (definition : Definition) (code : String) :
      Resaved (.function definition code) "definitions" none (some (Definition.encode {}))
  | noCode (definition : Definition) (code : String) :
      Resaved (.function definition code) "code" none (some (.string ""))
  | number {x : Binary64} {json : Json} (hx : toBinary64? json = some x)
      (hfinite : x.isFinite = true) :
      Resaved (.literal (some x)) "value" (some json) (some (numberJson x))

namespace NodeFields

variable {room : Nat} {fields saved : NodeFields} {data : NodeData}

theorem Shape.resaved (hshape : fields.Shape data saved) (hsound : fields.Sound room)
    (key : String) : Resaved data.payload key (slotAt fields.slots fields.extra key)
      (slotAt saved.slots saved.extra key) := by
  cases hshape with
  | reference name kind value id definitions code extra =>
    by_cases hkey : key ∈ ["definitions", "code"]
    · have hslot : slotAt (slots ⟨name, kind, value, some id, none, none, extra⟩) extra key =
          none := by
        simp only [List.mem_cons, List.not_mem_nil, or_false] at hkey
        rcases hkey with rfl | rfl <;> rfl
      rw [hslot]
      exact .dropped id value _ hkey
    · simp only [List.mem_cons, List.not_mem_nil, or_false, not_or] at hkey
      simp only [slotAt, slots, Table.find?, hkey, ↓reduceIte]
      exact .same ..
  | function name kind value definitions code extra hfunction =>
    by_cases hdefinitions : key = "definitions"
    · subst hdefinitions
      cases definitions with
      | none => exact .noDefinitions _ _
      | some definition => exact .same ..
    by_cases hcode : key = "code"
    · subst hcode
      cases code with
      | none => exact .noCode _ _
      | some code => exact .same ..
    simp only [slotAt, slots, Table.find?, hdefinitions, hcode, ↓reduceIte]
    exact .same ..
  | number name json x extra hx =>
    by_cases hvalue : key = "value"
    · subst hvalue
      exact .number hx (isFinite_toBinary64? (hsound.value json rfl).fits hx)
    · simp only [slotAt, slots, Table.find?, hvalue, ↓reduceIte]
      exact .same ..
  | unread name value extra hx => exact .same ..
  | plain name kind value extra hfunction hfloat => exact .same ..

theorem Shape.uniformId_eq_some_iff (hshape : fields.Shape data saved) (id : String) :
    fields.uniformId = some id ↔ ∃ value, data.payload = .uniform id value := by
  cases hshape <;> simp

/-- A reference to a uniform is saved without a function. -/
theorem Shape.no_function (hshape : fields.Shape data saved) {id : String} {value : Option Json}
    (h : data.payload = .uniform id value) : saved.definitions = none ∧ saved.code = none := by
  cases hshape with
  | reference => exact ⟨rfl, rfl⟩
  | _ => cases h

end NodeFields

/-- What the slots of a node carry, they carry after saving too, as far as the payload allows. -/
theorem Resaved.carried {payload : Payload} {key : String} {d : Document}
    {slot written : Option Json} (h : Resaved payload key slot written)
    (hslot : Carried NodeFields.Changed key d slot) :
    Carried (NodeData.Changed payload) key d written := by
  cases h with
  | same => exact hslot.mono .field
  | dropped id value slot hkey => exact .changed (.dropped id value d hkey)
  | noDefinitions definition code =>
    rw [NodeFields.Changed.eq_null hslot]
    exact .changed (.noDefinitions _ _)
  | noCode definition code =>
    rw [NodeFields.Changed.eq_null hslot]
    exact .changed (.noCode _ _)
  | @number x json hx hfinite =>
    obtain ⟨m, hm, hsame⟩ := numberJson_same hfinite
    have hvalue := NodeFields.Changed.value_eq hslot (by decide)
    cases json with
    | number n =>
      cases hx
      rw [hm]
      exact .changed (.number _ hvalue hsame)
    | _ => cases hx

/-- Only a function fills a slot that was empty. -/
theorem Resaved.eq_none {payload : Payload} {key : String} {written : Option Json}
    (h : Resaved payload key none written) (hkey : key ∉ payload.added) : written = none := by
  cases h with
  | same => rfl
  | dropped => rfl
  | noDefinitions => exact absurd (by simp [Payload.added]) hkey
  | noCode => exact absurd (by simp [Payload.added]) hkey

/-- Node data keeps all that its payload has room for. It refers to a uniform if there is a
`uniformId`, and then a function beside it is not written. -/
theorem NodeData.keeps {room : Nat} {members : List (Option String × Document)}
    {cut : Option Break} {data : NodeData}
    (hfits : (Document.object members cut).Fits (room + 1))
    (h : NodeData.decode (.object members cut) = .ok data) :
    ∃ written : Fields, data.encode = .object written ∧
      Keeps members written (NodeData.Changed data.payload) data.payload.added ∧
      ∀ id, (memberAt? members "uniformId" = some (.string (some id)) ↔
          ∃ value, data.payload = .uniform id value) ∧
        ∀ value, data.payload = .uniform id value →
          written.find? "definitions" = none ∧ written.find? "code" = none := by
  obtain ⟨fields, hfields, h⟩ := bind_eq_ok.mp h
  cases h
  have hsound := NodeFields.decode_sound hfits hfields
  have hshape := NodeFields.shape (hsound.extra.absent (show "value" ∈ nodeDataKeys by decide))
  have hextra := hsound.saved.1.extra
  have hcarries := NodeFields.carries hfields
  have hkeys : fields.toData.toFields.slots.map Prod.fst = nodeDataKeys := rfl
  refine ⟨_, NodeFields.encode_eq _, keeps_recordMembers hkeys (by decide) hextra ?_
    fun key d hd => (hshape.resaved hsound key).carried ((hcarries key).2 d hd), ?_⟩
  · intro key hnone hkey
    have hname : key ≠ "name" := by
      rintro rfl
      exact hkey (by cases fields.toData.payload <;> simp [Payload.added])
    have hresaved := hshape.resaved hsound key
    rw [(hcarries key).1 hnone hname] at hresaved
    exact hresaved.eq_none hkey
  · intro id
    refine ⟨(NodeFields.uniformId_eq_some_iff hfields id).symm.trans
      (hshape.uniformId_eq_some_iff id), fun value hpayload => ?_⟩
    obtain ⟨hdefinitions, hcode⟩ := hshape.no_function hpayload
    have hfind := find?_recordMembers (hkeys ▸ by decide) (hkeys ▸ hextra.undeclared)
    rw [hfind, hfind]
    simp [slotAt, NodeFields.slots, Table.find?, hdefinitions, hcode]

/-- The data of a node is written by the rules for node data. -/
inductive Node.Changed : String → Document → Option Json → Prop
  | data {document : Document} {data : NodeData} (h : NodeData.decode document = .ok data) :
      Changed "data" document (some data.encode)

def NodeDraft.slots (draft : NodeDraft) : List (String × Option Json) :=
  [("id", draft.id.map .string), ("type", draft.type.map .string),
    ("data", draft.data.map NodeData.encode)]

def NodeDraft.view (draft : NodeDraft) : String → Option Json := slotAt draft.slots draft.extra

theorem NodeDraft.step_carries {draft draft' : NodeDraft} {key : String} {document : Document}
    (h : draft.step key document = .ok draft') :
    (∀ other, other ≠ key → draft'.view other = draft.view other) ∧
      Carried Node.Changed key document (draft'.view key) := by
  unfold step at h
  split_ifs at h with h₁ h₂ h₃
  case neg =>
    obtain ⟨json, hjson, h⟩ := bind_eq_ok.mp h
    cases h
    exact slotAt_insert (by simp [slots, h₁, h₂, h₃]) hjson
  all_goals
    subst key
    refine putOnce_carries h (fun a ha => ?_) fun a other hother => by
      simp only [view, slotAt, slots, Table.find?, hother, ↓reduceIte]
  · exact carried_text ha
  · exact carried_text ha
  · exact .changed (.data ha)

theorem Node.keeps {room : Nat} {members : List (Option String × Document)} {cut : Option Break}
    {node : Node} (hfits : (Document.object members cut).Fits (room + 2))
    (h : Node.decode (.object members cut) = .ok node) :
    ∃ written, node.encode = .object written ∧ Keeps members written Node.Changed ["data"] := by
  have hextra := (Node.decode_sound hfits h).extra
  rw [decode] at h
  obtain ⟨draft, hdraft, h⟩ := bind_eq_ok.mp h
  obtain ⟨id, hid, h⟩ := bind_eq_ok.mp h
  obtain ⟨type, htype, h⟩ := bind_eq_ok.mp h
  cases h
  have hcarries := eachMember_carries (fun _ _ _ _ => NodeDraft.step_carries) hdraft
  -- A node is written with data in any case, so its slots are those of a draft that has some.
  let filled : NodeDraft := { draft with data := some (draft.data.getD {}) }
  have hkeys : filled.slots.map Prod.fst = nodeKeys := rfl
  refine ⟨recordMembers filled.slots draft.extra, ?_, ?_⟩
  · simp [encode, recordMembers, filled, NodeDraft.slots, required_eq_ok.mp hid,
      required_eq_ok.mp htype, optionalMember]
  have hother : ∀ key, key ≠ "data" → slotAt filled.slots draft.extra key = draft.view key := by
    intro key hkey
    simp [NodeDraft.view, slotAt, filled, NodeDraft.slots, Table.find?, hkey]
  refine keeps_recordMembers hkeys (by decide) hextra (fun key hnone hkey => ?_) fun key d hd => ?_
  · rw [hother key (by simpa using hkey), (hcarries key).1 hnone]
    exact slotAt_empty (by simp [NodeDraft.slots]) key
  · have hcarried := (hcarries key).2 d hd
    by_cases hkey : key = "data"
    · subst hkey
      change Carried Changed "data" d (draft.data.map NodeData.encode) at hcarried
      change Carried Changed "data" d (some (draft.data.getD {}).encode)
      cases hdata : draft.data with
      | some data =>
        rw [hdata] at hcarried
        exact hcarried
      | none =>
        rw [hdata] at hcarried
        cases hcarried with
        | changed hchanged => cases hchanged
    · rw [hother key hkey]
      exact hcarried

/-! ## All records -/

/-- **Saving loses no member of a record, but for a function beside a uniform.** Whatever object
an edge, a uniform, node data or a node is read off, each of its members is written again, as it
was or as the `Changed` of the record says, and no more is added than a name, the data of a node
and what makes a function whole. Definitions and code are lost just where there is a `uniformId`. -/
theorem records_keep_members (room : Nat) (members : List (Option String × Document))
    (cut : Option Break) (hfits : (Document.object members cut).Fits room) :
    (∀ edge, Edge.decode (.object members cut) = .ok edge →
      ∃ written, edge.encode = .object written ∧ Keeps members written Edge.Changed []) ∧
    (∀ uniform, Uniform.decode (.object members cut) = .ok uniform →
      ∃ written, uniform.encode = .object written ∧ Keeps members written Uniform.Changed []) ∧
    (∀ data, NodeData.decode (.object members cut) = .ok data →
      ∃ written : Fields, data.encode = .object written ∧
        Keeps members written (NodeData.Changed data.payload) data.payload.added ∧
        ∀ id, (memberAt? members "uniformId" = some (.string (some id)) ↔
            ∃ value, data.payload = .uniform id value) ∧
          ∀ value, data.payload = .uniform id value →
            written.find? "definitions" = none ∧ written.find? "code" = none) ∧
    ∀ node, Node.decode (.object members cut) = .ok node →
      ∃ written, node.encode = .object written ∧ Keeps members written Node.Changed ["data"] := by
  have hmore := hfits.mono (Nat.le_add_right room 2)
  exact ⟨fun _ => Edge.keeps hmore, fun _ => Uniform.keeps hmore, fun _ => NodeData.keeps hmore,
    fun _ => Node.keeps hmore⟩

/-- A function that refers to a uniform at once. -/
def referringMembers : List (Option String × Document) :=
  [(some "name", .string (some "u")), (some "uniformId", .string (some "1")),
    (some "definitions", .object [(some "inputs", .array [] none), (some "outputs", .array [] none)]
      none),
    (some "code", .string (some "float f();"))]

/-- A node without data, and with members that are not known. -/
def bareMembers : List (Option String × Document) :=
  [(some "id", .string (some "n")), (some "position", .object [(some "x", .null)] none),
    (some "type", .string (some "uv")), (some "position", .object [(some "y", .null)] none)]

theorem referringMembers_fits : (Document.object referringMembers none).Fits 3 := by
  refine .object ?_
  simp only [referringMembers, List.forall_mem_cons]
  refine ⟨.string _, .string _, .object ?_, .string _, by simp⟩
  simp only [List.forall_mem_cons]
  exact ⟨.array (by simp), .array (by simp), by simp⟩

theorem bareMembers_fits : (Document.object bareMembers none).Fits 2 := by
  refine .object ?_
  simp only [bareMembers, List.forall_mem_cons]
  refine ⟨.string _, .object ?_, .string _, .object ?_, by simp⟩
  · simp [Document.Fits.null]
  · simp [Document.Fits.null]

theorem records_keep_members_bare :
    (∃ written : Fields, (NodeData.mk "u" none (.uniform "1" none) []).encode = .object written ∧
      Keeps referringMembers written (NodeData.Changed (.uniform "1" none)) ["name"] ∧
      written.find? "definitions" = none ∧ written.find? "code" = none) ∧
    ∃ written, (Node.mk "n" "uv" {} [("position", .object [("y", .null)])]).encode =
        .object written ∧
      Keeps bareMembers written Node.Changed ["data"] := by
  constructor
  · obtain ⟨written, hwritten, hkeeps, hlost⟩ :=
      (records_keep_members 3 referringMembers none referringMembers_fits).2.2.1 _ rfl
    exact ⟨written, hwritten, hkeeps, (hlost "1").2 none rfl⟩
  · exact (records_keep_members 2 bareMembers none bareMembers_fits).2.2.2 _ rfl

/-- The code is read, is not null, and is not written. -/
theorem reference_loses_code :
    ∃ (data : NodeData) (written : Fields),
      NodeData.decode (.object referringMembers none) = .ok data ∧
      memberAt? referringMembers "code" = some (.string (some "float f();")) ∧
      data.encode = .object written ∧ written.find? "code" = none :=
  ⟨⟨"u", none, .uniform "1" none, []⟩,
    [("name", .string "u"), ("uniformId", .string "1")], rfl, rfl, rfl, rfl⟩

end ShaderGraph
