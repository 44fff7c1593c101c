import ShaderGraph.Proofs.Outline

/-!
What a node declares, said by rules over the graph and without any pass: which nodes
declare a variable (`Declares`), and of what type (`HasType`). With the built-in kinds
the rules agree with what the nodes hand in (`declares_iff`, `hasType_iff`).
-/

namespace ShaderGraph

variable {graph : Graph}

/-- The type of the variable that is compiled for a uniform. -/
def UniformKind.dataType : UniformKind → DataType
  | float => .float
  | vec2 => .vec2
  | vec3 => .vec3
  | color => .vec3
  | time => .float

/-- The types of nodes whose kind fixes it. -/
def fixedTypes : Table DataType :=
  [("float", .float), ("time", .float), ("uv", .vec2), ("vec2", .vec2), ("color", .vec3),
    ("vec3", .vec3)]

/-- The node is a product or a sum. -/
def Node.isArithmetic (node : Node) : Prop := node.kind = "multiply" ∨ node.kind = "add"

/-- The nodes that declare a variable. -/
inductive Declares (graph : Graph) : String → Prop
  | fixed {id : String} {node : Node} : graph.node? id = some node →
      node.kind ∈ ["float", "vec2", "vec3", "time", "color", "uv"] → Declares graph id
  | uniform {id u : String} {node : Node} {value : Option Json} : graph.node? id = some node →
      node.kind = "uniform" → node.data.payload = .uniform u value →
      (graph.uniform? u).isSome → Declares graph id
  | function {id code : String} {node : Node} {definition : Definition} :
      graph.node? id = some node → node.kind = "function" →
      node.data.payload = .function definition code → definition.outputs ≠ [] →
      Declares graph id
  | arithmetic {id : String} {node : Node} {left right : Edge} : graph.node? id = some node →
      node.isArithmetic → graph.inputEdges id = [left, right] →
      Declares graph left.source → Declares graph right.source → Declares graph id

/-- The types of nodes, told from the graph. -/
inductive HasType (graph : Graph) : String → DataType → Prop
  | fixed {id : String} {node : Node} {type : DataType} : graph.node? id = some node →
      fixedTypes.find? node.kind = some type → HasType graph id type
  | uniform {id u : String} {node : Node} {value : Option Json} {found : Uniform} :
      graph.node? id = some node → node.kind = "uniform" →
      node.data.payload = .uniform u value → graph.uniform? u = some found →
      HasType graph id found.kind.dataType
  | function {id code : String} {node : Node} {definition : Definition} {output : Socket}
      {more : List Socket} : graph.node? id = some node → node.kind = "function" →
      node.data.payload = .function definition code → definition.outputs = output :: more →
      HasType graph id output.dataType
  | arithmetic {id : String} {node : Node} {first : Edge} {more : List Edge} {type : DataType} :
      graph.node? id = some node → node.isArithmetic → graph.inputEdges id = first :: more →
      HasType graph first.source type → HasType graph id type

/-! ## The built-in kinds -/

theorem builtin_eq : Registry.builtin =
    [("add", .operation "+"), ("color", .color), ("float", .literal), ("function", .function),
      ("multiply", .operation "*"), ("preview", .preview), ("time", .time), ("uniform", .uniform),
      ("uv", .uv), ("vec2", .vec2), ("vec3", .vec3)] := by
  decide +kernel

theorem dispatch_of_kind {node : Node} {g : Generator}
    (h : Registry.builtin.find? node.kind = some g) (hg : g ≠ .uniform) :
    dispatch Registry.builtin graph node = .ok (g, node) := by
  unfold dispatch
  simp only [h]
  cases g <;> first | rfl | exact absurd rfl hg

/-- The type of a node by its kind, given the types of others. -/
def typeStep (graph : Graph) (node : Node) (typeOf : String → Option DataType) :
    Option DataType :=
  if node.kind = "uniform" then
    match node.data.payload with
    | .uniform u _ => (graph.uniform? u).map fun found => found.kind.dataType
    | _ => none
  else if node.kind = "function" then
    match node.data.payload with
    | .function definition _ => definition.output?.map Socket.dataType
    | _ => none
  else if node.kind = "multiply" ∨ node.kind = "add" then
    match graph.inputEdges node.id with
    | [left, right] => (typeOf left.source).bind fun type => (typeOf right.source).map fun _ => type
    | _ => none
  else fixedTypes.find? node.kind

theorem valueInstruction_socket (node : Node) (type : DataType) (value : Expression) :
    (Generator.valueInstruction node type value).socket = ⟨type, node.name⟩ := by
  unfold Generator.valueInstruction
  split <;> rfl

theorem outlineStep_of_dispatch {registry : Registry} {node seen : Node} {g : Generator}
    (h : dispatch registry graph node = .ok (g, seen)) (offered : String → Option Socket) :
    outlineStep registry graph node offered =
      (match g.plan graph seen offered with
      | .error _ => []
      | .ok is => is).getLast?.map Instruction.socket := by
  cases hp : g.plan graph seen offered <;> simp [outlineStep, plannedFrom, h, hp]

/-- A kind that fixes the type of its nodes hands in one variable of that type. -/
theorem plan_fixed {kind : String} {type : DataType} (h : fixedTypes.find? kind = some type)
    (node : Node) (offered : String → Option Socket) :
    ∃ g, Registry.builtin.find? kind = some g ∧ g ≠ .uniform ∧
      ∃ i, g.plan graph node offered = .ok [i] ∧ i.socket.dataType = type := by
  simp only [fixedTypes, Table.find?] at h
  split at h
  · rename_i hk
    cases h
    exact ⟨.literal, by rw [hk, builtin_eq]; rfl, by simp, _, rfl,
      by rw [valueInstruction_socket]⟩
  split at h
  · rename_i hk
    cases h
    exact ⟨.time, by rw [hk, builtin_eq]; rfl, by simp, _, rfl, rfl⟩
  split at h
  · rename_i hk
    cases h
    exact ⟨.uv, by rw [hk, builtin_eq]; rfl, by simp, _, rfl, rfl⟩
  split at h
  · rename_i hk
    cases h
    exact ⟨.vec2, by rw [hk, builtin_eq]; rfl, by simp, _, rfl,
      by rw [Generator.planVector, valueInstruction_socket]⟩
  split at h
  · rename_i hk
    cases h
    exact ⟨.color, by rw [hk, builtin_eq]; rfl, by simp, _, rfl, rfl⟩
  split at h
  · rename_i hk
    cases h
    exact ⟨.vec3, by rw [hk, builtin_eq]; rfl, by simp, _, rfl,
      by rw [Generator.planVector, valueInstruction_socket]⟩
  · cases h

theorem fixedTypes_uniform (kind : UniformKind) :
    fixedTypes.find? kind.name = some kind.dataType := by
  cases kind <;> simp [fixedTypes, Table.find?, UniformKind.name, UniformKind.dataType]

/-- The generator that compiles a reference to a uniform gives its type. -/
theorem outlineStep_uniform {node : Node} (hk : node.kind = "uniform")
    (offered : String → Option Socket) :
    (outlineStep Registry.builtin graph node offered).map Socket.dataType =
      match node.data.payload with
      | .uniform u _ => (graph.uniform? u).map fun found => found.kind.dataType
      | _ => none := by
  have hg : Registry.builtin.find? node.kind = some .uniform := by rw [hk, builtin_eq]; rfl
  cases hp : node.data.payload with
  | uniform u value =>
    cases hu : graph.uniform? u with
    | none =>
      have hd : dispatch Registry.builtin graph node = .ok (.uniform, node) := by
        simp [dispatch, hg, hp, hu]
      rw [outlineStep_of_dispatch hd]
      simp [hu, Generator.plan]
    | some found =>
      have hfixed := fixedTypes_uniform found.kind
      obtain ⟨g, hfind, _, i, hplan, htype⟩ :
          ∃ g, Registry.builtin.find? found.kind.name = some g ∧ g ≠ .uniform ∧
            ∃ i, g.plan graph { node with data := .ofUniform node.name found } offered = .ok [i] ∧
              i.socket.dataType = found.kind.dataType := plan_fixed hfixed _ offered
      have hd : dispatch Registry.builtin graph node =
          .ok (g, { node with data := .ofUniform node.name found }) := by
        simp [dispatch, hg, hp, hu, hfind]
      rw [outlineStep_of_dispatch hd, hplan]
      simp [hu, htype]
  | _ =>
    have hd : dispatch Registry.builtin graph node = .ok (.uniform, node) := by
      simp [dispatch, hg, hp]
    rw [outlineStep_of_dispatch hd]
    rfl

theorem outlineStep_function {node : Node} (hk : node.kind = "function")
    (offered : String → Option Socket) :
    (outlineStep Registry.builtin graph node offered).map Socket.dataType =
      match node.data.payload with
      | .function definition _ => definition.output?.map Socket.dataType
      | _ => none := by
  have hg : Registry.builtin.find? node.kind = some .function := by rw [hk, builtin_eq]; rfl
  rw [outlineStep_of_dispatch (dispatch_of_kind hg (by simp))]
  simp only [Generator.plan, Generator.planFunction]
  cases node.data.payload with
  | function definition code => cases hout : definition.output? <;> simp [hout, Instruction.socket]
  | _ => rfl

theorem outlineStep_arithmetic {node : Node} (hk : node.isArithmetic)
    (offered : String → Option Socket) :
    (outlineStep Registry.builtin graph node offered).map Socket.dataType =
      match graph.inputEdges node.id with
      | [left, right] =>
        ((offered left.source).map Socket.dataType).bind fun type =>
          ((offered right.source).map Socket.dataType).map fun _ => type
      | _ => none := by
  obtain ⟨operator, hg⟩ : ∃ operator,
      Registry.builtin.find? node.kind = some (.operation operator) := by
    rcases hk with hk | hk
    · exact ⟨"*", by rw [hk, builtin_eq]; rfl⟩
    · exact ⟨"+", by rw [hk, builtin_eq]; rfl⟩
  rw [outlineStep_of_dispatch (dispatch_of_kind hg (by simp))]
  simp only [Generator.plan]
  rcases graph.inputEdges node.id with _ | ⟨left, _ | ⟨right, _ | ⟨_, _⟩⟩⟩
  · rfl
  · rfl
  · cases hl : offered left.source with
    | none => simp [hl]
    | some a =>
      cases hr : offered right.source with
      | none => simp [hl, hr]
      | some b => simp [hl, hr, valueInstruction_socket]
  · rfl

/-- Any other kind declares nothing. -/
theorem outlineStep_other {node : Node} (hu : node.kind ≠ "uniform") (hf : node.kind ≠ "function")
    (ha : ¬ node.isArithmetic) (hfixed : fixedTypes.find? node.kind = none)
    (offered : String → Option Socket) :
    outlineStep Registry.builtin graph node offered = none := by
  cases hg : Registry.builtin.find? node.kind with
  | none =>
    have hd : dispatch Registry.builtin graph node =
        .error (.unknownNodeKind node.id node.kind) := by
      simp [dispatch, hg]
    simp [outlineStep, plannedFrom, hd]
  | some g =>
    have hpreview : g = .preview := by
      simp only [fixedTypes, Table.find?] at hfixed
      simp only [Node.isArithmetic, not_or] at ha
      simp only [builtin_eq, Table.find?] at hg
      grind
    subst hpreview
    rw [outlineStep_of_dispatch (dispatch_of_kind hg (by simp))]
    cases hp : Generator.plan graph node offered .preview with
    | error e => rfl
    | ok is =>
      rw [Generator.plan_preview_nil hp]
      rfl

theorem outlineStep_type (node : Node) (offered : String → Option Socket) :
    (outlineStep Registry.builtin graph node offered).map Socket.dataType =
      typeStep graph node (fun id => (offered id).map Socket.dataType) := by
  unfold typeStep
  split
  · rename_i hk
    exact outlineStep_uniform hk offered
  rename_i hu
  split
  · rename_i hk
    exact outlineStep_function hk offered
  rename_i hf
  split
  · rename_i hk
    exact outlineStep_arithmetic hk offered
  rename_i ha
  cases hfixed : fixedTypes.find? node.kind with
  | none => rw [outlineStep_other hu hf ha hfixed, Option.map_none]
  | some type =>
    obtain ⟨g, hg, hne, i, hplan, htype⟩ :
        ∃ g, Registry.builtin.find? node.kind = some g ∧ g ≠ .uniform ∧
          ∃ i, g.plan graph node offered = .ok [i] ∧ i.socket.dataType = type :=
      plan_fixed hfixed node offered
    rw [outlineStep_of_dispatch (dispatch_of_kind hg hne), hplan]
    simp [htype]

/-! ## What the rules say is what is declared -/

/-- The type of what a node declares. -/
def outlineType (graph : Graph) (id : String) : Option DataType :=
  (outline Registry.builtin graph id).map Socket.dataType

theorem outlineType_eq {id : String} {node : Node} (hn : graph.node? id = some node)
    (hw : graph.Within graph.bound id) :
    outlineType graph id = typeStep graph node (outlineType graph) := by
  have hid := Graph.node?_id hn
  subst hid
  rw [outlineType, outline_eq hw hn]
  exact outlineStep_type node (outline Registry.builtin graph)

theorem typeStep_arithmetic {node : Node} (h : node.isArithmetic)
    (typeOf : String → Option DataType) :
    typeStep graph node typeOf =
      match graph.inputEdges node.id with
      | [left, right] =>
        (typeOf left.source).bind fun type => (typeOf right.source).map fun _ => type
      | _ => none := by
  unfold typeStep
  rcases h with h | h <;> simp [h]

theorem typeStep_fixed {node : Node} {type : DataType}
    (h : fixedTypes.find? node.kind = some type) (typeOf : String → Option DataType) :
    typeStep graph node typeOf = some type := by
  have hne : ∀ kind, fixedTypes.find? kind = none → node.kind ≠ kind := by
    intro kind hnone hk
    rw [hk, hnone] at h
    cases h
  have hu : node.kind ≠ "uniform" := hne _ (by decide)
  have hf : node.kind ≠ "function" := hne _ (by decide)
  have hm : node.kind ≠ "multiply" := hne _ (by decide)
  have ha : node.kind ≠ "add" := hne _ (by decide)
  simp only [typeStep, hu, hf, hm, ha, or_self, ↓reduceIte, h]

theorem Declares.outlineType {id : String} (h : Declares graph id)
    (hw : graph.Within graph.bound id) : (outlineType graph id).isSome := by
  induction h with
  | @fixed id node hn hk =>
    obtain ⟨type, htype⟩ : ∃ type, fixedTypes.find? node.kind = some type := by
      simp only [List.mem_cons, List.not_mem_nil, or_false] at hk
      rcases hk with hk | hk | hk | hk | hk | hk <;> rw [hk] <;> exact ⟨_, rfl⟩
    rw [outlineType_eq hn hw, typeStep_fixed htype]
    rfl
  | uniform hn hk hp hu =>
    rw [outlineType_eq hn hw, typeStep]
    simp [hk, hp, hu]
  | function hn hk hp hout =>
    rw [outlineType_eq hn hw, typeStep]
    simp [hk, hp, Definition.output?, hout]
  | @arithmetic id node left right hn hk he _ _ ihl ihr =>
    have hid := Graph.node?_id hn
    subst hid
    have hleft := ihl (hw.succ.source hn (by simp [he]))
    have hright := ihr (hw.succ.source hn (by simp [he]))
    rw [outlineType_eq hn hw, typeStep_arithmetic hk, he]
    obtain ⟨a, ha⟩ := Option.isSome_iff_exists.mp hleft
    obtain ⟨b, hb⟩ := Option.isSome_iff_exists.mp hright
    simp [ha, hb]

theorem HasType.outlineType {id : String} {type found : DataType} (h : HasType graph id type)
    (hw : graph.Within graph.bound id) (ho : outlineType graph id = some found) :
    found = type := by
  induction h generalizing found with
  | fixed hn hk =>
    rw [outlineType_eq hn hw, typeStep_fixed hk] at ho
    exact (Option.some.inj ho).symm
  | uniform hn hk hp hu =>
    rw [outlineType_eq hn hw, typeStep] at ho
    simp only [hk, ↓reduceIte, hp, hu, Option.map_some, Option.some.injEq] at ho
    exact ho.symm
  | function hn hk hp hout =>
    rw [outlineType_eq hn hw, typeStep] at ho
    simp only [hk, String.reduceEq, ↓reduceIte, hp, Definition.output?, hout, List.head?_cons,
      Option.map_some, Option.some.injEq] at ho
    exact ho.symm
  | @arithmetic id node first more type hn hk he _ ih =>
    have hid := Graph.node?_id hn
    subst hid
    rw [outlineType_eq hn hw, typeStep_arithmetic hk, he] at ho
    rcases more with _ | ⟨second, _ | ⟨third, more⟩⟩
    · cases ho
    · obtain ⟨a, ha, hb⟩ := Option.bind_eq_some_iff.mp ho
      obtain ⟨b, _, rfl⟩ := Option.map_eq_some_iff.mp hb
      exact ih (hw.succ.source hn (by simp [he])) ha
    · cases ho

/-- What is declared, is declared by the rules, and with the type that they give. -/
theorem declares_of_outlineType {depth : Nat} {id : String} {type : DataType}
    (hd : graph.Within depth id) (hw : graph.Within graph.bound id)
    (h : outlineType graph id = some type) : Declares graph id ∧ HasType graph id type := by
  induction depth generalizing id type with
  | zero =>
    rw [Graph.Within] at hd
    rw [outlineType, outline_absent hd] at h
    cases h
  | succ depth ih =>
    cases hn : graph.node? id with
    | none =>
      rw [outlineType, outline_absent hn] at h
      cases h
    | some node =>
      have hid := Graph.node?_id hn
      subst hid
      rw [outlineType_eq hn hw] at h
      by_cases ha : node.isArithmetic
      · rw [typeStep_arithmetic ha] at h
        rcases he : graph.inputEdges node.id with _ | ⟨left, _ | ⟨right, _ | ⟨_, _⟩⟩⟩
        · simp [he] at h
        · simp [he] at h
        · simp only [he] at h
          obtain ⟨a, hleft, hb⟩ := Option.bind_eq_some_iff.mp h
          obtain ⟨b, hright, rfl⟩ := Option.map_eq_some_iff.mp hb
          have hl := ih (hd.source hn (by simp [he])) (hw.succ.source hn (by simp [he]))
            hleft
          have hr := ih (hd.source hn (by simp [he])) (hw.succ.source hn (by simp [he]))
            hright
          exact ⟨.arithmetic hn ha he hl.1 hr.1, .arithmetic hn ha he hl.2⟩
        · simp [he] at h
      unfold typeStep at h
      split at h
      · rename_i hk
        cases hp : node.data.payload with
        | uniform u value =>
          simp only [hp] at h
          obtain ⟨found, hu, rfl⟩ := Option.map_eq_some_iff.mp h
          exact ⟨.uniform hn hk hp (by simp [hu]), .uniform hn hk hp hu⟩
        | _ => simp [hp] at h
      split at h
      · rename_i hk
        cases hp : node.data.payload with
        | function definition code =>
          simp only [hp, Definition.output?] at h
          obtain ⟨output, hout, rfl⟩ := Option.map_eq_some_iff.mp h
          obtain ⟨more, hmore⟩ := List.head?_eq_some_iff.mp hout
          exact ⟨.function hn hk hp (by simp [hmore]), .function hn hk hp hmore⟩
        | _ => simp [hp] at h
      split at h
      · rename_i hk
        exact absurd hk ha
      · refine ⟨.fixed hn ?_, .fixed hn h⟩
        simp only [fixedTypes, Table.find?] at h
        grind

theorem declares_iff {id : String} (hw : graph.Within graph.bound id) :
    Declares graph id ↔ (outline Registry.builtin graph id).isSome := by
  rw [← Option.isSome_map (f := Socket.dataType)]
  constructor
  · exact fun h => h.outlineType hw
  · intro h
    obtain ⟨type, htype⟩ := Option.isSome_iff_exists.mp h
    exact (declares_of_outlineType hw hw htype).1

theorem hasType_iff {id : String} {s : Socket} (hw : graph.Within graph.bound id)
    (h : outline Registry.builtin graph id = some s) (type : DataType) :
    HasType graph id type ↔ s.dataType = type := by
  have ho : outlineType graph id = some s.dataType := by simp [ShaderGraph.outlineType, h]
  constructor
  · exact fun ht => ht.outlineType hw ho
  · rintro rfl
    exact (declares_of_outlineType hw hw ho).2

end ShaderGraph
