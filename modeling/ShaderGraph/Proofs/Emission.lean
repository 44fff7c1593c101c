import ShaderGraph.Compile.Run
import ShaderGraph.Proofs.Tables

/-!
What one node adds to a pass. Of the pass it reads only the types and the names
that other nodes have declared, so what it adds is planned from these alone
(`Generator.plan`) and then handed in instruction by instruction (`emit_eq`).
Which generator a node goes to does not depend on the pass at all (`dispatch`).
-/

namespace ShaderGraph

namespace Pass

/-- The pass with other nodes marked as being visited. -/
def on (pass : Pass) (visiting : List String) : Pass := { pass with visiting }

/-- What a node offers to those that read it: its variable and the type of that. -/
def offered (pass : Pass) (id : String) : Option Socket :=
  (pass.declaration? id).map fun d => ⟨d.dataType, d.name⟩

/-- Emits instructions for one node in turn. -/
def addAll (pass : Pass) (id : String) (instructions : List Instruction) : Pass :=
  instructions.foldl (fun pass i => pass.add id i) pass

theorem variableName?_eq (pass : Pass) (id : String) :
    pass.variableName? id = (pass.offered id).map Socket.name := by
  simp [variableName?, offered, Function.comp_def]

theorem declaration?_add (pass : Pass) (id other : String) (i : Instruction) :
    (pass.add id i).declaration? other =
      if other = id then ((accept (pass.declaration? id) i).map Instruction.declaration).or
        (pass.declaration? id)
      else pass.declaration? other := by
  unfold add
  split
  · rename_i h
    by_cases ho : other = id <;> simp [h, ho]
  · rename_i h
    rw [h]
    exact Table.find?_insert ..

theorem emissions_add (pass : Pass) (id : String) (i : Instruction) :
    (pass.add id i).emissions.toList = pass.emissions.toList ++
      ((accept (pass.declaration? id) i).map (Emission.mk id)).toList := by
  unfold add
  split <;> rename_i h <;> simp [h]

/-- An instruction that is taken keeps everything but its kind. -/
theorem accept_eq_some {declared : Option Declaration} {i j : Instruction}
    (h : accept declared i = some j) :
    j = i ∨ i.kind = .assign ∧ j = { i with kind := .reassign } := by
  unfold accept at h
  split at h
  · exact .inl (Option.some.inj h).symm
  · split at h
    · cases h
    · split at h
      · rename_i hk
        simp only [Bool.and_eq_true, decide_eq_true_eq] at hk
        exact .inr ⟨hk.1, (Option.some.inj h).symm⟩
      · exact .inl (Option.some.inj h).symm

/-! ### The marks of visited nodes do not matter -/

@[simp] theorem offered_on (pass : Pass) (visiting : List String) :
    (pass.on visiting).offered = pass.offered := rfl

@[simp] theorem on_visiting (pass : Pass) (visiting : List String) :
    (pass.on visiting).visiting = visiting := rfl

theorem on_self (pass : Pass) : pass.on pass.visiting = pass := rfl

theorem add_on (pass : Pass) (visiting : List String) (id : String) (i : Instruction) :
    (pass.on visiting).add id i = (pass.add id i).on visiting := by
  have hd : (pass.on visiting).declaration? id = pass.declaration? id := rfl
  unfold add
  rw [hd]
  cases accept (pass.declaration? id) i <;> rfl

theorem addAll_on (pass : Pass) (visiting : List String) (id : String)
    (is : List Instruction) :
    (pass.on visiting).addAll id is = (pass.addAll id is).on visiting := by
  induction is generalizing pass with
  | nil => rfl
  | cons i is ih =>
    show ((pass.on visiting).add id i).addAll id is = ((pass.add id i).addAll id is).on visiting
    rw [add_on, ih]

end Pass

namespace Generator

/-- The variable of a source, or the constant one. -/
def operandOf (offered : String → Option Socket) (source : Option String) : Operand :=
  ((source.bind offered).map fun s => Operand.reference s.name).getD one

theorem operand_eq (pass : Pass) (source : Option String) :
    operand pass source = operandOf pass.offered source := by
  unfold operand operandOf
  cases source with
  | none => rfl
  | some id => simp [Pass.variableName?_eq, Function.comp_def]

/-- The instruction of a node that builds a vector. -/
def planVector (type : DataType) (handles : List String) (graph : Graph) (node : Node)
    (offered : String → Option Socket) : Instruction :=
  valueInstruction node type (.construct type
    (handles.map fun handle => operandOf offered (sourceAt? (graph.inputEdges node.id) handle)))

/-- The instructions of a node that calls a function: its source and the call. -/
def planFunction (graph : Graph) (node : Node) (offered : String → Option Socket) :
    List Instruction :=
  match node.data.payload with
  | .function definition code =>
    match definition.output? with
    | none => []
    | some output =>
      [⟨.imported, output.dataType, node.name, some (.verbatim code)⟩,
        ⟨.assign, output.dataType, node.name, some (.call output.name
          (definition.inputs.filterMap fun input =>
            ((sourceAt? (graph.inputEdges node.id) input.name).bind offered).map Socket.name))⟩]
  | _ => []

/-- The instructions that a node hands in, or what is wrong with it, given what
the nodes before it offer. -/
def plan (graph : Graph) (node : Node) (offered : String → Option Socket) :
    Generator → Except CompileError (List Instruction)
  | literal =>
    .ok [valueInstruction node .float (.operand
      ((node.data.literal?.map fun x => Operand.constant (literalText x)).getD one))]
  | operation operator =>
    match graph.inputEdges node.id with
    | [left, right] =>
      match offered left.source with
      | none => .error (.undeclaredInput node.id left.source)
      | some a =>
        match offered right.source with
        | none => .error (.undeclaredInput node.id right.source)
        | some b => .ok [valueInstruction node a.dataType (.operation operator a.name b.name)]
    | edges => .error (.insufficientInputs node.id operator 2 edges.length)
  | vec2 => .ok [planVector .vec2 ["x", "y"] graph node offered]
  | vec3 => .ok [planVector .vec3 ["x", "y", "z"] graph node offered]
  | time => .ok [⟨.uniform, .float, node.name, none⟩]
  | color => .ok [⟨.uniform, .vec3, node.name, none⟩]
  | uniform => .ok []
  | function => .ok (planFunction graph node offered)
  | uv => .ok [⟨.varying, .vec2, "vUv", none⟩]
  | preview =>
    match graph.inputEdges node.id with
    | [] => .ok []
    | first :: _ =>
      match offered first.source with
      | none => .error (.undeclaredInput node.id first.source)
      | some s =>
        match shownColor? s.dataType s.name with
        | none => .error (.unsupportedOutputType node.id s.dataType)
        | some _ => .ok []

theorem emitOperation_eq (operator : String) (graph : Graph) (node : Node) (pass : Pass) :
    emitOperation operator graph node pass =
      match plan graph node pass.offered (.operation operator) with
      | .error e => pass.fail e
      | .ok is => pass.addAll node.id is := by
  simp only [emitOperation, plan]
  rcases graph.inputEdges node.id with _ | ⟨left, _ | ⟨right, _ | ⟨_, _⟩⟩⟩
  · rfl
  · rfl
  · cases hl : pass.declaration? left.source with
    | none => simp [Pass.offered, hl]
    | some a =>
      cases hr : pass.declaration? right.source with
      | none => simp [Pass.offered, Pass.variableName?, hl, hr]
      | some b => simp [Pass.offered, Pass.variableName?, hl, hr, Pass.addAll]
  · rfl

theorem emitVector_eq (type : DataType) (handles : List String) (graph : Graph) (node : Node)
    (pass : Pass) : emitVector type handles graph node pass =
      pass.addAll node.id [planVector type handles graph node pass.offered] := by
  simp only [emitVector, planVector, operand_eq, Pass.addAll, List.foldl_cons, List.foldl_nil]

theorem emitFunction_eq (graph : Graph) (node : Node) (pass : Pass) :
    emitFunction graph node pass =
      pass.addAll node.id (planFunction graph node pass.offered) := by
  have hn : pass.variableName? = fun id => (pass.offered id).map Socket.name :=
    funext pass.variableName?_eq
  unfold emitFunction planFunction
  cases node.data.payload with
  | function definition code =>
    simp only [hn]
    cases definition.output? with
    | none => rfl
    | some output =>
      simp only [Pass.addAll, List.foldl_cons, List.foldl_nil, Option.map_bind, Function.comp_def]
  | empty => rfl
  | literal value => rfl
  | uniform id value => rfl

/-- A preview hands in no instruction. -/
theorem plan_preview_nil {graph : Graph} {node : Node} {offered : String → Option Socket}
    {is : List Instruction} (h : plan graph node offered .preview = .ok is) : is = [] := by
  simp only [plan] at h
  split at h
  · exact (Except.ok.inj h).symm
  · split at h
    · cases h
    · split at h
      · cases h
      · exact (Except.ok.inj h).symm

theorem emitPreview_eq (graph : Graph) (node : Node) (pass : Pass) :
    emitPreview graph node pass =
      match plan graph node pass.offered .preview with
      | .error e => pass.fail e
      | .ok _ => { pass with source := (emitPreview graph node pass).source } := by
  simp only [emitPreview, plan]
  rcases graph.inputEdges node.id with _ | ⟨first, more⟩
  · rfl
  · cases hd : pass.declaration? first.source with
    | none => simp [Pass.offered, hd]
    | some d =>
      simp only [Pass.offered, hd, Option.map_some]
      cases shownColor? d.dataType d.name <;> rfl

/-- **What a node adds.** An error, or the planned instructions; beyond that only
the shader that is shown can change. -/
theorem emit_eq (graph : Graph) (node : Node) (pass : Pass) (g : Generator) :
    emit graph node pass g =
      match plan graph node pass.offered g with
      | .error e => pass.fail e
      | .ok is => { pass.addAll node.id is with source := (emit graph node pass g).source } := by
  cases g with
  | operation operator =>
    simp only [emit, emitOperation_eq]
    cases plan graph node pass.offered (.operation operator) <;> rfl
  | vec2 => simp only [emit, emitVector_eq, plan]
  | vec3 => simp only [emit, emitVector_eq, plan]
  | function => simp only [emit, emitFunction_eq, plan]
  | preview =>
    simp only [emit]
    rw [emitPreview_eq]
    cases h : plan graph node pass.offered .preview with
    | error e => rfl
    | ok is =>
      rw [plan_preview_nil h]
      rfl
  | literal => rfl
  | time => rfl
  | color => rfl
  | uniform => rfl
  | uv => rfl

theorem emit_on (graph : Graph) (node : Node) (pass : Pass) (visiting : List String)
    (g : Generator) :
    emit graph node (pass.on visiting) g = (emit graph node pass g).on visiting := by
  cases g with
  | preview =>
    have ho : operand (pass.on visiting) = operand pass := rfl
    simp only [emit, emitPreview, ho]
    split
    · rfl
    · rename_i first more _
      have hd : (pass.on visiting).declaration? first.source = pass.declaration? first.source := rfl
      rw [hd]
      cases pass.declaration? first.source with
      | none => rfl
      | some d =>
        simp only
        cases shownColor? d.dataType d.name <;> rfl
  | operation operator =>
    simp only [emit, emitOperation_eq, Pass.offered_on]
    split
    · rfl
    · exact Pass.addAll_on ..
  | vec2 => simp only [emit, emitVector_eq, Pass.offered_on, Pass.addAll_on]
  | vec3 => simp only [emit, emitVector_eq, Pass.offered_on, Pass.addAll_on]
  | function => simp only [emit, emitFunction_eq, Pass.offered_on, Pass.addAll_on]
  | literal => exact Pass.add_on ..
  | time => exact Pass.add_on ..
  | color => exact Pass.add_on ..
  | uniform => rfl
  | uv => exact Pass.add_on ..

end Generator

/-! ## From a node to its generator -/

/-- The generator that compiles a node, and the node as that generator sees it. A
reference to a uniform goes to the kind of the uniform. -/
def dispatch (registry : Registry) (graph : Graph) (node : Node) :
    Except RunError (Generator × Node) :=
  match registry.find? node.kind with
  | none => .error (.unknownNodeKind node.id node.kind)
  | some generator =>
    match generator, node.data.payload with
    | .uniform, .uniform id _ =>
      match graph.uniform? id with
      | none => .ok (.uniform, node)
      | some u =>
        match registry.find? u.kind.name with
        | none => .error (.unknownNodeKind node.id u.kind.name)
        | some target => .ok (target, { node with data := .ofUniform node.name u })
    | _, _ => .ok (generator, node)

theorem compileNode_eq (registry : Registry) (graph : Graph) (node : Node) (pass : Pass) :
    compileNode registry graph node pass =
      match dispatch registry graph node with
      | .error e => (pass, some e)
      | .ok (g, seen) => (g.emit graph seen pass, none) := by
  unfold compileNode dispatch
  cases registry.find? node.kind with
  | none => rfl
  | some generator =>
    simp only [generate]
    cases node.data.payload with
    | uniform id value =>
      by_cases hg : generator = .uniform
      · subst hg
        simp only
        cases graph.uniform? id with
        | none => rfl
        | some u =>
          simp only
          cases registry.find? u.kind.name <;> rfl
      · cases generator <;> first | rfl | exact absurd rfl hg
    | empty => cases generator <;> rfl
    | literal value => cases generator <;> rfl
    | function definition code => cases generator <;> rfl

theorem compileNode_on (registry : Registry) (graph : Graph) (node : Node) (pass : Pass)
    (visiting : List String) :
    compileNode registry graph node (pass.on visiting) =
      ((compileNode registry graph node pass).1.on visiting,
        (compileNode registry graph node pass).2) := by
  simp only [compileNode_eq]
  cases dispatch registry graph node with
  | error e => rfl
  | ok found => simp only [Generator.emit_on]

theorem compileNode_visiting {registry : Registry} {graph : Graph} {node : Node}
    {pass made : Pass} {error : Option RunError}
    (h : compileNode registry graph node pass = (made, error)) :
    made.visiting = pass.visiting := by
  have hself := compileNode_on registry graph node pass pass.visiting
  rw [Pass.on_self, h] at hself
  exact congrArg (fun r => r.1.visiting) hself

end ShaderGraph
