import ShaderGraph.Proofs.Outline

/-!
Two readings of a graph under an interpretation of its literals, operators,
constructors, functions, uniforms and varyings. `Graph.value` evaluates a node
from the values of its inputs. `execute` runs instructions as assignments to
variables. `plan_gives` connects them for one node: what the node hands in
evaluates to its value wherever the variables of its sources hold theirs.
-/

namespace ShaderGraph

/-- What the parts of a shader stand for. -/
structure Interpretation (V : Type) where
  literal : String → V
  operator : String → V → V → V
  construct : DataType → List V → V
  call : String → List V → V
  uniform : String → V
  varying : String → V

/-- The values of variables. A name that is not bound has none. -/
abbrev Env (V : Type) := String → Option V

variable {V : Type} (interp : Interpretation V)

/-! ## Running instructions -/

def Operand.eval (env : Env V) : Operand → Option V
  | reference name => env name
  | constant text => some (interp.literal text)

/-- The value of an expression, if all its variables are bound. -/
def Expression.eval (env : Env V) : Expression → Option V
  | operand o => o.eval interp env
  | operation operator left right =>
    match env left, env right with
    | some a, some b => some (interp.operator operator a b)
    | _, _ => none
  | construct type components =>
    (components.mapM (Operand.eval interp env)).map (interp.construct type)
  | call function arguments => (arguments.mapM env).map (interp.call function)
  | verbatim _ => none

/-- The instruction as an assignment. -/
def Instruction.assign (env : Env V) (i : Instruction) : Env V :=
  fun name => if name = i.name then i.value.bind (·.eval interp env) else env name

/-- Runs those instructions whose kind is picked out, in order, as assignments. -/
def execute (runs : InstructionKind → Bool) (env : Env V) (instructions : List Instruction) :
    Env V :=
  instructions.foldl (fun env i => if runs i.kind then i.assign interp env else env) env

/-- Runs the assignments alone. -/
def executeAssigns : Env V → List Instruction → Env V := execute interp (· == .assign)

/-- Runs the assignments and the reassignments. -/
def executeAll : Env V → List Instruction → Env V := execute interp InstructionKind.isAssignment

/-- The value that comes from outside for what the instruction declares. -/
def Instruction.external? (i : Instruction) : Option V :=
  match i.kind with
  | .uniform => some (interp.uniform i.name)
  | .varying => some (interp.varying i.name)
  | _ => none

/-- The variables that are bound before anything runs: the declared uniforms and varyings. -/
def initialEnv (instructions : List Instruction) : Env V :=
  fun name => instructions.findSome? fun i => if i.name = name then i.external? interp else none

/-! ## Evaluating nodes -/

namespace Generator

/-- A node whose value comes from outside has that value and no other. -/
def ownValue (node : Node) (computed : V) : V :=
  if node.isUniform then interp.uniform node.name else computed

/-- A vector of the values at the handles; a handle without one counts as one. -/
def vectorValue (type : DataType) (handles : List String) (graph : Graph) (node : Node)
    (value : String → Option V) : V :=
  ownValue interp node (interp.construct type (handles.map fun handle =>
    ((sourceAt? (graph.inputEdges node.id) handle).bind value).getD (interp.literal "1.")))

/-- The function of the node, applied to the values at its inputs, as far as there are any. -/
def callValue (graph : Graph) (node : Node) (value : String → Option V) : Option V :=
  match node.data.payload with
  | .function definition _ =>
    definition.output?.map fun output => interp.call output.name
      (definition.inputs.filterMap fun input =>
        (sourceAt? (graph.inputEdges node.id) input.name).bind value)
  | _ => none

/-- The value of a node of this kind, given the values of others. -/
def value (graph : Graph) (node : Node) (value : String → Option V) : Generator → Option V
  | literal =>
    some (ownValue interp node
      (interp.literal ((node.data.literal?.map literalText).getD "1.")))
  | operation operator =>
    match graph.inputEdges node.id with
    | [left, right] =>
      match value left.source, value right.source with
      | some a, some b => some (ownValue interp node (interp.operator operator a b))
      | _, _ => none
    | _ => none
  | vec2 => some (vectorValue interp .vec2 ["x", "y"] graph node value)
  | vec3 => some (vectorValue interp .vec3 ["x", "y", "z"] graph node value)
  | time => some (interp.uniform node.name)
  | color => some (interp.uniform node.name)
  | uniform => none
  | function => callValue interp graph node value
  | uv => some (interp.varying "vUv")
  | preview => none

end Generator

/-- The value of a node, given the values of others. A reference to a uniform is
evaluated as a node of the kind of that uniform. -/
def nodeValue (registry : Registry) (graph : Graph) (node : Node) (value : String → Option V) :
    Option V :=
  match dispatch registry graph node with
  | .error _ => none
  | .ok (g, seen) => g.value interp graph seen value

/-- The value of a node, by recursion over its inputs. -/
def Graph.value (graph : Graph) (registry : Registry) (id : String) : Option V :=
  graph.fold none (nodeValue interp registry graph) graph.bound id

/-! ## Environments -/

theorem execute_append (runs : InstructionKind → Bool) (env : Env V) (is js : List Instruction) :
    execute interp runs env (is ++ js) = execute interp runs (execute interp runs env is) js :=
  List.foldl_append

/-- A variable that nothing is assigned to keeps its value. -/
theorem execute_untouched {runs : InstructionKind → Bool} {name : String} (env : Env V)
    {is : List Instruction} (h : ∀ i ∈ is, runs i.kind → i.name ≠ name) :
    execute interp runs env is name = env name := by
  induction is generalizing env with
  | nil => rfl
  | cons i is ih =>
    show execute interp runs (if runs i.kind then i.assign interp env else env) is name = env name
    rw [ih _ fun j hj => h j (List.mem_cons_of_mem _ hj)]
    split
    · rename_i hr
      have hne := h i (List.mem_cons_self ..) hr
      simp [Instruction.assign, Ne.symm hne]
    · rfl

/-- Instructions that would change nothing change nothing. -/
theorem execute_idle {runs : InstructionKind → Bool} {env : Env V} {is : List Instruction}
    (h : ∀ i ∈ is, runs i.kind → i.assign interp env = env) :
    execute interp runs env is = env := by
  induction is with
  | nil => rfl
  | cons i is ih =>
    have hi : (if runs i.kind then i.assign interp env else env) = env := by
      split
      · rename_i hr
        exact h i (List.mem_cons_self ..) hr
      · rfl
    show execute interp runs (if runs i.kind then i.assign interp env else env) is = env
    rw [hi]
    exact ih fun j hj => h j (List.mem_cons_of_mem _ hj)

/-- A reassignment finds its variable with the value that it assigns. -/
def Steady (env : Env V) : List Instruction → Prop
  | [] => True
  | i :: is => (i.kind = .reassign → i.assign interp env = env) ∧
      Steady (executeAssigns interp env [i]) is

theorem steady_append (env : Env V) (is js : List Instruction) :
    Steady interp env (is ++ js) ↔
      Steady interp env is ∧ Steady interp (executeAssigns interp env is) js := by
  induction is generalizing env with
  | nil => simp [Steady, executeAssigns, execute]
  | cons i is ih =>
    have hstep : executeAssigns interp env (i :: is) =
        executeAssigns interp (executeAssigns interp env [i]) is := rfl
    simp only [List.cons_append, Steady, ih, hstep, and_assoc]

theorem Steady.before {env : Env V} {is before after : List Instruction}
    (h : Steady interp env is) (hs : is = before ++ after) : Steady interp env before := by
  rw [hs, steady_append] at h
  exact h.1

theorem Steady.executeAll {env : Env V} {is : List Instruction} (h : Steady interp env is) :
    executeAll interp env is = executeAssigns interp env is := by
  induction is generalizing env with
  | nil => rfl
  | cons i is ih =>
    have hone : ShaderGraph.executeAll interp env [i] = executeAssigns interp env [i] := by
      cases hk : i.kind with
      | reassign =>
        have hi := h.1 hk
        simp [ShaderGraph.executeAll, executeAssigns, execute, hk, hi,
          InstructionKind.isAssignment]
      | _ =>
        simp [ShaderGraph.executeAll, executeAssigns, execute, hk, InstructionKind.isAssignment]
    show ShaderGraph.executeAll interp (ShaderGraph.executeAll interp env [i]) is =
      executeAssigns interp (executeAssigns interp env [i]) is
    rw [hone]
    exact ih h.2

/-! ## One node in both readings -/

/-- A variable holds a value, or there is neither. -/
def Agrees (env : Env V) : Option Socket → Option V → Prop
  | none, none => True
  | some s, some v => env s.name = some v
  | _, _ => False

/-- What an instruction gives its variable. -/
def Instruction.result (env : Env V) (i : Instruction) : Option V :=
  (i.external? interp).or (i.value.bind (·.eval interp env))

variable {interp}

theorem Agrees.cases {env : Env V} {s : Option Socket} {v : Option V} (h : Agrees env s v) :
    (s = none ∧ v = none) ∨ ∃ t x, s = some t ∧ v = some x ∧ env t.name = some x := by
  rcases s with _ | t <;> rcases v with _ | x
  · exact .inl ⟨rfl, rfl⟩
  · cases h
  · cases h
  · exact .inr ⟨t, x, rfl, rfl, h⟩

/-- An assignment to another variable does not matter. -/
theorem Agrees.assign {env : Env V} {s : Option Socket} {v : Option V} {i : Instruction}
    (h : Agrees env s v) (hne : ∀ t, s = some t → t.name ≠ i.name) :
    Agrees (i.assign interp env) s v := by
  rcases h.cases with ⟨rfl, rfl⟩ | ⟨t, x, rfl, rfl, hx⟩
  · trivial
  · exact (if_neg (hne t rfl)).trans hx

theorem Agrees.assigned {env : Env V} {v : V} {i : Instruction}
    (h : i.value.bind (·.eval interp env) = some v) :
    Agrees (i.assign interp env) (some i.socket) (some v) := (if_pos rfl).trans h

theorem Agrees.bind {env : Env V} {edges : List Edge} {offered : String → Option Socket}
    {value : String → Option V}
    (h : ∀ edge ∈ edges, Agrees env (offered edge.source) (value edge.source)) (handle : String) :
    Agrees env ((Generator.sourceAt? edges handle).bind offered)
      ((Generator.sourceAt? edges handle).bind value) := by
  cases hs : Generator.sourceAt? edges handle with
  | none => trivial
  | some source =>
    obtain ⟨edge, he, rfl⟩ := Generator.sourceAt?_mem hs
    exact h edge he

theorem mapM_components {env : Env V} {α : Type} (handles : List α) {f : α → Option Socket}
    {g : α → Option V} (h : ∀ a, Agrees env (f a) (g a)) :
    (handles.map fun a => ((f a).map fun s => Operand.reference s.name).getD Generator.one).mapM
        (Operand.eval interp env) =
      some (handles.map fun a => (g a).getD (interp.literal "1.")) := by
  induction handles with
  | nil => rfl
  | cons a handles ih =>
    rw [List.map_cons, List.mapM_cons, ih]
    rcases (h a).cases with ⟨hf, hg⟩ | ⟨s, v, hf, hg, hs⟩
    · simp [hf, hg, Operand.eval, Generator.one]
    · simp [hf, hg, Operand.eval, hs]

theorem mapM_arguments {env : Env V} {α : Type} (inputs : List α) {f : α → Option Socket}
    {g : α → Option V} (h : ∀ a, Agrees env (f a) (g a)) :
    (inputs.filterMap fun a => (f a).map Socket.name).mapM env = some (inputs.filterMap g) := by
  induction inputs with
  | nil => rfl
  | cons a inputs ih =>
    rcases (h a).cases with ⟨hf, hg⟩ | ⟨s, v, hf, hg, hs⟩
    · simp [hf, hg, ih]
    · simp [hf, hg, ih, hs, List.mapM_cons]

/-- The last instruction of the list gives its variable this value, or there is neither. -/
def Gives (interp : Interpretation V) (env : Env V) (is : List Instruction) (v : Option V) : Prop :=
  match is.getLast? with
  | none => v = none
  | some i => v.isSome ∧ i.result interp env = v

namespace Generator

variable {graph : Graph} {node : Node} {env : Env V} {offered : String → Option Socket}
  {value : String → Option V}

theorem gives_valueInstruction {e : Expression} {v : V} (type : DataType)
    (h : e.eval interp env = some v) :
    Gives interp env [valueInstruction node type e] (some (ownValue interp node v)) := by
  refine ⟨rfl, ?_⟩
  unfold valueInstruction ownValue
  split
  · simp [Instruction.result, Instruction.external?]
  · simp [Instruction.result, Instruction.external?, h]

theorem gives_planVector
    (h : ∀ edge ∈ graph.inputEdges node.id, Agrees env (offered edge.source) (value edge.source))
    (type : DataType) (handles : List String) :
    Gives interp env [planVector type handles graph node offered]
      (some (vectorValue interp type handles graph node value)) := by
  apply gives_valueInstruction
  simp only [Expression.eval, operandOf]
  rw [mapM_components handles (Agrees.bind h)]
  rfl

theorem gives_planFunction
    (h : ∀ edge ∈ graph.inputEdges node.id, Agrees env (offered edge.source) (value edge.source)) :
    Gives interp env (planFunction graph node offered) (callValue interp graph node value) := by
  unfold planFunction callValue
  cases node.data.payload with
  | function definition code =>
    simp only
    cases definition.output? with
    | none => rfl
    | some output =>
      refine ⟨rfl, ?_⟩
      have hargs := mapM_arguments definition.inputs fun input => Agrees.bind h input.name
      show Option.map (interp.call output.name) (List.mapM env _) = _
      rw [hargs]
      rfl
  | empty => rfl
  | literal _ => rfl
  | uniform _ _ => rfl

/-- **One node.** Where the variables of its sources hold their values, what the
node hands in gives its own variable its value. -/
theorem plan_gives
    (h : ∀ edge ∈ graph.inputEdges node.id, Agrees env (offered edge.source) (value edge.source))
    (g : Generator) :
    Gives interp env
      (match g.plan graph node offered with
      | .error _ => []
      | .ok is => is)
      (g.value interp graph node value) := by
  cases g with
  | literal =>
    apply gives_valueInstruction
    cases node.data.literal? <;> rfl
  | operation operator =>
    simp only [plan, Generator.value]
    rcases hes : graph.inputEdges node.id with _ | ⟨left, _ | ⟨right, _ | ⟨_, _⟩⟩⟩
    · rfl
    · rfl
    · rcases (h left (by simp [hes])).cases with ⟨hf, hg⟩ | ⟨a, x, hf, hg, ha⟩
      · simp only [hf, hg]
        rfl
      rcases (h right (by simp [hes])).cases with ⟨hf', hg'⟩ | ⟨b, y, hf', hg', hb⟩
      · simp only [hf, hg, hf', hg']
        rfl
      simp only [hf, hg, hf', hg']
      apply gives_valueInstruction
      simp only [Expression.eval, ha, hb]
    · rfl
  | vec2 => exact gives_planVector h ..
  | vec3 => exact gives_planVector h ..
  | time => exact ⟨rfl, rfl⟩
  | color => exact ⟨rfl, rfl⟩
  | uniform => rfl
  | function => exact gives_planFunction h
  | uv => exact ⟨rfl, rfl⟩
  | preview =>
    cases hp : plan graph node offered .preview with
    | error e => rfl
    | ok is => rw [plan_preview_nil hp]; rfl

/-- The value of a node depends on its sources alone. -/
theorem value_congr {f g : String → Option V}
    (h : ∀ edge ∈ graph.inputEdges node.id, f edge.source = g edge.source)
    (generator : Generator) :
    generator.value interp graph node f = generator.value interp graph node g := by
  have hat := sourceAt?_bind_congr h
  cases generator with
  | operation operator =>
    simp only [Generator.value]
    rcases hes : graph.inputEdges node.id with _ | ⟨left, _ | ⟨right, _ | ⟨_, _⟩⟩⟩
    · rfl
    · rfl
    · rw [hes] at h
      simp only [h left (by simp), h right (by simp)]
    · rfl
  | vec2 => simp only [Generator.value, vectorValue, hat]
  | vec3 => simp only [Generator.value, vectorValue, hat]
  | function => simp only [Generator.value, callValue, hat]
  | literal => rfl
  | time => rfl
  | color => rfl
  | uniform => rfl
  | uv => rfl
  | preview => rfl

end Generator

variable {registry : Registry} {graph : Graph}

theorem plannedFrom_gives {node : Node} {env : Env V} {offered : String → Option Socket}
    {value : String → Option V}
    (h : ∀ edge ∈ graph.inputEdges node.id,
      Agrees env (offered edge.source) (value edge.source)) :
    Gives interp env (plannedFrom registry graph offered node)
      (nodeValue interp registry graph node value) := by
  unfold plannedFrom nodeValue
  cases hd : dispatch registry graph node with
  | error e => rfl
  | ok found =>
    obtain ⟨g, seen⟩ := found
    rw [← dispatch_id hd] at h
    exact Generator.plan_gives h g

theorem nodeValue_looksAtInputs : graph.LooksAtInputs (nodeValue interp registry graph) := by
  intro node f g h
  unfold nodeValue
  cases hd : dispatch registry graph node with
  | error e => rfl
  | ok found =>
    obtain ⟨generator, seen⟩ := found
    rw [← dispatch_id hd] at h
    exact Generator.value_congr h generator

namespace Graph

theorem value_absent {id : String} (h : graph.node? id = none) :
    graph.value interp registry id = none := fold_absent h graph.bound

/-- **Evaluation, unfolded.** -/
theorem value_eq {node : Node} (h : graph.Within graph.bound node.id)
    (hn : graph.node? node.id = some node) :
    graph.value interp registry node.id =
      nodeValue interp registry graph node (graph.value interp registry) :=
  fold_eq nodeValue_looksAtInputs h hn

end Graph

end ShaderGraph
