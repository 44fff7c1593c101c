import Mathlib.Tactic.Push
import ShaderGraph.Proofs.Run

/-!
What a node declares can be told from the graph alone. `outline` gives the type
and the name of every node's variable by recursion over the inputs, and `planned`
the instructions that the node hands in whenever it is compiled. A pass whose
nodes are compiled after their inputs agrees with both (`Settled`), however
often a node comes by.
-/

namespace ShaderGraph

variable {registry : Registry} {graph : Graph}

/-- The variable that an instruction declares or assigns to. -/
def Instruction.socket (i : Instruction) : Socket := ⟨i.dataType, i.name⟩

/-- The forms in which an instruction can be emitted. -/
def Instruction.EmittedAs (i j : Instruction) : Prop :=
  j = i ∨ i.kind = .assign ∧ j = { i with kind := .reassign }

theorem Instruction.EmittedAs.socket {i j : Instruction} (h : i.EmittedAs j) :
    j.socket = i.socket := by
  rcases h with rfl | ⟨_, rfl⟩ <;> rfl

/-- What a node hands in: nothing, one value, or a function and its call. -/
inductive Shape : List Instruction → Prop
  | nothing : Shape []
  | value {i : Instruction} :
      i.kind = .uniform ∨ i.kind = .varying ∨ i.kind = .assign → Shape [i]
  | call {i j : Instruction} :
      i.kind = .imported → j.kind = .assign → i.socket = j.socket → Shape [i, j]

namespace Shape

variable {is : List Instruction} {i : Instruction}

theorem not_reassign (h : Shape is) (hi : i ∈ is) : i.kind ≠ .reassign := by
  cases h with
  | nothing => cases hi
  | value hk =>
    cases List.mem_singleton.mp hi
    rcases hk with hk | hk | hk <;> simp [hk]
  | call hi' hj' _ =>
    rcases List.mem_pair.mp hi with rfl | rfl
    · simp [hi']
    · simp [hj']

theorem socket (h : Shape is) (hi : i ∈ is) :
    is.getLast?.map Instruction.socket = some i.socket := by
  cases h with
  | nothing => cases hi
  | value _ => cases List.mem_singleton.mp hi; rfl
  | call _ _ hs =>
    rcases List.mem_pair.mp hi with rfl | rfl
    · exact congrArg some hs.symm
    · rfl

/-- What is assigned or comes from outside comes last. -/
theorem last (h : Shape is) (hi : i ∈ is) (hk : i.kind ≠ .imported) : is.getLast? = some i := by
  cases h with
  | nothing => cases hi
  | value _ => cases List.mem_singleton.mp hi; rfl
  | call hi' _ _ =>
    rcases List.mem_pair.mp hi with rfl | rfl
    · exact absurd hi' hk
    · rfl

end Shape

/-! ## What is emitted -/

namespace Pass

theorem offered_add_other {id other : String} (h : other ≠ id) (pass : Pass) (i : Instruction) :
    (pass.add id i).offered other = pass.offered other := by
  simp [offered, declaration?_add, h]

/-- A node that has declared nothing, or this variable, now has declared it. -/
theorem offered_add_self {id : String} {pass : Pass} {i : Instruction}
    (h : ∀ s, pass.offered id = some s → s = i.socket) :
    (pass.add id i).offered id = some i.socket := by
  simp only [offered, declaration?_add, ↓reduceIte]
  cases ha : accept (pass.declaration? id) i with
  | some j =>
    have hj : j.socket = i.socket := Instruction.EmittedAs.socket (accept_eq_some ha)
    exact congrArg some hj
  | none =>
    cases hd : pass.declaration? id with
    | none => simp [accept, hd] at ha
    | some d =>
      have hs := h ⟨d.dataType, d.name⟩ (by simp [offered, hd])
      simp [hs]

theorem offered_addAll_other {id other : String} (h : other ≠ id) (pass : Pass)
    (is : List Instruction) : (pass.addAll id is).offered other = pass.offered other := by
  induction is generalizing pass with
  | nil => rfl
  | cons i is ih => exact (ih (pass.add id i)).trans (offered_add_other h pass i)

theorem offered_addAll_self {id : String} {pass : Pass} {is : List Instruction} (hs : Shape is)
    (h : ∀ s, pass.offered id = some s → is.getLast?.map Instruction.socket = some s) :
    (pass.addAll id is).offered id = is.getLast?.map Instruction.socket := by
  cases hs with
  | nothing =>
    show pass.offered id = none
    cases ho : pass.offered id with
    | none => rfl
    | some s => simpa using h s ho
  | value _ => exact offered_add_self fun s hs => (Option.some.inj (h s hs)).symm
  | @call i j _ _ hij =>
    have hfirst : (pass.add id i).offered id = some i.socket :=
      offered_add_self fun s hs => (Option.some.inj (h s hs)).symm.trans hij.symm
    apply offered_add_self
    intro s hs
    exact (Option.some.inj (hfirst.symm.trans hs)).symm.trans hij

/-- All that is emitted stands for something that was handed in. -/
theorem emissions_addAll (pass : Pass) (id : String) (is : List Instruction) :
    ∃ js : List Instruction, (pass.addAll id is).emissions.toList =
        pass.emissions.toList ++ js.map (Emission.mk id) ∧
      ∀ j ∈ js, ∃ i ∈ is, i.EmittedAs j := by
  induction is generalizing pass with
  | nil => exact ⟨[], by simp [addAll], by simp⟩
  | cons i is ih =>
    obtain ⟨js, he, hjs⟩ := ih (pass.add id i)
    refine ⟨(accept (pass.declaration? id) i).toList ++ js, ?_, ?_⟩
    · show ((pass.add id i).addAll id is).emissions.toList = _
      rw [he, emissions_add]
      cases accept (pass.declaration? id) i <;> simp
    · intro j hj
      rcases List.mem_append.mp hj with hj | hj
      · exact ⟨i, List.mem_cons_self .., accept_eq_some (Option.mem_toList.mp hj)⟩
      · obtain ⟨i', hi', hc⟩ := hjs j hj
        exact ⟨i', List.mem_cons_of_mem _ hi', hc⟩

/-- For a node that has declared nothing, everything is emitted as it is. -/
theorem emissions_addAll_fresh {id : String} {pass : Pass} {is : List Instruction}
    (hs : Shape is) (h : pass.offered id = none) :
    (pass.addAll id is).emissions.toList =
      pass.emissions.toList ++ is.map (Emission.mk id) := by
  have hd : pass.declaration? id = none := by simpa [offered] using h
  cases hs with
  | nothing => simp [addAll]
  | value _ => simp [addAll, emissions_add, accept, hd]
  | @call i j hi hj _ =>
    have hfirst : (pass.add id i).declaration? id = some i.declaration := by
      simp [declaration?_add, accept, hd]
    have haccept : accept (some i.declaration) j = some j := by
      simp [accept, hj, Instruction.declaration, hi, InstructionKind.isDeclareOnce,
        InstructionKind.isAssignment]
    show (((pass.add id i).add id j).emissions).toList = _
    rw [emissions_add, hfirst, haccept, emissions_add, hd]
    simp [accept]

end Pass

/-! ## What is planned -/

namespace Edge

private theorem byHandle_step_mem {edges : List Edge} {table : Table Edge} {edge : Edge}
    (h : ∀ key found, table.find? key = some found → found ∈ edges) (he : edge ∈ edges)
    (handle : String) :
    ∀ key found, (table.insertNew handle edge).find? key = some found → found ∈ edges := by
  intro key found hf
  unfold Table.insertNew at hf
  split at hf
  · exact h key found hf
  · rw [Table.find?_insert] at hf
    split at hf
    · cases hf
      exact he
    · exact h key found hf

theorem byHandle_mem {edges : List Edge} {handle : String} {edge : Edge}
    (h : (byHandle edges).find? handle = some edge) : edge ∈ edges := by
  refine List.foldlRecOn edges _ (motive := fun table : Table Edge =>
    ∀ key found, table.find? key = some found → found ∈ edges) (by simp [Table.find?]) ?_ _ _ h
  intro table ht edge he
  split
  · exact byHandle_step_mem ht he _
  · exact ht

end Edge

namespace Generator

theorem sourceAt?_mem {edges : List Edge} {handle source : String}
    (h : sourceAt? edges handle = some source) : ∃ edge ∈ edges, edge.source = source := by
  unfold sourceAt? at h
  obtain ⟨edge, he, hs⟩ := Option.map_eq_some_iff.mp h
  exact ⟨edge, Edge.byHandle_mem he, hs⟩

/-- A source that edges lead to looks the same to functions that agree on the edges. -/
theorem sourceAt?_bind_congr {α : Type} {edges : List Edge} {f g : String → Option α}
    (h : ∀ edge ∈ edges, f edge.source = g edge.source) (handle : String) :
    (sourceAt? edges handle).bind f = (sourceAt? edges handle).bind g := by
  cases hs : sourceAt? edges handle with
  | none => rfl
  | some source =>
    obtain ⟨edge, he, rfl⟩ := sourceAt?_mem hs
    exact h edge he

theorem plan_congr {node : Node} {f g : String → Option Socket}
    (h : ∀ edge ∈ graph.inputEdges node.id, f edge.source = g edge.source)
    (generator : Generator) : plan graph node f generator = plan graph node g generator := by
  have hat := sourceAt?_bind_congr h
  cases generator with
  | operation operator =>
    simp only [plan]
    rcases hes : graph.inputEdges node.id with _ | ⟨left, _ | ⟨right, _ | ⟨_, _⟩⟩⟩
    · rfl
    · rfl
    · rw [hes] at h
      simp only [h left (by simp), h right (by simp)]
    · rfl
  | preview =>
    simp only [plan]
    rcases hes : graph.inputEdges node.id with _ | ⟨first, more⟩
    · rfl
    · rw [hes] at h
      simp only [h first (by simp)]
  | vec2 => simp only [plan, planVector, operandOf, hat]
  | vec3 => simp only [plan, planVector, operandOf, hat]
  | function => simp only [plan, planFunction, hat]
  | literal => rfl
  | time => rfl
  | color => rfl
  | uniform => rfl
  | uv => rfl

theorem valueInstruction_shape (node : Node) (type : DataType) (value : Expression) :
    Shape [valueInstruction node type value] := by
  unfold valueInstruction
  split
  · exact .value (.inl rfl)
  · exact .value (.inr (.inr rfl))

/-- A product or sum that can be compiled has two inputs that offer something. -/
theorem plan_operation {node : Node} {offered : String → Option Socket} {operator : String}
    {is : List Instruction} (h : plan graph node offered (.operation operator) = .ok is) :
    ∃ left right a b, graph.inputEdges node.id = [left, right] ∧ offered left.source = some a ∧
      offered right.source = some b ∧
      is = [valueInstruction node a.dataType (.operation operator a.name b.name)] := by
  simp only [plan] at h
  split at h
  · rename_i left right hes
    split at h
    · cases h
    · rename_i a ha
      split at h
      · cases h
      · rename_i b hb
        cases h
        exact ⟨left, right, a, b, hes, ha, hb, rfl⟩
  · cases h

/-- A function is imported and called if it has an output. -/
theorem planFunction_cases (graph : Graph) (node : Node) (offered : String → Option Socket) :
    planFunction graph node offered = [] ∨ ∃ definition code output arguments,
      node.data.payload = .function definition code ∧ definition.output? = some output ∧
      arguments = definition.inputs.filterMap (fun input =>
        ((sourceAt? (graph.inputEdges node.id) input.name).bind offered).map Socket.name) ∧
      planFunction graph node offered =
        [⟨.imported, output.dataType, node.name, some (.verbatim code)⟩,
          ⟨.assign, output.dataType, node.name, some (.call output.name arguments)⟩] := by
  unfold planFunction
  split
  · rename_i definition code hpayload
    split
    · exact .inl rfl
    · rename_i output houtput
      exact .inr ⟨definition, code, output, _, hpayload, houtput, rfl, rfl⟩
  · exact .inl rfl

theorem plan_shape {node : Node} {offered : String → Option Socket} {generator : Generator}
    {is : List Instruction} (h : plan graph node offered generator = .ok is) : Shape is := by
  cases generator with
  | literal => cases h; exact valueInstruction_shape ..
  | operation operator =>
    obtain ⟨_, _, _, _, _, _, _, rfl⟩ := plan_operation h
    exact valueInstruction_shape ..
  | vec2 => cases h; exact valueInstruction_shape ..
  | vec3 => cases h; exact valueInstruction_shape ..
  | time => cases h; exact .value (.inl rfl)
  | color => cases h; exact .value (.inl rfl)
  | uniform => cases h; exact .nothing
  | function =>
    cases h
    rcases planFunction_cases graph node offered with he | ⟨_, _, _, _, _, _, _, he⟩
    · rw [he]
      exact .nothing
    · rw [he]
      exact .call rfl rfl rfl
  | uv => cases h; exact .value (.inr (.inl rfl))
  | preview => rw [plan_preview_nil h]; exact .nothing

end Generator

/-- A node goes to the generator of its own kind, or to that of a uniform's kind. -/
theorem dispatch_cases {node seen : Node} {g : Generator}
    (h : dispatch registry graph node = .ok (g, seen)) :
    (registry.find? node.kind = some g ∧ seen = node) ∨
      ∃ u : Uniform, registry.find? u.kind.name = some g ∧
        seen = { node with data := .ofUniform node.name u } := by
  unfold dispatch at h
  split at h
  · cases h
  · rename_i hk
    split at h
    · split at h
      · cases h
        exact .inl ⟨hk, rfl⟩
      · rename_i u _
        split at h
        · cases h
        · rename_i hu
          cases h
          exact .inr ⟨u, hu, rfl⟩
    · cases h
      exact .inl ⟨hk, rfl⟩

theorem dispatch_id {node seen : Node} {g : Generator}
    (h : dispatch registry graph node = .ok (g, seen)) : seen.id = node.id := by
  rcases dispatch_cases h with ⟨_, rfl⟩ | ⟨_, _, rfl⟩ <;> rfl

/-- What a node hands in, given what others offer. A node with an error hands in nothing. -/
def plannedFrom (registry : Registry) (graph : Graph) (offered : String → Option Socket)
    (node : Node) : List Instruction :=
  match dispatch registry graph node with
  | .error _ => []
  | .ok (g, seen) =>
    match g.plan graph seen offered with
    | .error _ => []
    | .ok is => is

/-- The variable of a node, given those of others. -/
def outlineStep (registry : Registry) (graph : Graph) (node : Node)
    (offered : String → Option Socket) : Option Socket :=
  (plannedFrom registry graph offered node).getLast?.map Instruction.socket

/-- The variable of a node. -/
def outline (registry : Registry) (graph : Graph) (id : String) : Option Socket :=
  graph.fold none (outlineStep registry graph) graph.bound id

/-- What a node hands in. -/
def planned (registry : Registry) (graph : Graph) (node : Node) : List Instruction :=
  plannedFrom registry graph (outline registry graph) node

theorem plannedFrom_congr {node : Node} {f g : String → Option Socket}
    (h : ∀ edge ∈ graph.inputEdges node.id, f edge.source = g edge.source) :
    plannedFrom registry graph f node = plannedFrom registry graph g node := by
  unfold plannedFrom
  split
  · rfl
  · rename_i hd
    rw [Generator.plan_congr (by rw [dispatch_id hd]; exact h)]

theorem plannedFrom_shape (offered : String → Option Socket) (node : Node) :
    Shape (plannedFrom registry graph offered node) := by
  unfold plannedFrom
  split
  · exact .nothing
  · split
    · exact .nothing
    · rename_i h
      exact Generator.plan_shape h

theorem planned_shape (registry : Registry) (graph : Graph) (node : Node) :
    Shape (planned registry graph node) := plannedFrom_shape (outline registry graph) node

/-- What a node hands in is what its generator plans. -/
theorem mem_planned {node : Node} {i : Instruction} (hi : i ∈ planned registry graph node) :
    ∃ g seen is, dispatch registry graph node = .ok (g, seen) ∧
      g.plan graph seen (outline registry graph) = .ok is ∧ i ∈ is := by
  unfold planned plannedFrom at hi
  split at hi
  · cases hi
  · rename_i g seen hd
    split at hi
    · cases hi
    · rename_i is hp
      exact ⟨g, seen, is, hd, hp, hi⟩

theorem outlineStep_looksAtInputs : graph.LooksAtInputs (outlineStep registry graph) := by
  intro node f g h
  rw [outlineStep, outlineStep, plannedFrom_congr h]

theorem outline_absent {id : String} (h : graph.node? id = none) :
    outline registry graph id = none := Graph.fold_absent h graph.bound

theorem outline_eq {node : Node} (h : graph.Within graph.bound node.id)
    (hn : graph.node? node.id = some node) :
    outline registry graph node.id =
      (planned registry graph node).getLast?.map Instruction.socket :=
  Graph.fold_eq outlineStep_looksAtInputs h hn

/-- What a pass has emitted and declared, apart from all else. -/
def Pass.record (pass : Pass) : Pass where
  emissions := pass.emissions
  declarations := pass.declarations

/-- A node that is compiled hands in what is planned for it. -/
theorem compileNode_record {node : Node} {pass pass' : Pass}
    (h : compileNode registry graph node pass = (pass', none)) :
    pass'.record = (pass.addAll node.id (plannedFrom registry graph pass.offered node)).record := by
  rw [compileNode_eq] at h
  unfold plannedFrom
  cases hd : dispatch registry graph node with
  | error e => simp [hd] at h
  | ok found =>
    obtain ⟨g, seen⟩ := found
    simp only [hd] at h
    rw [Generator.emit_eq] at h
    rw [← dispatch_id hd]
    cases hp : g.plan graph seen pass.offered with
    | error e =>
      simp only [hp] at h ⊢
      cases h
      rfl
    | ok is =>
      simp only [hp] at h ⊢
      cases h
      rfl

theorem compileNode_planned {node : Node} {pass pass' : Pass}
    (h : compileNode registry graph node pass = (pass', none)) :
    let made := pass.addAll node.id (plannedFrom registry graph pass.offered node)
    pass'.emissions = made.emissions ∧ pass'.offered = made.offered := by
  have hemissions : pass'.record.emissions = _ := congrArg Pass.emissions (compileNode_record h)
  have hoffered : pass'.record.offered = _ := congrArg Pass.offered (compileNode_record h)
  exact ⟨hemissions, hoffered⟩

/-! ## Passes that keep to the plan -/

/-- What a pass has recorded agrees with the graph for the nodes that are done,
and it has recorded nothing else. -/
structure Settled (registry : Registry) (graph : Graph) (done : List Node) (pass : Pass) :
    Prop where
  present : ∀ node ∈ done, graph.node? node.id = some node
  offered : ∀ node ∈ done, pass.offered node.id = outline registry graph node.id
  fresh : ∀ id, (∀ node ∈ done, node.id ≠ id) → pass.offered id = none
  recorded : ∀ e ∈ pass.emissions, ∃ node ∈ done, e.node = node.id ∧
    ∃ i ∈ planned registry graph node, i.EmittedAs e.instruction
  declared : ∀ node ∈ done, ∀ i ∈ planned registry graph node, i ∈ pass.instructions

theorem settled_nil : Settled registry graph [] {} where
  present := by simp
  offered := by simp
  fresh := fun _ _ => rfl
  recorded := by simp
  declared := by simp

theorem Settled.source {done : List Node} {pass : Pass} (h : Settled registry graph done pass)
    {node : Node} (hin : ∀ input ∈ graph.inputNodes node.id, input ∈ done) :
    ∀ edge ∈ graph.inputEdges node.id,
      pass.offered edge.source = outline registry graph edge.source := by
  intro edge he
  cases hs : graph.node? edge.source with
  | none =>
    rw [outline_absent hs]
    apply h.fresh
    intro other ho he
    rw [← he, h.present other ho] at hs
    cases hs
  | some input =>
    have hi := hin input (Graph.mem_inputNodes.mpr ⟨edge, he, hs⟩)
    rw [← Graph.node?_id hs]
    exact h.offered input hi

/-- Whatever is offered is what the graph says. -/
theorem Settled.again {done : List Node} {pass : Pass} (h : Settled registry graph done pass)
    {id : String} {s : Socket} (hs : pass.offered id = some s) :
    outline registry graph id = some s := by
  by_cases hd : ∀ other ∈ done, other.id ≠ id
  · rw [h.fresh id hd] at hs
    cases hs
  · push Not at hd
    obtain ⟨other, ho, he⟩ := hd
    rw [← he] at hs ⊢
    exact (h.offered other ho).symm.trans hs

/-- **One node more.** -/
theorem Settled.step {done : List Node} {pass pass' : Pass} {node : Node}
    (h : Settled registry graph done pass) (hn : graph.node? node.id = some node)
    (hw : graph.Within graph.bound node.id)
    (hin : ∀ input ∈ graph.inputNodes node.id, input ∈ done)
    (hc : compileNode registry graph node pass = (pass', none)) :
    pass'.emissions = (pass.addAll node.id (planned registry graph node)).emissions ∧
      Settled registry graph (done ++ [node]) pass' := by
  have hplan : plannedFrom registry graph pass.offered node = planned registry graph node :=
    plannedFrom_congr (h.source hin)
  have hshape := planned_shape registry graph node
  have hself : outline registry graph node.id = _ := outline_eq hw hn
  obtain ⟨hemissions, hoffered⟩ := compileNode_planned hc
  rw [hplan] at hemissions hoffered
  have hown : pass'.offered node.id = outline registry graph node.id := by
    rw [hoffered, hself]
    exact Pass.offered_addAll_self hshape fun s hs => hself.symm.trans (h.again hs)
  have hother : ∀ id, id ≠ node.id → pass'.offered id = pass.offered id := by
    intro id hid
    rw [hoffered, Pass.offered_addAll_other hid]
  obtain ⟨js, hjs, hall⟩ :=
    Pass.emissions_addAll pass node.id (planned registry graph node)
  rw [← hemissions] at hjs
  refine ⟨hemissions, ⟨?_, ?_, ?_, ?_, ?_⟩⟩
  · intro other ho
    rcases List.mem_append.mp ho with ho | ho
    · exact h.present other ho
    · rw [List.mem_singleton.mp ho]
      exact hn
  · intro other ho
    by_cases he : other.id = node.id
    · rw [he]
      exact hown
    · rw [hother other.id he]
      rcases List.mem_append.mp ho with ho | ho
      · exact h.offered other ho
      · exact absurd (congrArg Node.id (List.mem_singleton.mp ho)) he
  · intro id hid
    rw [hother id (fun he => hid node (by simp) he.symm)]
    exact h.fresh id fun other ho => hid other (List.mem_append_left _ ho)
  · intro e he
    rw [← Array.mem_toList_iff, hjs] at he
    rcases List.mem_append.mp he with he | he
    · obtain ⟨other, ho, hrest⟩ := h.recorded e (Array.mem_toList_iff.mp he)
      exact ⟨other, List.mem_append_left _ ho, hrest⟩
    · obtain ⟨j, hj, rfl⟩ := List.mem_map.mp he
      exact ⟨node, by simp, rfl, hall j hj⟩
  · have hkeep : ∀ i ∈ pass.instructions, i ∈ pass'.instructions := by
      intro i hi
      obtain ⟨e, he, hei⟩ := List.mem_map.mp hi
      exact List.mem_map.mpr ⟨e, by rw [hjs]; exact List.mem_append_left _ he, hei⟩
    intro other ho i hi
    by_cases hd : other ∈ done
    · exact hkeep i (h.declared other hd i hi)
    · have heq : other = node := by
        rcases List.mem_append.mp ho with ho | ho
        · exact absurd ho hd
        · exact List.mem_singleton.mp ho
      subst heq
      -- a node that is compiled for the first time has all its instructions emitted
      have hfresh : pass.offered other.id = none := by
        apply h.fresh
        intro found hf he
        have hp := h.present found hf
        rw [he, hn] at hp
        cases hp
        exact hd hf
      have hfirst := Pass.emissions_addAll_fresh hshape hfresh
      rw [← hemissions] at hfirst
      exact List.mem_map.mpr ⟨⟨other.id, i⟩, by rw [hfirst]; simp [hi], rfl⟩

/-- **A list of nodes**, each after its inputs. -/
theorem Settled.compileAll {done nodes : List Node} {pass pass' : Pass}
    (h : Settled registry graph done pass)
    (hn : ∀ node ∈ nodes, graph.node? node.id = some node ∧ graph.Within graph.bound node.id)
    (hr : graph.Ready done nodes)
    (hc : ShaderGraph.compileAll registry graph nodes pass = (pass', none)) :
    Settled registry graph (done ++ nodes) pass' := by
  induction nodes generalizing done pass with
  | nil =>
    cases hc
    simpa using h
  | cons node nodes ih =>
    rw [ShaderGraph.compileAll] at hc
    split at hc
    · cases hc
    · rename_i inner hnode
      obtain ⟨hself, hrest⟩ := List.forall_mem_cons.mp hn
      have hstep := (h.step hself.1 hself.2 hr.1 hnode).2
      have hall := ih hstep hrest hr.2 hc
      rw [List.append_assoc] at hall
      exact hall

/-- The nodes of a run that is not stopped are compiled each after its inputs. -/
theorem run_ready {id : String} {pass : Pass} (h : (run registry graph id pass).2 = none) :
    (∀ node ∈ graph.postorder id,
        graph.node? node.id = some node ∧ graph.Within graph.bound node.id) ∧
      (∀ done, graph.Ready done (graph.postorder id)) ∧
      ShaderGraph.compileAll registry graph (graph.postorder id) pass =
        ((run registry graph id pass).1, none) := by
  obtain ⟨hwithin, hall⟩ := visit_ok (Prod.ext rfl h)
  refine ⟨?_, Graph.ready_fold hwithin, hall⟩
  intro node hn
  have hr := (Graph.mem_postorder_iff hwithin).mp hn
  exact ⟨hr.node?, hwithin.reached hr⟩

theorem settled_run {id : String} (h : (run registry graph id {}).2 = none) :
    Settled registry graph (graph.postorder id) (run registry graph id {}).1 := by
  obtain ⟨hn, hready, hall⟩ := run_ready h
  exact settled_nil.compileAll hn (hready []) hall

end ShaderGraph
