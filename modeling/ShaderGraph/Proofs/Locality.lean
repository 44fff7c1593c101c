import ShaderGraph.Proofs.Outcome

/-!
Compilation looks at what is behind the sink and at nothing else there than the
generators read: of a node its id, type, name, kind, payload and stored value, of
an edge its source and target handle, of a uniform its kind and value. Two graphs
that agree in this on a set of ids which holds the sources of its own edges are
walked alike (`Walk.agree`). The walk has one outcome (`Walk.unique`), although the
bounds that the two graphs put on its depth differ, so both give the same shader or
the same error (`compile_local`).
-/

namespace ShaderGraph

/-! ## What is looked at -/

/-- Nodes that look the same to every generator. -/
structure Node.Alike (a b : Node) : Prop where
  id : a.id = b.id
  type : a.type = b.type
  name : a.data.name = b.data.name
  kind : a.data.kind = b.data.kind
  payload : a.data.payload = b.data.payload
  value : a.data.extra.find? "value" = b.data.extra.find? "value"

/-- Edges that look the same to the node at their end. -/
structure Edge.Alike (a b : Edge) : Prop where
  source : a.source = b.source
  targetHandle : a.targetHandle = b.targetHandle

/-- Uniforms that look the same to a reference. -/
structure Uniform.Alike (a b : Uniform) : Prop where
  kind : a.kind = b.kind
  value : a.value = b.value

/-- Two graphs agree on a set of ids: under each of them there is a node in both or
in none, the nodes are alike, their edges are alike one by one and come from the
set, and what they refer to is a uniform in both or in none. -/
structure Graph.AgreeOn (g h : Graph) (ids : Set String) : Prop where
  node : ∀ id ∈ ids, Option.Rel Node.Alike (g.node? id) (h.node? id)
  edges : ∀ id ∈ ids, (g.node? id).isSome →
    List.Forall₂ Edge.Alike (g.inputEdges id) (h.inputEdges id)
  closed : ∀ id ∈ ids, (g.node? id).isSome → ∀ edge ∈ g.inputEdges id, edge.source ∈ ids
  uniform : ∀ id ∈ ids, ∀ node, g.node? id = some node → ∀ u value,
    node.data.payload = .uniform u value →
      Option.Rel Uniform.Alike (g.uniform? u) (h.uniform? u)

namespace Node.Alike

variable {a b : Node}

theorem compiledKind (h : a.Alike b) : a.kind = b.kind := by
  simp only [Node.kind, h.kind, h.type]

theorem isUniform (h : a.Alike b) : a.isUniform = b.isUniform := by
  simp only [Node.isUniform, h.type]

theorem nodeName (h : a.Alike b) : a.name = b.name := h.name

theorem literal? (h : a.Alike b) : a.data.literal? = b.data.literal? := by
  simp only [NodeData.literal?, h.payload, h.value]

theorem valueInstruction (h : a.Alike b) (type : DataType) (value : Expression) :
    Generator.valueInstruction a type value = Generator.valueInstruction b type value := by
  simp only [Generator.valueInstruction, h.isUniform, h.nodeName]

/-- Resolved references to uniforms that are alike. -/
theorem ofUniform (h : a.Alike b) {u v : Uniform} (hu : u.Alike v) :
    Node.Alike { a with data := .ofUniform a.name u } { b with data := .ofUniform b.name v } := by
  have hdata : NodeData.ofUniform a.name u = NodeData.ofUniform b.name v := by
    simp only [NodeData.ofUniform, h.nodeName, hu.kind, hu.value]
  simp only [hdata]
  exact ⟨h.id, h.type, rfl, rfl, rfl, rfl⟩

end Node.Alike

/-! ## One node -/

/-- The table by handle has the first edge into each. -/
theorem Edge.find?_byHandle (edges : List Edge) (handle : String) :
    (byHandle edges).find? handle = edges.findSome? fun edge =>
      if edge.targetHandle = some handle then some edge else none := by
  unfold byHandle
  rw [Table.find?_foldl (f := fun edge =>
    if edge.targetHandle = some handle then some edge else none)]
  · rfl
  · intro table edge
    cases ht : edge.targetHandle with
    | none => simp
    | some own => simp [Table.find?_insertNew, eq_comm]

section Edges

variable {es fs : List Edge} (h : List.Forall₂ Edge.Alike es fs)

include h

theorem Generator.sourceAt?_alike (handle : String) :
    sourceAt? es handle = sourceAt? fs handle := by
  simp only [sourceAt?, Edge.find?_byHandle]
  induction h with
  | nil => rfl
  | cons hedge _ ih =>
    simp only [List.findSome?_cons, hedge.targetHandle]
    split_ifs
    · exact congrArg some hedge.source
    · exact ih

end Edges

namespace Generator

variable {g h : Graph} {a b : Node}

theorem emitOperation_alike (operator : String) (pass : Pass) (hn : a.Alike b)
    (he : List.Forall₂ Edge.Alike (g.inputEdges b.id) (h.inputEdges b.id)) :
    emitOperation operator g a pass = emitOperation operator h b pass := by
  simp only [emitOperation, hn.valueInstruction, hn.id]
  generalize g.inputEdges b.id = es at he
  generalize h.inputEdges b.id = fs at he
  rcases he with _ | ⟨hleft, _ | ⟨hright, _ | ⟨_, hmore⟩⟩⟩
  · rfl
  · rfl
  · simp only [hleft.source, hright.source]
  · simp only [List.length_cons, hmore.length_eq]

theorem emitVector_alike (type : DataType) (handles : List String) (pass : Pass) (hn : a.Alike b)
    (he : List.Forall₂ Edge.Alike (g.inputEdges b.id) (h.inputEdges b.id)) :
    emitVector type handles g a pass = emitVector type handles h b pass := by
  simp only [emitVector, hn.id, sourceAt?_alike he, hn.valueInstruction]

theorem emitFunction_alike (pass : Pass) (hn : a.Alike b)
    (he : List.Forall₂ Edge.Alike (g.inputEdges b.id) (h.inputEdges b.id)) :
    emitFunction g a pass = emitFunction h b pass := by
  simp only [emitFunction, hn.id, sourceAt?_alike he, hn.payload, hn.nodeName]

theorem emitPreview_alike (pass : Pass) (hn : a.Alike b)
    (he : List.Forall₂ Edge.Alike (g.inputEdges b.id) (h.inputEdges b.id)) :
    emitPreview g a pass = emitPreview h b pass := by
  simp only [emitPreview, hn.id]
  generalize g.inputEdges b.id = es at he
  generalize h.inputEdges b.id = fs at he
  rcases he with _ | ⟨hfirst, _ | ⟨hsecond, _⟩⟩
  · rfl
  · simp only [hfirst.source, List.head?_nil]
  · simp only [hfirst.source, List.head?_cons, Option.map_some, hsecond.source]

/-- **A node adds what one like it adds.** -/
theorem emit_alike (pass : Pass) (generator : Generator) (hn : a.Alike b)
    (he : List.Forall₂ Edge.Alike (g.inputEdges b.id) (h.inputEdges b.id)) :
    emit g a pass generator = emit h b pass generator := by
  cases generator with
  | literal => simp only [emit, emitLiteral, hn.literal?, hn.valueInstruction, hn.id]
  | operation operator => exact emitOperation_alike operator pass hn he
  | vec2 => exact emitVector_alike _ _ pass hn he
  | vec3 => exact emitVector_alike _ _ pass hn he
  | time => simp only [emit, hn.nodeName, hn.id]
  | color => simp only [emit, hn.nodeName, hn.id]
  | uniform => rfl
  | function => exact emitFunction_alike pass hn he
  | uv => simp only [emit, hn.id]
  | preview => exact emitPreview_alike pass hn he

end Generator

/-- Only a reference to a uniform is not compiled as it stands. -/
theorem generate_plain {registry : Registry} {graph : Graph} {generator : Generator} {node : Node}
    (h : ∀ id value, generator = .uniform → node.data.payload ≠ .uniform id value) (pass : Pass) :
    generate registry graph generator node pass = (generator.emit graph node pass, none) := by
  unfold generate
  split
  · rename_i id value hp
    exact absurd hp (h id value rfl)
  · rfl

/-- References to uniforms that are alike, or to none. -/
theorem generate_reference_alike {registry : Registry} {g h : Graph} {a b : Node} {id : String}
    {value : Option Json} (pass : Pass) (hn : a.Alike b)
    (he : List.Forall₂ Edge.Alike (g.inputEdges b.id) (h.inputEdges b.id))
    (hp : a.data.payload = .uniform id value)
    (hu : Option.Rel Uniform.Alike (g.uniform? id) (h.uniform? id)) :
    generate registry g .uniform a pass = generate registry h .uniform b pass := by
  have hp' : b.data.payload = .uniform id value := hn.payload ▸ hp
  simp only [generate, hp, hp']
  generalize g.uniform? id = found at hu
  generalize h.uniform? id = found' at hu
  cases hu with
  | none => rfl
  | @some u v halike =>
    simp only [halike.kind]
    cases registry.find? v.kind.name with
    | none => simp only [hn.id]
    | some target => exact Prod.ext (Generator.emit_alike pass target (hn.ofUniform halike) he) rfl

/-- **Nodes that are alike are compiled alike.** -/
theorem compileNode_alike {registry : Registry} {g h : Graph} {a b : Node} (pass : Pass)
    (hn : a.Alike b)
    (he : List.Forall₂ Edge.Alike (g.inputEdges b.id) (h.inputEdges b.id))
    (hu : ∀ u value, a.data.payload = .uniform u value →
      Option.Rel Uniform.Alike (g.uniform? u) (h.uniform? u)) :
    compileNode registry g a pass = compileNode registry h b pass := by
  unfold compileNode
  rw [← hn.compiledKind]
  cases registry.find? a.kind with
  | none => simp only [hn.id]
  | some generator =>
    by_cases hreference : generator = .uniform ∧ ∃ id value, a.data.payload = .uniform id value
    · obtain ⟨rfl, id, value, hp⟩ := hreference
      exact generate_reference_alike pass hn he hp (hu id value hp)
    · have hplain : ∀ id value, generator = .uniform → a.data.payload ≠ .uniform id value :=
        fun id value hg hp => hreference ⟨hg, id, value, hp⟩
      simp only
      rw [generate_plain hplain, generate_plain (hn.payload ▸ hplain),
        Generator.emit_alike pass generator hn he]

/-! ## The walk -/

namespace Graph.AgreeOn

variable {g h : Graph} {ids : Set String} (ha : g.AgreeOn h ids)

include ha

theorem absent {id : String} (hid : id ∈ ids) (hn : g.node? id = none) : h.node? id = none := by
  have hrel := ha.node id hid
  rw [hn] at hrel
  cases hh : h.node? id with
  | none => rfl
  | some node => rw [hh] at hrel; cases hrel

theorem found {id : String} {node : Node} (hid : id ∈ ids) (hn : g.node? id = some node) :
    ∃ other, h.node? id = some other ∧ node.Alike other := by
  have hrel := ha.node id hid
  rw [hn] at hrel
  cases hh : h.node? id with
  | none => rw [hh] at hrel; cases hrel
  | some other =>
    rw [hh] at hrel
    cases hrel with
    | some halike => exact ⟨other, rfl, halike⟩

/-- The same ids are visited behind a node, and they belong to the set. -/
theorem inputs {id : String} (hid : id ∈ ids) (hn : (g.node? id).isSome) :
    (g.inputNodes id).map Node.id = (h.inputNodes id).map Node.id ∧
      ∀ input ∈ (g.inputNodes id).map Node.id, input ∈ ids := by
  have hedges := ha.edges id hid hn
  have hclosed := ha.closed id hid hn
  simp only [inputNodes]
  generalize g.inputEdges id = es at hedges hclosed
  generalize h.inputEdges id = fs at hedges
  induction hedges with
  | nil => simp
  | cons hedge _ ih =>
    obtain ⟨hhead, htail⟩ := List.forall_mem_cons.mp hclosed
    obtain ⟨hsame, hmem⟩ := ih htail
    simp only [List.filterMap_cons, ← hedge.source]
    cases hs : g.node? _ with
    | none =>
      rw [ha.absent hhead hs]
      exact ⟨hsame, hmem⟩
    | some input =>
      obtain ⟨other, ho, halike⟩ := ha.found hhead hs
      simp only [ho, List.map_cons, hsame, halike.id, true_and]
      refine List.forall_mem_cons.mpr ⟨?_, hsame ▸ hmem⟩
      rw [← halike.id, node?_id hs]
      exact hhead

theorem compileNode {registry : Registry} {id : String} {node other : Node} (hid : id ∈ ids)
    (hn : g.node? id = some node) (halike : node.Alike other) (pass : Pass) :
    ShaderGraph.compileNode registry g node pass =
      ShaderGraph.compileNode registry h other pass := by
  refine compileNode_alike pass halike ?_ (ha.uniform id hid node hn)
  rw [← halike.id, node?_id hn]
  exact ha.edges id hid (by simp [hn])

end Graph.AgreeOn

variable {registry : Registry}

/-- **A walk that keeps to the ids goes the same way in both graphs.** -/
theorem Walk.agree {g h : Graph} {ids : Set String} (ha : g.AgreeOn h ids) {todo : List String}
    {pass : Pass} {outcome : Pass × Option RunError} (hw : Walk registry g todo pass outcome)
    (htodo : ∀ id ∈ todo, id ∈ ids) : Walk registry h todo pass outcome := by
  induction hw with
  | done => exact .done
  | absent hn _ ih =>
    obtain ⟨hid, hrest⟩ := List.forall_mem_cons.mp htodo
    exact .absent (ha.absent hid hn) (ih hrest)
  | revisit hn hv =>
    obtain ⟨other, ho, halike⟩ := ha.found (htodo _ (List.mem_cons_self ..)) hn
    rw [halike.id] at hv ⊢
    exact .revisit ho hv
  | stopped hn hv _ ih =>
    have hid := htodo _ (List.mem_cons_self ..)
    obtain ⟨other, ho, halike⟩ := ha.found hid hn
    have hinputs := ha.inputs hid (by simp [hn])
    rw [← Graph.node?_id hn] at hinputs
    have hwalk := ih hinputs.2
    rw [hinputs.1, halike.id] at hwalk
    rw [halike.id] at hv ⊢
    exact .stopped ho hv hwalk
  | refused hn hv _ hc ih =>
    have hid := htodo _ (List.mem_cons_self ..)
    obtain ⟨other, ho, halike⟩ := ha.found hid hn
    have hinputs := ha.inputs hid (by simp [hn])
    rw [← Graph.node?_id hn] at hinputs
    have hwalk := ih hinputs.2
    rw [hinputs.1, halike.id] at hwalk
    rw [ha.compileNode hid hn halike] at hc
    rw [halike.id] at hv ⊢
    exact .refused ho hv hwalk hc
  | compiled hn hv _ hc _ ihinputs ih =>
    obtain ⟨hid, hrest⟩ := List.forall_mem_cons.mp htodo
    obtain ⟨other, ho, halike⟩ := ha.found hid hn
    have hinputs := ha.inputs hid (by simp [hn])
    rw [← Graph.node?_id hn] at hinputs
    have hwalk := ihinputs hinputs.2
    rw [hinputs.1, halike.id] at hwalk
    rw [ha.compileNode hid hn halike] at hc
    have hlater := ih hrest
    rw [halike.id] at hv hlater
    exact .compiled ho hv hwalk hc hlater

/-- **A walk has one outcome.** -/
theorem Walk.unique {graph : Graph} {todo : List String} {pass : Pass}
    {outcome outcome' : Pass × Option RunError} (hw : Walk registry graph todo pass outcome)
    (hw' : Walk registry graph todo pass outcome') : outcome = outcome' := by
  induction hw generalizing outcome' with
  | done => cases hw'; rfl
  | absent hn _ ih =>
    cases hw' with
    | absent _ hrest => exact ih hrest
    | revisit hn' _ => rw [hn] at hn'; cases hn'
    | stopped hn' _ _ => rw [hn] at hn'; cases hn'
    | refused hn' _ _ _ => rw [hn] at hn'; cases hn'
    | compiled hn' _ _ _ _ => rw [hn] at hn'; cases hn'
  | revisit hn hv =>
    cases hw' with
    | absent hn' _ => rw [hn] at hn'; cases hn'
    | revisit hn' _ => rw [hn] at hn'; cases hn'; rfl
    | stopped hn' hv' _ => rw [hn] at hn'; cases hn'; exact absurd hv hv'
    | refused hn' hv' _ _ => rw [hn] at hn'; cases hn'; exact absurd hv hv'
    | compiled hn' hv' _ _ _ => rw [hn] at hn'; cases hn'; exact absurd hv hv'
  | stopped hn hv _ ih =>
    cases hw' with
    | absent hn' _ => rw [hn] at hn'; cases hn'
    | revisit hn' hv' => rw [hn] at hn'; cases hn'; exact absurd hv' hv
    | stopped hn' _ hin => rw [hn] at hn'; cases hn'; cases ih hin; rfl
    | refused hn' _ hin _ => rw [hn] at hn'; cases hn'; cases ih hin
    | compiled hn' _ hin _ _ => rw [hn] at hn'; cases hn'; cases ih hin
  | refused hn hv _ hc ih =>
    cases hw' with
    | absent hn' _ => rw [hn] at hn'; cases hn'
    | revisit hn' hv' => rw [hn] at hn'; cases hn'; exact absurd hv' hv
    | stopped hn' _ hin => rw [hn] at hn'; cases hn'; cases ih hin
    | refused hn' _ hin hc' =>
      rw [hn] at hn'
      cases hn'
      cases ih hin
      rw [hc] at hc'
      cases hc'
      rfl
    | compiled hn' _ hin hc' _ =>
      rw [hn] at hn'
      cases hn'
      cases ih hin
      rw [hc] at hc'
      cases hc'
  | compiled hn hv _ hc _ ihinputs ih =>
    cases hw' with
    | absent hn' _ => rw [hn] at hn'; cases hn'
    | revisit hn' hv' => rw [hn] at hn'; cases hn'; exact absurd hv' hv
    | stopped hn' _ hin => rw [hn] at hn'; cases hn'; cases ihinputs hin
    | refused hn' _ hin hc' =>
      rw [hn] at hn'
      cases hn'
      cases ihinputs hin
      rw [hc] at hc'
      cases hc'
    | compiled hn' _ hin hc' hrest =>
      rw [hn] at hn'
      cases hn'
      cases ihinputs hin
      rw [hc] at hc'
      cases hc'
      exact ih hrest

/-- Runs on graphs that agree behind the sink end alike. -/
theorem Graph.AgreeOn.run {g h : Graph} {ids : Set String} {sink : String} {pass : Pass}
    (ha : g.AgreeOn h ids) (hsink : sink ∈ ids) (hv : pass.visiting = []) :
    ShaderGraph.run registry g sink pass = ShaderGraph.run registry h sink pass := by
  have hwalk : Walk registry h [sink] pass (ShaderGraph.run registry g sink pass) :=
    (run_walk sink hv).agree ha (by simpa using hsink)
  exact hwalk.unique (run_walk sink hv)

/-- **Compilation is local.** If two graphs agree on a set of ids with the sink in it,
the outcome of a compilation is the same for both, be it a shader, the errors that
leave it empty, or the error that stops it. Whatever else the graphs hold shows in
nothing: nodes and edges outside the set, the ids and source handles of edges, the
names of uniforms, and the fields that only an editor uses. -/
theorem compile_local (registry : Registry) (g h : Graph) (sink : String) (ids : Set String)
    (hsink : sink ∈ ids) (ha : g.AgreeOn h ids) :
    compile registry g sink = compile registry h sink := by
  have hrun : run registry g sink {} = run registry h sink {} := ha.run hsink rfl
  simp only [compile, hrun]

/-- A colour from outside, shown. -/
def Graph.tinted : Graph where
  nodes := [{ id := "tint", type := "uniform", data := { name := "tint", payload := .uniform "u" none } },
    { id := "out", type := "preview" }]
  edges := [{ id := "1", source := "tint", target := "out" }]
  uniforms := [{ id := "u", name := "tint", kind := .color }]

/-- The same with the uniform renamed, the edge drawn anew, the colour moved, and a
node of no known kind beside it that feeds itself. -/
def Graph.retinted : Graph where
  nodes := [{ id := "stray", type := "unknown" }, { id := "out", type := "preview" },
    { id := "tint", type := "uniform", extra := [("position", .null)]
      data := { name := "tint", payload := .uniform "u" none } }]
  edges := [{ id := "2", source := "stray", target := "stray" },
    { id := "3", source := "tint", target := "out", sourceHandle := some "color" }]
  uniforms := [{ id := "u", name := "sky", kind := .color }]

theorem Graph.tinted_agreeOn : Graph.tinted.AgreeOn Graph.retinted {"tint", "out"} where
  node := by
    rintro _ (rfl | rfl)
    · exact .some ⟨rfl, rfl, rfl, rfl, rfl, rfl⟩
    · exact .some ⟨rfl, rfl, rfl, rfl, rfl, rfl⟩
  edges := by
    rintro _ (rfl | rfl) _
    · exact .nil
    · exact .cons ⟨rfl, rfl⟩ .nil
  closed := by
    rintro _ (rfl | rfl) _ edge he
    · cases he
    · cases List.mem_singleton.mp he
      exact .inl rfl
  uniform := by
    rintro _ (rfl | rfl) node hn u value hp
    · cases hn
      cases hp
      exact .some ⟨rfl, rfl⟩
    · cases hn
      cases hp

theorem compile_local_retinted :
    Graph.tinted.AgreeOn Graph.retinted {"tint", "out"} ∧
      compile Registry.builtin Graph.tinted "out" =
        compile Registry.builtin Graph.retinted "out" :=
  ⟨Graph.tinted_agreeOn,
    compile_local Registry.builtin Graph.tinted Graph.retinted "out" {"tint", "out"} (.inr rfl)
      Graph.tinted_agreeOn⟩

end ShaderGraph
