import ShaderGraph.Proofs.History
import ShaderGraph.Proofs.Latest
import ShaderGraph.Proofs.Readback
import ShaderGraph.Uniform.Value

/-!
What a uniform is declared as, and what it is fed. The declaration is made when a node is
compiled, by the kind of the node or, for a reference, by that of the uniform; the value is
chosen anew in every frame, by the kind of the uniform alone. Both give the same type
(`Uniform.dataType_valueAt`, `ReadsUniform.plannedFrom`), whatever value is stored.

A node that reads a uniform hands in the same declaration each time, and nothing else touches it
(`ReadsUniform.compileAll`), so the agreement holds after any use of a pass
(`uniform_declared_as_fed`).
-/

namespace ShaderGraph

/-! ## Values -/

/-- The type of a value. -/
def UniformValue.dataType : UniformValue → DataType
  | float _ => .float
  | vec2 _ _ => .vec2
  | vec3 _ _ _ => .vec3

/-- A stored value that does not fit is replaced by one that does. -/
theorem Uniform.dataType_staticValue (u : Uniform) : u.staticValue.dataType = u.kind.dataType := by
  unfold staticValue
  cases u.kind with
  | float | time | color => rfl
  | vec2 | vec3 =>
    simp only
    split <;> rfl

theorem Uniform.dataType_valueAt (frame : Frame) (u : Uniform) :
    (u.valueAt Registry.builtin frame).dataType = u.kind.dataType := by
  have hstatic := u.dataType_staticValue
  unfold valueAt
  rw [builtin_eq]
  cases hkind : u.kind with
  | time | color => rfl
  | float | vec2 | vec3 =>
    -- these kinds have no live value
    rw [hkind] at hstatic
    exact hstatic

theorem find?_uniformValues (registry : Registry) (frame : Frame) {uniforms : List Uniform}
    (hnames : (uniforms.map Uniform.name).Nodup) {u : Uniform} (hu : u ∈ uniforms) :
    (uniformValues registry uniforms frame).find? u.name = some (u.valueAt registry frame) := by
  rw [uniformValues, Table.find?_ofList_map, find?_of_nodup Uniform.name hnames hu]
  rfl

/-! ## Declarations -/

/-- The node reads the uniform under its name, either as a node of the uniform's own kind or as
a reference to it. -/
structure ReadsUniform (graph : Graph) (node : Node) (u : Uniform) : Prop where
  type : node.type = "uniform"
  refers : ∃ id value, node.data.payload = .uniform id value ∧ graph.uniform? id = some u
  name : u.name = node.name
  kind : node.data.kind = none ∨ node.data.kind = some "uniform" ∨
    node.data.kind = some u.kind.name

/-- What is declared for a uniform. -/
def Uniform.declaration (u : Uniform) : Declaration := ⟨.uniform, u.kind.dataType, u.name⟩

/-- The generator of a uniform's kind plans one declaration, of the type of the uniform. -/
theorem plan_uniformKind (graph : Graph) {node : Node} (hnode : node.isUniform)
    (kind : UniformKind) (offered : String → Option Socket) :
    ∃ g, Registry.builtin.find? kind.name = some g ∧ g ≠ .uniform ∧
      g.plan graph node offered = .ok [⟨.uniform, kind.dataType, node.name, none⟩] := by
  have hvalue : ∀ type value, Generator.valueInstruction node type value =
      ⟨.uniform, type, node.name, none⟩ := fun _ _ => if_pos hnode
  rw [builtin_eq]
  cases kind with
  | float => exact ⟨.literal, rfl, by simp, by rw [Generator.plan, hvalue]; rfl⟩
  | vec2 => exact ⟨.vec2, rfl, by simp, by rw [Generator.plan, Generator.planVector, hvalue]; rfl⟩
  | vec3 => exact ⟨.vec3, rfl, by simp, by rw [Generator.plan, Generator.planVector, hvalue]; rfl⟩
  | color => exact ⟨.color, rfl, by simp, rfl⟩
  | time => exact ⟨.time, rfl, by simp, rfl⟩

namespace ReadsUniform

variable {graph : Graph} {node : Node} {u : Uniform} (h : ReadsUniform graph node u)

include h

/-- **The node hands in one declaration**, whatever the others offer. -/
theorem plannedFrom (offered : String → Option Socket) :
    plannedFrom Registry.builtin graph offered node =
      [⟨.uniform, u.kind.dataType, u.name, none⟩] := by
  have huniform : node.isUniform := by simp [Node.isUniform, h.type]
  obtain ⟨id, value, hpayload, hu⟩ := h.refers
  -- a reference goes to the generator of the uniform's kind, any other node there directly
  by_cases hkind : node.kind = "uniform"
  · have hg : Registry.builtin.find? node.kind = some .uniform := by rw [hkind, builtin_eq]; rfl
    let seen : Node := { node with data := .ofUniform node.name u }
    have hseen : seen.name = node.name := NodeFields.toData_name _
    have hseenUniform : seen.isUniform := huniform
    obtain ⟨g, hfind, _, hplan⟩ := plan_uniformKind graph hseenUniform u.kind offered
    have hdispatch : dispatch Registry.builtin graph node = .ok (g, seen) := by
      simp [dispatch, hg, hpayload, hu, hfind, seen]
    simp only [ShaderGraph.plannedFrom, hdispatch, hplan, hseen, h.name]
  · have hown : node.kind = u.kind.name := by
      rcases h.kind with hk | hk | hk
      · exact absurd (by rw [Node.kind, hk, Option.getD_none, h.type]) hkind
      · exact absurd (by rw [Node.kind, hk, Option.getD_some]) hkind
      · rw [Node.kind, hk, Option.getD_some]
    obtain ⟨g, hfind, hg, hplan⟩ := plan_uniformKind graph huniform u.kind offered
    have hdispatch : dispatch Registry.builtin graph node = .ok (g, node) :=
      dispatch_of_kind (hown ▸ hfind) hg
    simp only [ShaderGraph.plannedFrom, hdispatch, hplan, h.name]

end ReadsUniform

/-! ## Runs -/

theorem Pass.declaration?_addAll_other {id other : String} (h : other ≠ id) (pass : Pass)
    (is : List Instruction) : (pass.addAll id is).declaration? other = pass.declaration? other := by
  induction is generalizing pass with
  | nil => rfl
  | cons i is ih =>
    refine (ih (pass.add id i)).trans ?_
    rw [declaration?_add, if_neg h]

theorem declaration?_compileNode {registry : Registry} {graph : Graph} {node : Node}
    {pass pass' : Pass} (h : compileNode registry graph node pass = (pass', none)) :
    pass'.declaration? =
      (pass.addAll node.id (plannedFrom registry graph pass.offered node)).declaration? := by
  have hdeclared : pass'.record.declaration? = _ :=
    congrArg Pass.declaration? (compileNode_record h)
  exact hdeclared

/-- The node has declared nothing but the uniform. -/
def Pass.DeclaresOnly (pass : Pass) (node : Node) (u : Uniform) : Prop :=
  ∀ d, pass.declaration? node.id = some d → d = u.declaration

theorem Pass.DeclaresOnly.congr {pass pass' : Pass} {node : Node} {u : Uniform}
    (h : pass.DeclaresOnly node u) (hsame : pass'.declaration? node.id = some u.declaration ∨
      pass'.declaration? node.id = pass.declaration? node.id) : pass'.DeclaresOnly node u := by
  intro d hd
  rcases hsame with hsame | hsame
  · exact (Option.some.inj (hsame.symm.trans hd)).symm
  · exact h d (hsame.symm.trans hd)

namespace ReadsUniform

variable {graph : Graph} {node : Node} {u : Uniform} (h : ReadsUniform graph node u)

include h

/-- **The node is compiled**, for the first time or once more. -/
theorem compileNode {pass pass' : Pass} (honly : pass.DeclaresOnly node u)
    (hrun : compileNode Registry.builtin graph node pass = (pass', none)) :
    pass'.declaration? node.id = some u.declaration := by
  rw [declaration?_compileNode hrun, h.plannedFrom, Pass.addAll, List.foldl_cons, List.foldl_nil,
    Pass.declaration?_add, if_pos rfl]
  cases hd : pass.declaration? node.id with
  | none => rfl
  | some d =>
    obtain rfl := honly d hd
    rfl

/-- **Nodes are compiled one after the other.** A node under the same id is the same node. -/
theorem compileAll (hnode : graph.node? node.id = some node) {nodes : List Node}
    (hpresent : ∀ other ∈ nodes, graph.node? other.id = some other) {pass pass' : Pass}
    (honly : pass.DeclaresOnly node u)
    (hrun : compileAll Registry.builtin graph nodes pass = (pass', none)) :
    pass'.declaration? node.id = some u.declaration ∨
      node ∉ nodes ∧ pass'.declaration? node.id = pass.declaration? node.id := by
  induction nodes generalizing pass with
  | nil =>
    cases hrun
    exact .inr ⟨List.not_mem_nil, rfl⟩
  | cons first nodes ih =>
    rw [← List.singleton_append] at hrun
    obtain ⟨inner, hfirst, hrest⟩ := compileAll_split hrun
    rw [compileAll_singleton] at hfirst
    have hpresent' := fun other ho => hpresent other (List.mem_cons_of_mem first ho)
    -- the node may come up any number of times, in between there are only others
    by_cases hid : node.id = first.id
    · have hsame := hpresent first List.mem_cons_self
      rw [← hid, hnode] at hsame
      obtain rfl := Option.some.inj hsame
      have hdeclared := h.compileNode honly hfirst
      rcases ih hpresent' (honly.congr (.inl hdeclared)) hrest with hlast | ⟨_, hlast⟩
      · exact .inl hlast
      · exact .inl (hlast.trans hdeclared)
    · have hkept : inner.declaration? node.id = pass.declaration? node.id := by
        rw [declaration?_compileNode hfirst, Pass.declaration?_addAll_other hid]
      rcases ih hpresent' (honly.congr (.inr hkept)) hrest with hlast | ⟨hout, hlast⟩
      · exact .inl hlast
      · refine .inr ⟨?_, hlast.trans hkept⟩
        rintro (_ | ⟨_, hmem⟩)
        · exact hid rfl
        · exact hout hmem

/-- A run that compiles the node declares the uniform; any other run leaves its declaration. -/
theorem run (hnode : graph.node? node.id = some node) (sink : String) {pass : Pass}
    (hvisiting : pass.visiting = []) (honly : pass.DeclaresOnly node u) :
    let pass' := (ShaderGraph.run Registry.builtin graph sink pass).1
    pass'.declaration? node.id = some u.declaration ∨
      node ∉ (trace Registry.builtin graph sink).1 ∧
        pass'.declaration? node.id = pass.declaration? node.id :=
  h.compileAll hnode (orderly_trace Registry.builtin graph sink).present honly
    (run_trace Registry.builtin graph sink hvisiting).1

theorem perform (hnode : graph.node? node.id = some node) {operation : Operation}
    (hown : ∀ i, operation ≠ .add node.id i) {pass : Pass} (hvisiting : pass.visiting = [])
    (honly : pass.DeclaresOnly node u) :
    let pass' := operation.perform Registry.builtin graph pass
    pass'.declaration? node.id = some u.declaration ∨
      pass'.declaration? node.id = pass.declaration? node.id := by
  cases operation with
  | run sink => exact (h.run hnode sink hvisiting honly).imp_right And.right
  | add other i =>
    have hother : node.id ≠ other := by
      rintro rfl
      exact hown i rfl
    exact .inr (by rw [Operation.perform, Pass.declaration?_add, if_neg hother])
  | fail error => exact .inr rfl
  | write source => exact .inr rfl

/-- **Any operations**, except that nothing is handed in for the node itself. -/
theorem performAll (hnode : graph.node? node.id = some node) {operations : List Operation}
    (hown : ∀ i, .add node.id i ∉ operations) {pass : Pass} (hvisiting : pass.visiting = [])
    (honly : pass.DeclaresOnly node u) :
    let pass' := operations.foldl (Operation.perform Registry.builtin graph) pass
    pass'.declaration? node.id = some u.declaration ∨
      pass'.declaration? node.id = pass.declaration? node.id := by
  induction operations generalizing pass with
  | nil => exact .inr rfl
  | cons operation operations ih =>
    have hother : ∀ i, operation ≠ .add node.id i := fun i hi => hown i (hi ▸ List.mem_cons_self)
    have hfirst := h.perform hnode hother hvisiting honly
    have hvisiting' : (operation.perform Registry.builtin graph pass).visiting = [] :=
      (operation.perform_visiting pass).trans hvisiting
    rcases ih (fun i hi => hown i (List.mem_cons_of_mem _ hi)) hvisiting' (honly.congr hfirst)
      with hlast | hlast
    · exact .inl hlast
    · exact hfirst.imp hlast.trans hlast.trans

/-- Once the node has been compiled, the uniform is declared. -/
theorem history {sink : String} (hcompiled : node ∈ (trace Registry.builtin graph sink).1)
    {operations : List Operation} (hrun : .run sink ∈ operations)
    (hown : ∀ i, .add node.id i ∉ operations) :
    (history Registry.builtin graph operations).declaration? node.id = some u.declaration := by
  have hnode := (orderly_trace Registry.builtin graph sink).present node hcompiled
  obtain ⟨before, after, rfl⟩ := List.append_of_mem hrun
  simp only [List.mem_append, List.mem_cons, not_or] at hown
  have hnew : ({} : Pass).DeclaresOnly node u := by rintro d ⟨⟩
  have hbefore : (ShaderGraph.history Registry.builtin graph before).DeclaresOnly node u :=
    hnew.congr (h.performAll hnode (fun i => (hown i).1) rfl hnew)
  have hvisiting : (ShaderGraph.history Registry.builtin graph before).visiting = [] :=
    history_visiting before
  have hdeclared := (h.run hnode sink hvisiting hbefore).resolve_right fun hout => hout.1 hcompiled
  rw [ShaderGraph.history, List.foldl_append, List.foldl_cons]
  have hafter := h.performAll hnode (fun i => (hown i).2.2) ((run_visiting sink _).trans hvisiting)
    (hbefore.congr (.inl hdeclared))
  exact hafter.elim id fun hsame => hsame.trans hdeclared

theorem mem : u ∈ graph.uniforms := by
  obtain ⟨id, _, _, hu⟩ := h.refers
  exact List.mem_reverse.mp (List.mem_of_find?_eq_some hu)

end ReadsUniform

/-- **A uniform is declared as what it is fed.** The names of the uniforms are distinct, and a
node reads one of them. A caller uses a pass in any way, except that instructions for the node
itself are left to the runs, and one of the runs compiles the node; it may be stopped after
that. Then the node has declared the uniform under its name, and in every frame the values have
one under that name of just the declared type, whatever value the uniform stores. -/
theorem uniform_declared_as_fed (graph : Graph) (frame : Frame) (operations : List Operation)
    (node : Node) (u : Uniform) (sink : String)
    (hnames : (graph.uniforms.map Uniform.name).Nodup) (hreads : ReadsUniform graph node u)
    (hown : ∀ i, .add node.id i ∉ operations) (hrun : .run sink ∈ operations)
    (hcompiled : node ∈ (trace Registry.builtin graph sink).1) :
    ∃ value, (uniformValues Registry.builtin graph.uniforms frame).find? u.name = some value ∧
      (history Registry.builtin graph operations).declaration? node.id =
        some ⟨.uniform, value.dataType, u.name⟩ := by
  refine ⟨u.valueAt Registry.builtin frame, find?_uniformValues _ frame hnames hreads.mem, ?_⟩
  rw [u.dataType_valueAt]
  exact hreads.history hcompiled hrun hown

/-- A reference to a colour that stores no colour. -/
def Node.tint : Node where
  id := "c"
  type := "uniform"
  data := { name := "tint", payload := .uniform "u" none }

/-- A colour, read by a node that no generator knows. -/
def Graph.halted : Graph where
  nodes := [.tint, { id := "x", type := "mix" }]
  edges := [{ id := "1", source := "c", target := "x" }]
  uniforms := [{ id := "u", name := "tint", kind := .color, value := .array [] },
    { id := "t", name := "time", kind := .time }]

/-- The run is stopped, but not before it has compiled the reference. -/
theorem uniform_declared_as_fed_halted :
    (run Registry.builtin Graph.halted "x" {}).2 = some (.unknownNodeKind "x" "mix") ∧
      ∀ frame, ∃ value,
        (uniformValues Registry.builtin Graph.halted.uniforms frame).find? "tint" = some value ∧
        (history Registry.builtin Graph.halted [.run "x"]).declaration? "c" =
          some ⟨.uniform, value.dataType, "tint"⟩ := by
  have hreads : ReadsUniform Graph.halted Node.tint
      { id := "u", name := "tint", kind := .color, value := .array [] } :=
    ⟨rfl, ⟨"u", none, rfl, rfl⟩, rfl, .inl rfl⟩
  refine ⟨by decide +kernel, fun frame => ?_⟩
  exact uniform_declared_as_fed Graph.halted frame [.run "x"] Node.tint _ "x" (by decide) hreads
    (by simp) (by simp) (List.mem_singleton.mpr rfl)

end ShaderGraph
