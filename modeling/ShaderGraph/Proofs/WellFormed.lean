import ShaderGraph.Proofs.Latest
import ShaderGraph.Proofs.Outcome
import ShaderGraph.Proofs.Showing
import ShaderGraph.Proofs.StaticType

/-!
When a preview renders. With the built-in kinds, a node has an error exactly when it is
ill-formed (`fault_isSome_iff`), and a shader comes out exactly when no node behind the
sink is ill-formed and one of them is a preview with something to show
(`compile_renders_iff`).
-/

namespace ShaderGraph

variable {graph : Graph}

/-- A product or sum that declares nothing, or a preview of what declares nothing or
has a type that cannot be shown. -/
def IllFormed (graph : Graph) (node : Node) : Prop :=
  (node.isArithmetic ∧ ¬ Declares graph node.id) ∨
    (node.kind = "preview" ∧ ∃ first more, graph.inputEdges node.id = first :: more ∧
      (¬ Declares graph first.source ∨
        ¬ ∃ type, HasType graph first.source type ∧
          (type = .float ∨ type = .vec2 ∨ type = .vec3)))

/-! ## Faults -/

theorem dispatch_operation {node seen : Node} {operator : String}
    (h : dispatch Registry.builtin graph node = .ok (.operation operator, seen)) :
    node.isArithmetic ∧ (operator = "*" ∨ operator = "+") := by
  rcases dispatch_cases h with ⟨hk, _⟩ | ⟨u, hk, _⟩
  · have hm := Table.mem_of_find? hk
    simp only [builtin_eq, List.mem_cons, Prod.mk.injEq, reduceCtorEq, and_false,
      Generator.operation.injEq, List.not_mem_nil, or_false, false_or] at hm
    rcases hm with ⟨hadd, hplus⟩ | ⟨hmultiply, htimes⟩
    · exact ⟨.inr hadd, .inr hplus⟩
    · exact ⟨.inl hmultiply, .inl htimes⟩
  · cases hu : u.kind <;> simp [hu, UniformKind.name, builtin_eq, Table.find?] at hk

/-- A generator that no uniform uses, and that has one name, compiles nodes of that kind. -/
theorem dispatch_named {node seen : Node} {g : Generator} {name : String}
    (hu : ∀ kind : UniformKind, Registry.builtin.find? kind.name ≠ some g)
    (hname : ∀ entry ∈ Registry.builtin, entry.2 = g → entry.1 = name)
    (h : dispatch Registry.builtin graph node = .ok (g, seen)) :
    node.kind = name ∧ seen = node := by
  rcases dispatch_cases h with ⟨hk, hseen⟩ | ⟨u, hk, _⟩
  · exact ⟨hname _ (Table.mem_of_find? hk) rfl, hseen⟩
  · exact absurd hk (hu u.kind)

theorem dispatch_preview {node seen : Node}
    (h : dispatch Registry.builtin graph node = .ok (.preview, seen)) :
    node.kind = "preview" ∧ seen = node :=
  dispatch_named (fun kind => by cases kind <;> decide) (by decide) h

theorem dispatch_function {node seen : Node}
    (h : dispatch Registry.builtin graph node = .ok (.function, seen)) :
    node.kind = "function" ∧ seen = node :=
  dispatch_named (fun kind => by cases kind <;> decide) (by decide) h

theorem dispatch_of_preview {node : Node} (hk : node.kind = "preview") :
    dispatch Registry.builtin graph node = .ok (.preview, node) :=
  dispatch_of_kind (by rw [hk, builtin_eq]; rfl) (by simp)

theorem fault_of_dispatch {registry : Registry} {node seen : Node} {g : Generator}
    (h : dispatch registry graph node = .ok (g, seen)) :
    (fault registry graph node).isSome ↔
      ∃ e, g.plan graph seen (outline registry graph) = .error e := by
  unfold fault faultFrom
  simp only [h]
  cases g.plan graph seen (outline registry graph) <;> simp

/-- A product or a sum either has an error or declares something. -/
theorem fault_arithmetic {node : Node} (hk : node.isArithmetic)
    (hn : graph.node? node.id = some node) (hw : graph.Within graph.bound node.id) :
    (fault Registry.builtin graph node).isSome ↔ ¬ Declares graph node.id := by
  obtain ⟨operator, hd⟩ : ∃ operator,
      dispatch Registry.builtin graph node = .ok (.operation operator, node) := by
    rcases hk with hk | hk
    · exact ⟨"*", dispatch_of_kind (by rw [hk, builtin_eq]; rfl) (by simp)⟩
    · exact ⟨"+", dispatch_of_kind (by rw [hk, builtin_eq]; rfl) (by simp)⟩
  have houtline : outline Registry.builtin graph node.id =
      outlineStep Registry.builtin graph node (outline Registry.builtin graph) := outline_eq hw hn
  rw [fault_of_dispatch hd, declares_iff hw, houtline, outlineStep_of_dispatch hd]
  simp only [Generator.plan]
  rcases graph.inputEdges node.id with _ | ⟨left, _ | ⟨right, _ | ⟨_, _⟩⟩⟩
  · simp
  · simp
  · simp only
    cases outline Registry.builtin graph left.source with
    | none => simp
    | some a => cases outline Registry.builtin graph right.source <;> simp
  · simp

theorem Generator.shownColor?_eq_none {type : DataType} {name : String} :
    shownColor? type name = none ↔ ¬ (type = .float ∨ type = .vec2 ∨ type = .vec3) := by
  cases type <;> simp [shownColor?]

/-- What can be shown is declared with a type that can be shown. -/
theorem shown?_eq_none {node : Node} {first : Edge} {more : List Edge}
    (he : graph.inputEdges node.id = first :: more)
    (hw : graph.Within graph.bound first.source) :
    Generator.shown? graph node (outline Registry.builtin graph) = none ↔
      ¬ Declares graph first.source ∨
        ¬ ∃ type, HasType graph first.source type ∧
          (type = .float ∨ type = .vec2 ∨ type = .vec3) := by
  rw [declares_iff hw]
  simp only [Generator.shown?, he]
  cases ho : outline Registry.builtin graph first.source with
  | none => simp
  | some s => simp [Generator.shownColor?_eq_none, hasType_iff hw ho]

/-- **A node has an error** exactly when it is ill-formed. -/
theorem fault_isSome_iff {node : Node} (hn : graph.node? node.id = some node)
    (hw : graph.Within graph.bound node.id) :
    (fault Registry.builtin graph node).isSome ↔ IllFormed graph node := by
  unfold IllFormed
  by_cases ha : node.isArithmetic
  · have hp : node.kind ≠ "preview" := by
      rcases ha with ha | ha <;> simp [ha]
    simp [ha, hp, fault_arithmetic ha hn hw]
  by_cases hp : node.kind = "preview"
  · rw [fault_of_dispatch (dispatch_of_preview hp), Generator.plan_preview]
    simp only [ha, false_and, false_or, hp, true_and]
    rcases he : graph.inputEdges node.id with _ | ⟨first, more⟩
    · simp
    · have hfirst : graph.Within graph.bound first.source :=
        hw.succ.source hn (by simp [he])
      rw [shown?_eq_none he hfirst]
      simp
  · simp only [ha, hp, false_and, or_self, iff_false]
    cases hd : dispatch Registry.builtin graph node with
    | error e => simp [fault, faultFrom, hd]
    | ok found =>
      obtain ⟨g, seen⟩ := found
      rw [fault_of_dispatch hd]
      rintro ⟨e, he⟩
      cases g with
      | operation operator => exact ha (dispatch_operation hd).1
      | preview => exact hp (dispatch_preview hd).1
      | _ => cases he

/-- A node without an error shows something if it is a preview with edges. -/
theorem shown_isSome_iff {node : Node} (h : fault Registry.builtin graph node = none) :
    (shown Registry.builtin graph node).isSome ↔
      node.kind = "preview" ∧ graph.inputEdges node.id ≠ [] := by
  constructor
  · intro hs
    unfold shown shownFrom at hs
    split at hs
    · rename_i seen hd
      obtain ⟨hk, rfl⟩ := dispatch_preview hd
      refine ⟨hk, ?_⟩
      intro he
      simp [Generator.shown?, he] at hs
    · cases hs
  · rintro ⟨hk, he⟩
    have hd : dispatch Registry.builtin graph node = .ok (.preview, node) :=
      dispatch_of_preview hk
    have hfine := fault_of_dispatch hd
    rw [h, Generator.plan_preview] at hfine
    simp only [Option.isSome_none, Bool.false_eq_true, false_iff, not_and] at hfine
    simp only [shown, shownFrom, hd]
    exact Option.isSome_iff_ne_none.mpr (hfine he)

/-! ## The shader -/

section Compile

variable {registry : Registry} {sink : String} {shader : CompiledShader}

theorem compile_run (h : compile registry graph sink = .ok shader) :
    (run registry graph sink {}).2 = none ∧ shader = (run registry graph sink {}).1.finish := by
  unfold compile at h
  rcases hrun : run registry graph sink {} with ⟨pass, _ | e⟩
  · rw [hrun] at h
    cases h
    exact ⟨rfl, rfl⟩
  · rw [hrun] at h
    cases h

theorem Pass.finish_errors (pass : Pass) : pass.finish.errors = pass.errors.toList := by
  unfold finish hasErrors
  split
  · rfl
  · rename_i h
    simpa using h

theorem Pass.finish_source (pass : Pass) :
    pass.finish.source = if pass.errors.toList = [] then pass.source else {} := by
  unfold finish hasErrors
  by_cases h : pass.errors = #[] <;> simp [h]

/-- The errors of a compilation are those of the nodes behind the sink. -/
theorem compile_errors (h : compile registry graph sink = .ok shader) :
    shader.errors = (graph.postorder sink).filterMap (fault registry graph) := by
  obtain ⟨hrun, rfl⟩ := compile_run h
  rw [Pass.finish_errors]
  exact (orderly_postorder hrun).errors (run_ready hrun).2.2

/-- There is a shader if there is no error and something is shown. -/
theorem compile_source (h : compile registry graph sink = .ok shader) (hfine : shader.errors = []) :
    (shader.source = {} ∧ ∀ node ∈ graph.postorder sink, shown registry graph node = none) ∨
      (∃ node ∈ graph.postorder sink, (shown registry graph node).isSome) ∧
        ∃ is color alpha, shader.source = ShaderSource.preview is color alpha := by
  obtain ⟨hrun, rfl⟩ := compile_run h
  rw [Pass.finish_errors] at hfine
  rw [Pass.finish_source, if_pos hfine]
  exact (orderly_postorder hrun).source (run_ready hrun).2.2

theorem compile_source_of_errors (h : compile registry graph sink = .ok shader)
    (hbad : shader.errors ≠ []) : shader.source = {} := by
  obtain ⟨hrun, rfl⟩ := compile_run h
  rw [Pass.finish_errors] at hbad
  rw [Pass.finish_source, if_neg hbad]

theorem compile_within (h : compile registry graph sink = .ok shader) :
    graph.Within graph.bound sink := (visit_ok (Prod.ext rfl (compile_run h).1)).1

end Compile

theorem ShaderSource.preview_ne_empty (is : List Instruction) (color alpha : Expression) :
    (preview is color alpha).vertex ≠ "" ∧ (preview is color alpha).fragment ≠ "" := by
  constructor
  · show passthroughVertex ≠ ""
    decide
  · show renderFragment is color alpha ≠ ""
    simp [renderFragment]

/-- Behind a sink without edges there is nothing else. -/
theorem Graph.Reached.eq_sink {sink : String} {node other : Node}
    (hn : graph.node? sink = some node) (he : graph.inputEdges node.id = [])
    (hr : graph.Reached sink other) : other = node := by
  induction hr with
  | sink h => exact Option.some.inj (h.symm.trans hn)
  | input _ hi ih =>
    rw [ih, Graph.mem_inputNodes, he] at hi
    obtain ⟨edge, hedge, _⟩ := hi
    cases hedge

section Builtin

variable {sink : String} {shader : CompiledShader}

/-- The nodes behind the sink that have an error are those that are ill-formed. -/
theorem illFormed_iff_error (h : compile Registry.builtin graph sink = .ok shader) {node : Node}
    (hr : graph.Reached sink node) :
    IllFormed graph node ↔ ∃ e ∈ shader.errors, e.node = node.id := by
  have hwithin := compile_within h
  rw [compile_errors h, ← fault_isSome_iff hr.node? (hwithin.reached hr)]
  constructor
  · intro hfault
    obtain ⟨e, he⟩ := Option.isSome_iff_exists.mp hfault
    exact ⟨e, List.mem_filterMap.mpr ⟨node, (Graph.mem_postorder_iff hwithin).mpr hr, he⟩,
      fault_node he⟩
  · rintro ⟨e, hmem, hid⟩
    obtain ⟨other, hother, he⟩ := List.mem_filterMap.mp hmem
    have hreached := (Graph.mem_postorder_iff hwithin).mp hother
    have hsame : other = node := by
      have hn := hr.node?
      rw [← hid, fault_node he, hreached.node?] at hn
      exact Option.some.inj hn
    rw [← hsame, he]
    rfl

theorem errors_eq_nil_iff (h : compile Registry.builtin graph sink = .ok shader) :
    shader.errors = [] ↔ ∀ node, graph.Reached sink node → ¬ IllFormed graph node := by
  have hwithin := compile_within h
  rw [compile_errors h, List.filterMap_eq_nil_iff]
  refine forall_congr' fun node => ?_
  rw [Graph.mem_postorder_iff hwithin]
  refine forall_congr' fun hr => ?_
  rw [← fault_isSome_iff hr.node? (hwithin.reached hr), Option.not_isSome_iff_eq_none]

/-- There is a shader exactly if there is no error and a preview with an edge. -/
theorem source_eq (h : compile Registry.builtin graph sink = .ok shader) :
    (shader.source = {} ∧ ¬ (shader.errors = [] ∧ ∃ node, graph.Reached sink node ∧
        node.kind = "preview" ∧ graph.inputEdges node.id ≠ [])) ∨
      ((∃ is color alpha, shader.source = ShaderSource.preview is color alpha) ∧
        shader.errors = [] ∧ ∃ node, graph.Reached sink node ∧
          node.kind = "preview" ∧ graph.inputEdges node.id ≠ []) := by
  by_cases hfine : shader.errors = []
  · have hshown : ∀ node ∈ graph.postorder sink,
        ((shown Registry.builtin graph node).isSome ↔
          node.kind = "preview" ∧ graph.inputEdges node.id ≠ []) := by
      intro node hn
      have hnone := hfine
      rw [compile_errors h, List.filterMap_eq_nil_iff] at hnone
      exact shown_isSome_iff (hnone node hn)
    have hmem : ∀ node, node ∈ graph.postorder sink ↔ graph.Reached sink node :=
      fun _ => Graph.mem_postorder_iff (compile_within h)
    rcases compile_source h hfine with ⟨hempty, hnone⟩ | ⟨⟨node, hn, hsome⟩, hsource⟩
    · refine .inl ⟨hempty, ?_⟩
      rintro ⟨_, node, hr, hpreview⟩
      have hn := (hmem node).mpr hr
      have hsome := (hshown node hn).mpr hpreview
      rw [hnone node hn] at hsome
      cases hsome
    · exact .inr ⟨hsource, hfine, node, (hmem node).mp hn, (hshown node hn).mp hsome⟩
  · exact .inl ⟨compile_source_of_errors h hfine, fun hall => hfine hall.1⟩

end Builtin

/-- **A preview renders if and only if its graph is well-formed.** With the built-in kinds,
the nodes behind the sink that have an error are those that are ill-formed; so there is no
error exactly when none of them is, and a shader comes out exactly when moreover one of them
is a preview with an incoming edge. Where the sink is a preview, that is its own edge. The
incoming edges of a node are those that `inputEdges` finds; if no two edges share an id, these
are all that end at the node. -/
theorem compile_renders_iff (graph : Graph) (sink : String) (shader : CompiledShader)
    (h : compile Registry.builtin graph sink = .ok shader) :
    (∀ node, graph.Reached sink node →
      (IllFormed graph node ↔ ∃ e ∈ shader.errors, e.node = node.id)) ∧
      (shader.errors = [] ↔ ∀ node, graph.Reached sink node → ¬ IllFormed graph node) ∧
      (shader.source.fragment ≠ "" ↔
        (∀ node, graph.Reached sink node → ¬ IllFormed graph node) ∧
          ∃ node, graph.Reached sink node ∧ node.kind = "preview" ∧
            graph.inputEdges node.id ≠ []) ∧
      (shader.source.vertex ≠ "" ↔ shader.source.fragment ≠ "") ∧
      (∀ node, graph.node? sink = some node → node.kind = "preview" →
        (shader.source.fragment ≠ "" ↔
          graph.inputEdges node.id ≠ [] ∧
            ∀ other, graph.Reached sink other → ¬ IllFormed graph other)) ∧
      ((graph.edges.map Edge.id).Nodup →
        ∀ id, graph.inputEdges id = graph.edges.filter (·.target == id)) := by
  have hfine := errors_eq_nil_iff h
  have hfragment : shader.source.fragment ≠ "" ↔
      (∀ node, graph.Reached sink node → ¬ IllFormed graph node) ∧
        ∃ node, graph.Reached sink node ∧ node.kind = "preview" ∧
          graph.inputEdges node.id ≠ [] := by
    rw [← hfine]
    rcases source_eq h with ⟨hempty, hnot⟩ | ⟨⟨is, color, alpha, hsource⟩, hall⟩
    · simp [hempty, hnot]
    · rw [hsource]
      exact iff_of_true (ShaderSource.preview_ne_empty is color alpha).2 hall
  have hvertex : shader.source.vertex ≠ "" ↔ shader.source.fragment ≠ "" := by
    rcases source_eq h with ⟨hempty, _⟩ | ⟨⟨is, color, alpha, hsource⟩, _⟩
    · simp [hempty]
    · rw [hsource]
      obtain ⟨hv, hf⟩ := ShaderSource.preview_ne_empty is color alpha
      exact iff_of_true hv hf
  refine ⟨fun node hr => illFormed_iff_error h hr, hfine, hfragment, hvertex, ?_,
    Graph.inputEdges_of_nodup⟩
  intro node hn hk
  rw [hfragment, and_comm]
  refine and_congr_left fun _ => ⟨?_, fun he => ⟨node, .sink hn, hk, he⟩⟩
  rintro ⟨other, hr, _, hother⟩ he
  rw [hr.eq_sink hn he] at hother
  exact hother he

/-- A product that lacks an input, and a preview of it. -/
def Graph.lacking : Graph where
  nodes := [{ id := "x", type := "float", data := { name := "x" } },
    { id := "product", type := "multiply", data := { name := "product" } },
    { id := "out", type := "preview" }]
  edges := [{ id := "1", source := "x", target := "product" },
    { id := "2", source := "product", target := "out" }]

theorem compile_renders_iff_doubled_lacking :
    (∃ shader, compile Registry.builtin Graph.doubled "out" = .ok shader ∧
      (∀ node, Graph.doubled.Reached "out" node → ¬ IllFormed Graph.doubled node) ∧
      shader.source.fragment ≠ "" ∧
      Graph.doubled.inputEdges "out" = Graph.doubled.edges.filter (·.target == "out")) ∧
    ∃ shader, compile Registry.builtin Graph.lacking "out" = .ok shader ∧
      (∃ node, Graph.lacking.Reached "out" node ∧ IllFormed Graph.lacking node) ∧
      shader.source.fragment = "" := by
  constructor
  · obtain ⟨shader, h⟩ : ∃ shader, compile Registry.builtin Graph.doubled "out" = .ok shader :=
      compile_ok_iff.mpr (by decide +kernel)
    have herrors : shader.errors = [] := by
      rw [(compile_run h).2]
      decide +kernel
    obtain ⟨_, hfine, hfragment, _, _, hedges⟩ := compile_renders_iff Graph.doubled "out" shader h
    have hwell := hfine.mp herrors
    have hsink : ∃ node, Graph.doubled.node? "out" = some node ∧ node.kind = "preview" ∧
        Graph.doubled.inputEdges node.id ≠ [] :=
      ⟨_, rfl, by decide, by simp [Graph.doubled, Graph.inputEdges, Graph.edge?]⟩
    obtain ⟨node, hn, hk, he⟩ := hsink
    exact ⟨shader, h, hwell, hfragment.mpr ⟨hwell, node, .sink hn, hk, he⟩,
      hedges (by decide) "out"⟩
  · obtain ⟨shader, h⟩ : ∃ shader, compile Registry.builtin Graph.lacking "out" = .ok shader :=
      compile_ok_iff.mpr (by decide +kernel)
    have herrors : shader.errors ≠ [] := by
      rw [(compile_run h).2]
      decide +kernel
    obtain ⟨_, hfine, hfragment, _⟩ := compile_renders_iff Graph.lacking "out" shader h
    refine ⟨shader, h, ?_, ?_⟩
    · by_contra hno
      push Not at hno
      exact herrors (hfine.mpr hno)
    · by_contra hshown
      exact herrors (hfine.mpr (hfragment.mp hshown).1)

end ShaderGraph
