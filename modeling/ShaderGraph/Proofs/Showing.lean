import ShaderGraph.Proofs.Sequence

/-!
What a pass records besides instructions: the errors of its nodes, and the shader
of the preview that came last. One node adds one error at most (`compileNode_errors`)
or sets the shader (`compileNode_source`), as it is told from what its sources offer.
Along nodes in order this is what the graph says, so the errors are those of the
nodes one after the other (`Orderly.errors`).
-/

namespace ShaderGraph

variable {registry : Registry} {graph : Graph}

/-- The node whose fault it is. -/
def CompileError.node : CompileError → String
  | insufficientInputs node _ _ _ => node
  | undeclaredInput node _ => node
  | unsupportedOutputType node _ => node

/-- The shader that a preview makes of the instructions before it. -/
def ShaderSource.preview (instructions : List Instruction) (color alpha : Expression) :
    ShaderSource where
  vertex := passthroughVertex
  fragment := renderFragment instructions color alpha

namespace Pass

@[simp] theorem add_errors (pass : Pass) (id : String) (i : Instruction) :
    (pass.add id i).errors = pass.errors := by
  unfold add
  split <;> rfl

@[simp] theorem add_source (pass : Pass) (id : String) (i : Instruction) :
    (pass.add id i).source = pass.source := by
  unfold add
  split <;> rfl

@[simp] theorem addAll_errors (pass : Pass) (id : String) (is : List Instruction) :
    (pass.addAll id is).errors = pass.errors := by
  induction is generalizing pass with
  | nil => rfl
  | cons i is ih => exact (ih (pass.add id i)).trans (add_errors pass id i)

@[simp] theorem addAll_source (pass : Pass) (id : String) (is : List Instruction) :
    (pass.addAll id is).source = pass.source := by
  induction is generalizing pass with
  | nil => rfl
  | cons i is ih => exact (ih (pass.add id i)).trans (add_source pass id i)

end Pass

namespace Generator

/-- The colour and the alpha that a preview shows, given what others offer. -/
def shown? (graph : Graph) (node : Node) (offered : String → Option Socket) :
    Option (Expression × Expression) :=
  match graph.inputEdges node.id with
  | [] => none
  | first :: more =>
    match offered first.source with
    | none => none
    | some s =>
      (shownColor? s.dataType s.name).map fun tint =>
        (tint, .operand (operandOf offered (more.head?.map Edge.source)))

theorem emitPreview_source (graph : Graph) (node : Node) (pass : Pass) :
    (emitPreview graph node pass).source =
      match shown? graph node pass.offered with
      | none => pass.source
      | some (tint, alpha) => .preview pass.instructions tint alpha := by
  simp only [emitPreview, shown?, operand_eq]
  rcases graph.inputEdges node.id with _ | ⟨first, more⟩
  · rfl
  · cases hd : pass.declaration? first.source with
    | none => simp [Pass.offered, hd, Pass.fail]
    | some d =>
      simp only [Pass.offered, hd, Option.map_some]
      cases shownColor? d.dataType d.name <;> rfl

/-- Only a preview sets the shader. -/
theorem emit_source (graph : Graph) (node : Node) (pass : Pass) {g : Generator}
    (h : g ≠ .preview) : (emit graph node pass g).source = pass.source := by
  cases g with
  | preview => exact absurd rfl h
  | operation operator =>
    simp only [emit, emitOperation_eq]
    cases plan graph node pass.offered (.operation operator) with
    | error e => rfl
    | ok is => exact Pass.addAll_source pass node.id is
  | vec2 => simp only [emit, emitVector_eq, Pass.addAll_source]
  | vec3 => simp only [emit, emitVector_eq, Pass.addAll_source]
  | function => simp only [emit, emitFunction_eq, Pass.addAll_source]
  | literal => exact Pass.add_source ..
  | time => exact Pass.add_source ..
  | color => exact Pass.add_source ..
  | uniform => rfl
  | uv => exact Pass.add_source ..

theorem shown?_congr {node : Node} {f g : String → Option Socket}
    (h : ∀ edge ∈ graph.inputEdges node.id, f edge.source = g edge.source) :
    shown? graph node f = shown? graph node g := by
  unfold shown?
  rcases hes : graph.inputEdges node.id with _ | ⟨first, more⟩
  · rfl
  · rw [hes] at h
    have hfirst := h first (by simp)
    have halpha : operandOf f (more.head?.map Edge.source) =
        operandOf g (more.head?.map Edge.source) := by
      cases more with
      | nil => rfl
      | cons second more =>
        have hsecond := h second (by simp)
        simp [operandOf, hsecond]
    simp only [hfirst, halpha]

/-- A node with edges shows something unless there is something wrong with it. -/
theorem plan_preview {node : Node} {offered : String → Option Socket} :
    (∃ e, plan graph node offered .preview = .error e) ↔
      graph.inputEdges node.id ≠ [] ∧ shown? graph node offered = none := by
  simp only [plan, shown?]
  rcases graph.inputEdges node.id with _ | ⟨first, more⟩
  · simp
  · simp only [ne_eq, reduceCtorEq, not_false_eq_true, true_and]
    cases offered first.source with
    | none => simp
    | some s =>
      simp only
      cases shownColor? s.dataType s.name <;> simp

/-- An error names the node that is compiled. -/
theorem plan_error {node : Node} {offered : String → Option Socket} {g : Generator}
    {e : CompileError} (h : plan graph node offered g = .error e) : e.node = node.id := by
  cases g with
  | operation operator =>
    simp only [plan] at h
    split at h
    · split at h
      · cases h; rfl
      · split at h
        · cases h; rfl
        · cases h
    · cases h; rfl
  | preview =>
    simp only [plan] at h
    split at h
    · cases h
    · split at h
      · cases h; rfl
      · split at h
        · cases h; rfl
        · cases h
  | literal => cases h
  | vec2 => cases h
  | vec3 => cases h
  | time => cases h
  | color => cases h
  | uniform => cases h
  | function => cases h
  | uv => cases h

end Generator

/-! ## One node -/

/-- What is wrong with a node, given what others offer. -/
def faultFrom (registry : Registry) (graph : Graph) (offered : String → Option Socket)
    (node : Node) : Option CompileError :=
  match dispatch registry graph node with
  | .error _ => none
  | .ok (g, seen) =>
    match g.plan graph seen offered with
    | .error e => some e
    | .ok _ => none

/-- What a node shows, given what others offer. -/
def shownFrom (registry : Registry) (graph : Graph) (offered : String → Option Socket)
    (node : Node) : Option (Expression × Expression) :=
  match dispatch registry graph node with
  | .ok (.preview, seen) => Generator.shown? graph seen offered
  | _ => none

/-- What is wrong with a node. -/
def fault (registry : Registry) (graph : Graph) (node : Node) : Option CompileError :=
  faultFrom registry graph (outline registry graph) node

/-- What a node shows. -/
def shown (registry : Registry) (graph : Graph) (node : Node) : Option (Expression × Expression) :=
  shownFrom registry graph (outline registry graph) node

section Node

variable {node : Node} {pass pass' : Pass}

theorem compileNode_errors (h : compileNode registry graph node pass = (pass', none)) :
    pass'.errors.toList =
      pass.errors.toList ++ (faultFrom registry graph pass.offered node).toList := by
  rw [compileNode_eq] at h
  unfold faultFrom
  cases hd : dispatch registry graph node with
  | error e => simp [hd] at h
  | ok found =>
    obtain ⟨g, seen⟩ := found
    simp only [hd] at h
    rw [Generator.emit_eq] at h
    cases hp : g.plan graph seen pass.offered with
    | error e =>
      simp only [hp] at h ⊢
      cases h
      simp [Pass.fail]
    | ok is =>
      simp only [hp] at h ⊢
      cases h
      simp

theorem compileNode_source (h : compileNode registry graph node pass = (pass', none)) :
    pass'.source =
      match shownFrom registry graph pass.offered node with
      | none => pass.source
      | some (color, alpha) => ShaderSource.preview pass.instructions color alpha := by
  rw [compileNode_eq] at h
  unfold shownFrom
  cases hd : dispatch registry graph node with
  | error e => simp [hd] at h
  | ok found =>
    obtain ⟨g, seen⟩ := found
    simp only [hd] at h
    cases h
    by_cases hg : g = .preview
    · subst hg
      exact Generator.emitPreview_source graph seen pass
    · rw [Generator.emit_source graph seen pass hg]
      cases g <;> first | rfl | exact absurd rfl hg

theorem faultFrom_congr {f g : String → Option Socket}
    (h : ∀ edge ∈ graph.inputEdges node.id, f edge.source = g edge.source) :
    faultFrom registry graph f node = faultFrom registry graph g node := by
  unfold faultFrom
  split
  · rfl
  · rename_i hd
    rw [Generator.plan_congr (by rw [dispatch_id hd]; exact h)]

theorem shownFrom_congr {f g : String → Option Socket}
    (h : ∀ edge ∈ graph.inputEdges node.id, f edge.source = g edge.source) :
    shownFrom registry graph f node = shownFrom registry graph g node := by
  unfold shownFrom
  split
  · rename_i hd
    exact Generator.shown?_congr (by rw [dispatch_id hd]; exact h)
  · rfl

theorem fault_node {e : CompileError} (h : fault registry graph node = some e) :
    e.node = node.id := by
  unfold fault faultFrom at h
  split at h
  · cases h
  · rename_i hd
    split at h
    · rename_i hp
      cases h
      exact (Generator.plan_error hp).trans (dispatch_id hd)
    · cases h

end Node

/-! ## Nodes in order -/

namespace Step

variable {done : List Node} {node : Node} {pass pass' : Pass}

theorem errors (h : Step registry graph done node pass pass') :
    pass'.errors.toList = pass.errors.toList ++ (fault registry graph node).toList := by
  rw [compileNode_errors h.compiled, faultFrom_congr h.offered]
  rfl

theorem source (h : Step registry graph done node pass pass') :
    pass'.source =
      match shown registry graph node with
      | none => pass.source
      | some (color, alpha) => ShaderSource.preview pass.instructions color alpha := by
  rw [compileNode_source h.compiled, shownFrom_congr h.offered]
  rfl

end Step

/-- **The errors are those of the nodes**, in order. -/
theorem Orderly.errors {nodes : List Node} {pass : Pass} (ho : Orderly graph graph.bound nodes)
    (hc : compileAll registry graph nodes {} = (pass, none)) :
    pass.errors.toList = nodes.filterMap (fault registry graph) := by
  refine ho.induction (P := fun nodes pass =>
    pass.errors.toList = nodes.filterMap (fault registry graph)) ?_ rfl hc
  intro done node pass pass' hone hdone
  rw [hone.errors, hdone, List.filterMap_append]
  cases hf : fault registry graph node <;> simp [hf]

/-- **There is a shader** as soon as one of the nodes shows something. -/
theorem Orderly.source {nodes : List Node} {pass : Pass} (ho : Orderly graph graph.bound nodes)
    (hc : compileAll registry graph nodes {} = (pass, none)) :
    (pass.source = {} ∧ ∀ node ∈ nodes, shown registry graph node = none) ∨
      (∃ node ∈ nodes, (shown registry graph node).isSome) ∧
        ∃ is color alpha, pass.source = ShaderSource.preview is color alpha := by
  refine ho.induction (P := fun nodes pass =>
    (pass.source = {} ∧ ∀ node ∈ nodes, shown registry graph node = none) ∨
      (∃ node ∈ nodes, (shown registry graph node).isSome) ∧
        ∃ is color alpha, pass.source = ShaderSource.preview is color alpha) ?_ (by simp) hc
  intro done node pass pass' hone hdone
  have hsource := hone.source
  cases hs : shown registry graph node with
  | none =>
    rw [hs] at hsource
    rw [hsource]
    rcases hdone with ⟨hempty, hnone⟩ | ⟨⟨other, ho, hother⟩, hshader⟩
    · left
      refine ⟨hempty, ?_⟩
      intro other ho
      rcases List.mem_append.mp ho with ho | ho
      · exact hnone other ho
      · rw [List.mem_singleton.mp ho]
        exact hs
    · exact .inr ⟨⟨other, List.mem_append_left _ ho, hother⟩, hshader⟩
  | some found =>
    rw [hs] at hsource
    exact .inr ⟨⟨node, by simp, by simp [hs]⟩, _, _, _, hsource⟩

end ShaderGraph
