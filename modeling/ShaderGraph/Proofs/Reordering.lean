import Mathlib.Data.List.Perm.Basic
import ShaderGraph.Proofs.History
import ShaderGraph.Proofs.Latest
import ShaderGraph.Proofs.Locality
import ShaderGraph.Proofs.Reading
import ShaderGraph.Proofs.WellFormed

/-!
Graphs that differ in the order of their edges only. The order counts for sums,
products and previews, and among the edges into one handle; anywhere else it decides
no more than when a node is compiled.

Nodes do not get in each other's way: what a pass records for a node follows from
what was handed in for that node, whatever came in between (`AgreeAt.addEach`). A
node hands in the same each time it is compiled, and in graphs that are `Reordered`
it hands in the same and is compiled as often, so they record the same for it
(`run_reordered`).
-/

namespace ShaderGraph

/-! ## Nodes do not interfere -/

namespace Pass

/-- Two passes have recorded the same for a node. -/
structure AgreeAt (p q : Pass) (id : String) : Prop where
  emissions : p.emissionsOf id = q.emissionsOf id
  declaration : p.declaration? id = q.declaration? id

namespace AgreeAt

variable {p q r : Pass} {id : String}

theorem refl (p : Pass) (id : String) : p.AgreeAt p id := ⟨rfl, rfl⟩

theorem symm (h : p.AgreeAt q id) : q.AgreeAt p id := ⟨h.emissions.symm, h.declaration.symm⟩

theorem trans (h : p.AgreeAt q id) (h' : q.AgreeAt r id) : p.AgreeAt r id :=
  ⟨h.emissions.trans h'.emissions, h.declaration.trans h'.declaration⟩

theorem add (h : p.AgreeAt q id) (i : Instruction) : (p.add id i).AgreeAt (q.add id i) id where
  emissions := by rw [emissionsOf_add, emissionsOf_add, h.emissions, h.declaration]
  declaration := by rw [declaration?_add, declaration?_add, h.declaration]

theorem add_other {other : String} (h : p.AgreeAt q id) (ho : other ≠ id) (i : Instruction) :
    (p.add other i).AgreeAt q id where
  emissions := by rw [emissionsOf_add, if_neg ho.symm, List.append_nil, h.emissions]
  declaration := by rw [declaration?_add, if_neg ho.symm, h.declaration]

/-- **Only the calls for a node count for it.** -/
theorem addEach (h : p.AgreeAt q id) (calls : List (String × Instruction)) :
    (p.addEach calls).AgreeAt (q.addEach (calls.filter (·.1 == id))) id := by
  induction calls generalizing p q with
  | nil => exact h
  | cons call calls ih =>
    obtain ⟨other, i⟩ := call
    by_cases ho : other = id
    · subst ho
      rw [List.filter_cons_of_pos (by simp)]
      exact ih (h.add i)
    · rw [List.filter_cons_of_neg (by simpa using ho)]
      exact ih (h.add_other ho i)

end AgreeAt

theorem count_emissions (pass : Pass) (e : Emission) :
    pass.emissions.toList.count e = (pass.emissionsOf e.node).count e.instruction := by
  unfold emissionsOf
  induction pass.emissions.toList with
  | nil => rfl
  | cons f fs ih =>
    obtain ⟨node, i⟩ := e
    obtain ⟨other, j⟩ := f
    by_cases ho : other = node
    · simp [List.count_cons, ho, ih]
    · simp [ho, ih]

theorem perm_of_agreeAt {p q : Pass} (h : ∀ id, p.AgreeAt q id) :
    p.emissions.toList.Perm q.emissions.toList := by
  apply List.perm_iff_count.mpr
  intro e
  rw [count_emissions, count_emissions, (h e.node).emissions]

theorem ascending_add {pass : Pass} (h : pass.declarations.Ascending) (id : String)
    (i : Instruction) : (pass.add id i).declarations.Ascending := by
  unfold add
  split
  · exact h
  · exact h.insert ..

theorem ascending_addEach {pass : Pass} (h : pass.declarations.Ascending)
    (calls : List (String × Instruction)) : (pass.addEach calls).declarations.Ascending := by
  induction calls generalizing pass with
  | nil => exact h
  | cons call calls ih => exact ih (ascending_add h call.1 call.2)

/-- **Calls for different nodes may change places.** -/
theorem addEach_reordered {calls others : List (String × Instruction)}
    (h : ∀ id, calls.filter (·.1 == id) = others.filter (·.1 == id)) :
    let p := addEach {} calls
    let q := addEach {} others
    (∀ id, p.AgreeAt q id) ∧ p.emissions.toList.Perm q.emissions.toList ∧
      p.declarations = q.declarations := by
  have hagree : ∀ id, (addEach {} calls).AgreeAt (addEach {} others) id := by
    intro id
    have hcalls := (AgreeAt.refl {} id).addEach calls
    have hothers := (AgreeAt.refl {} id).addEach others
    rw [h id] at hcalls
    exact hcalls.trans hothers.symm
  have hnew : Table.Ascending ({} : Pass).declarations := List.Pairwise.nil
  exact ⟨hagree, perm_of_agreeAt hagree, (ascending_addEach hnew calls).ext
    (ascending_addEach hnew others) fun id => (hagree id).declaration⟩

theorem add_record (pass : Pass) (id : String) (i : Instruction) :
    (pass.add id i).record = pass.record.add id i := by
  have hd : pass.record.declaration? id = pass.declaration? id := rfl
  unfold add
  rw [hd]
  cases accept (pass.declaration? id) i <;> rfl

theorem addAll_record (pass : Pass) (id : String) (is : List Instruction) :
    (pass.addAll id is).record = pass.record.addEach (is.map fun i => (id, i)) := by
  induction is generalizing pass with
  | nil => rfl
  | cons i is ih =>
    show ((pass.add id i).addAll id is).record = (pass.record.add id i).addEach _
    rw [ih, add_record]

end Pass

/-! ## The calls of nodes in order -/

section Nodes

variable {registry : Registry} {graph : Graph}

/-- The instructions that a node hands in, as calls. -/
def callsOf (registry : Registry) (graph : Graph) (node : Node) : List (String × Instruction) :=
  (planned registry graph node).map fun i => (node.id, i)

/-- **What nodes record**, compiled in order, is what their calls record. -/
theorem Orderly.record {nodes : List Node} {pass : Pass} (ho : Orderly graph graph.bound nodes)
    (hc : compileAll registry graph nodes {} = (pass, none)) :
    pass.record = Pass.addEach {} (nodes.flatMap (callsOf registry graph)) := by
  refine ho.induction (P := fun nodes pass =>
    pass.record = Pass.addEach {} (nodes.flatMap (callsOf registry graph))) ?_ rfl hc
  intro done node pass pass' hone hdone
  rw [compileNode_record hone.compiled, plannedFrom_congr hone.offered, Pass.addAll_record, hdone,
    List.flatMap_append, List.flatMap_singleton]
  exact (List.foldl_append ..).symm

theorem filter_callsOf (nodes : List Node) (id : String) :
    (nodes.flatMap (callsOf registry graph)).filter (·.1 == id) =
      (nodes.filter (·.id == id)).flatMap (callsOf registry graph) := by
  induction nodes with
  | nil => rfl
  | cons node nodes ih =>
    rw [List.flatMap_cons, List.filter_append, ih]
    by_cases hid : node.id = id
    · simp [hid, callsOf]
    · simp [hid, callsOf]

/-- The nodes with one id are all the same, so their order cannot change. -/
theorem filter_id_of_perm {nodes others : List Node} (h : nodes.Perm others)
    (hn : ∀ node ∈ nodes, graph.node? node.id = some node) (id : String) :
    nodes.filter (·.id == id) = others.filter (·.id == id) := by
  have hp := h.filter (·.id == id)
  have hsame : ∀ node ∈ nodes.filter (·.id == id), graph.node? id = some node := by
    intro node hm
    obtain ⟨hmem, hid⟩ := List.mem_filter.mp hm
    rw [← eq_of_beq hid]
    exact hn node hmem
  generalize nodes.filter (·.id == id) = same at hp hsame
  cases hfound : graph.node? id with
  | none =>
    have hnil : same = [] := List.eq_nil_iff_forall_not_mem.mpr fun node hm => by
      simpa [hfound] using hsame node hm
    rw [hnil] at hp ⊢
    exact hp.nil_eq
  | some found =>
    have hrep : same = List.replicate same.length found :=
      List.eq_replicate_of_mem fun node hm => by
        simpa [hfound] using (hsame node hm).symm
    rw [hrep] at hp ⊢
    exact (List.perm_replicate.mp hp.symm).symm

end Nodes

/-! ## Graphs with reordered edges -/

/-- Of the edges only those into the handle count for it. -/
theorem Generator.sourceAt?_eq_head? (edges : List Edge) (handle : String) :
    sourceAt? edges handle =
      (edges.filter (·.targetHandle == some handle)).head?.map Edge.source := by
  rw [sourceAt?, Edge.find?_byHandle, List.head?_filter]
  induction edges with
  | nil => rfl
  | cons edge edges ih =>
    by_cases ht : edge.targetHandle = some handle
    · simp [ht]
    · simpa [ht] using ih

namespace Graph

/-- Two graphs differ in the order of their edges, of which no two have the same id. The
edges into each handle are in the same order, and so are all edges into sums, products
and previews. -/
structure Reordered (g h : Graph) : Prop where
  nodes : g.nodes = h.nodes
  uniforms : g.uniforms = h.uniforms
  distinct : (g.edges.map Edge.id).Nodup
  edges : g.edges.Perm h.edges
  handles : ∀ target handle : String,
    g.edges.filter (fun e => e.targetHandle == some handle && e.target == target) =
      h.edges.filter (fun e => e.targetHandle == some handle && e.target == target)
  ordered : ∀ id node, g.node? id = some node → node.isArithmetic ∨ node.kind = "preview" →
    g.edges.filter (·.target == id) = h.edges.filter (·.target == id)

/-- Recursion over two graphs with the same nodes gives related results if related
results are related after a step. -/
theorem fold_related {α β : Type} {R : α → β → Prop} {g h : Graph} {a : α} {b : β}
    {step : Node → (String → α) → α} {step' : Node → (String → β) → β}
    (hnodes : ∀ id, g.node? id = h.node? id) (habsent : R a b)
    (hstep : ∀ node, g.node? node.id = some node → ∀ f f', (∀ id, R (f id) (f' id)) →
      R (step node f) (step' node f')) (depth : Nat) (id : String) :
    R (g.fold a step depth id) (h.fold b step' depth id) := by
  induction depth generalizing id with
  | zero => exact habsent
  | succ depth ih =>
    cases hn : g.node? id with
    | none =>
      have hn' : h.node? id = none := (hnodes id).symm.trans hn
      rw [fold_absent hn, fold_absent hn']
      exact habsent
    | some node =>
      have hn' : h.node? id = some node := (hnodes id).symm.trans hn
      rw [fold_succ hn, fold_succ hn']
      exact hstep node (by rw [node?_id hn]; exact hn) _ _ ih

namespace Reordered

variable {g h : Graph}

theorem node?_eq (r : g.Reordered h) (id : String) : g.node? id = h.node? id := by
  rw [node?, node?, r.nodes]

theorem uniform?_eq (r : g.Reordered h) (id : String) : g.uniform? id = h.uniform? id := by
  rw [uniform?, uniform?, r.uniforms]

theorem bound_eq (r : g.Reordered h) : g.bound = h.bound := by
  rw [bound, bound, r.nodes]

theorem symm (r : g.Reordered h) : h.Reordered g where
  nodes := r.nodes.symm
  uniforms := r.uniforms.symm
  distinct := (r.edges.map Edge.id).nodup_iff.mp r.distinct
  edges := r.edges.symm
  handles := fun target handle => (r.handles target handle).symm
  ordered := fun id node hn hk => (r.ordered id node ((r.node?_eq id).trans hn) hk).symm

theorem inputEdges_filter (r : g.Reordered h) (id : String) :
    g.inputEdges id = g.edges.filter (·.target == id) ∧
      h.inputEdges id = h.edges.filter (·.target == id) :=
  ⟨inputEdges_of_nodup r.distinct id, inputEdges_of_nodup r.symm.distinct id⟩

theorem inputNodes_perm (r : g.Reordered h) (id : String) :
    (g.inputNodes id).Perm (h.inputNodes id) := by
  have hnode : (fun edge : Edge => g.node? edge.source) = fun edge => h.node? edge.source :=
    funext fun edge => r.node?_eq edge.source
  obtain ⟨hg, hh⟩ := r.inputEdges_filter id
  rw [inputNodes, inputNodes, hg, hh, hnode]
  exact (r.edges.filter _).filterMap _

theorem sourceAt?_eq (r : g.Reordered h) (id handle : String) :
    Generator.sourceAt? (g.inputEdges id) handle =
      Generator.sourceAt? (h.inputEdges id) handle := by
  obtain ⟨hg, hh⟩ := r.inputEdges_filter id
  rw [hg, hh, Generator.sourceAt?_eq_head?, Generator.sourceAt?_eq_head?, List.filter_filter,
    List.filter_filter, r.handles id handle]

/-! ### What a node hands in -/

theorem dispatch_eq (r : g.Reordered h) (registry : Registry) (node : Node) :
    dispatch registry g node = dispatch registry h node := by
  simp only [dispatch, r.uniform?_eq]

/-- **The order is kept wherever a generator looks at it.** -/
theorem plan_eq (r : g.Reordered h) {node seen : Node} {generator : Generator}
    (hn : g.node? node.id = some node)
    (hd : dispatch Registry.builtin g node = .ok (generator, seen))
    (offered : String → Option Socket) :
    generator.plan g seen offered = generator.plan h seen offered := by
  have hall : node.isArithmetic ∨ node.kind = "preview" →
      g.inputEdges seen.id = h.inputEdges seen.id := by
    intro hk
    obtain ⟨hg, hh⟩ := r.inputEdges_filter seen.id
    rw [hg, hh, dispatch_id hd]
    exact r.ordered node.id node hn hk
  cases generator with
  | operation operator =>
    have hedges := hall (.inl (dispatch_operation hd).1)
    simp only [Generator.plan, hedges]
  | preview =>
    have hedges := hall (.inr (dispatch_preview hd).1)
    simp only [Generator.plan, hedges]
  | vec2 => simp only [Generator.plan, Generator.planVector, r.sourceAt?_eq]
  | vec3 => simp only [Generator.plan, Generator.planVector, r.sourceAt?_eq]
  | function => simp only [Generator.plan, Generator.planFunction, r.sourceAt?_eq]
  | literal => rfl
  | time => rfl
  | color => rfl
  | uniform => rfl
  | uv => rfl

section Node

variable {node : Node} (r : g.Reordered h) (hn : g.node? node.id = some node)

include r hn

theorem plannedFrom_eq (offered : String → Option Socket) :
    plannedFrom Registry.builtin g offered node = plannedFrom Registry.builtin h offered node := by
  rw [plannedFrom, plannedFrom, ← r.dispatch_eq]
  cases hd : dispatch Registry.builtin g node with
  | error e => rfl
  | ok found => simp only [r.plan_eq hn hd]

theorem faultFrom_eq (offered : String → Option Socket) :
    faultFrom Registry.builtin g offered node = faultFrom Registry.builtin h offered node := by
  rw [faultFrom, faultFrom, ← r.dispatch_eq]
  cases hd : dispatch Registry.builtin g node with
  | error e => rfl
  | ok found => simp only [r.plan_eq hn hd]

end Node

theorem outline_eq (r : g.Reordered h) :
    outline Registry.builtin g = outline Registry.builtin h := by
  funext id
  rw [outline, outline, ← r.bound_eq]
  refine fold_related (R := Eq) r.node?_eq rfl ?_ g.bound id
  intro node hn f f' hf
  obtain rfl : f = f' := funext hf
  rw [outlineStep, outlineStep, r.plannedFrom_eq hn]

theorem callsOf_eq (r : g.Reordered h) {node : Node} (hn : g.node? node.id = some node) :
    callsOf Registry.builtin g node = callsOf Registry.builtin h node := by
  rw [callsOf, callsOf, planned, planned, r.outline_eq, r.plannedFrom_eq hn]

theorem fault_eq (r : g.Reordered h) {node : Node} (hn : g.node? node.id = some node) :
    fault Registry.builtin g node = fault Registry.builtin h node := by
  rw [fault, fault, r.outline_eq, r.faultFrom_eq hn]

/-! ### Which nodes are compiled -/

/-- A node is compiled as often in both graphs. -/
theorem postorder_perm (r : g.Reordered h) (id : String) :
    (g.postorder id).Perm (h.postorder id) := by
  rw [postorder, postorder, ← r.bound_eq]
  refine fold_related (R := List.Perm) r.node?_eq .nil ?_ g.bound id
  intro node _ f f' hf
  rw [postorderStep, postorderStep]
  exact ((r.inputNodes_perm node.id).flatMap fun input _ => hf input.id).append_right [node]

theorem reached (r : g.Reordered h) {sink : String} {node : Node} (hr : g.Reached sink node) :
    h.Reached sink node := by
  induction hr with
  | sink hn => exact .sink ((r.node?_eq sink).symm.trans hn)
  | @input node input _ hi ih => exact ih.input ((r.inputNodes_perm node.id).mem_iff.mp hi)

theorem onCycle (r : g.Reordered h) {id : String} (hc : g.OnCycle id) : h.OnCycle id := by
  refine Relation.TransGen.mono ?_ _ _ hc
  rintro source target ⟨input, hi, hs⟩
  exact ⟨input, (r.inputNodes_perm target).mem_iff.mp hi, hs⟩

theorem supported (r : g.Reordered h) {registry : Registry} {node : Node}
    (hs : Supported registry g node) : Supported registry h node := by
  intro kind hask
  apply hs
  cases hask with
  | own => exact .own
  | @uniform id _ _ hk hp hu => exact .uniform hk hp ((r.uniform?_eq id).trans hu)

/-- What does not stop a run on one graph does not stop it on the other. -/
theorem run_ok (r : g.Reordered h) {registry : Registry} {id : String}
    (hok : (run registry g id {}).2 = none) : (run registry h id {}).2 = none := by
  cases herror : (run registry h id {}).2 with
  | none => rfl
  | some e =>
    -- the reason for the error would be there in the first graph as well
    have hfault : Fault registry h id e := run_fault rfl herror
    refine (hfault.elim fun node hr => ?_).elim
    obtain ⟨hcycle, hsupported⟩ := ShaderGraph.run_ok hok (r.symm.reached hr)
    exact ⟨fun hc => hcycle (r.symm.onCycle hc), r.supported hsupported⟩

end Reordered

end Graph

/-- **The order of edges matters only where it has to.** Take two graphs that differ in the
order of their edges, but not in that of the edges into one handle, or into a sum, a
product or a preview. Then a run on one is stopped exactly if it is on the other. If it is
not, for every node the same instructions are emitted, in the same order; the whole
instructions and the errors are the same but for their order; and the same is declared. -/
theorem run_reordered {g h : Graph} (r : g.Reordered h) (id : String) :
    ((run Registry.builtin g id {}).2 = none ↔ (run Registry.builtin h id {}).2 = none) ∧
      ((run Registry.builtin g id {}).2 = none →
        let p := (run Registry.builtin g id {}).1
        let q := (run Registry.builtin h id {}).1
        (∀ node, p.emissionsOf node = q.emissionsOf node) ∧
          p.instructions.Perm q.instructions ∧ p.errors.toList.Perm q.errors.toList ∧
          p.declarations = q.declarations) := by
  refine ⟨⟨r.run_ok, r.symm.run_ok⟩, ?_⟩
  intro hok
  obtain ⟨hpresent, _, hg⟩ := run_ready hok
  obtain ⟨_, _, hh⟩ := run_ready (r.run_ok hok)
  have hperm := r.postorder_perm id
  have hnode : ∀ node ∈ g.postorder id, g.node? node.id = some node := fun node hm =>
    (hpresent node hm).1
  have hcalls : ∀ other, ((g.postorder id).flatMap (callsOf Registry.builtin g)).filter
      (·.1 == other) = ((h.postorder id).flatMap (callsOf Registry.builtin h)).filter
        (·.1 == other) := by
    intro other
    -- the node stands in both orders equally often, and hands in the same each time
    rw [filter_callsOf, filter_callsOf, ← filter_id_of_perm hperm hnode]
    apply List.flatMap_congr
    intro node hm
    exact r.callsOf_eq (hnode node (List.mem_of_mem_filter hm))
  obtain ⟨hagree, hemissions, hdeclarations⟩ := Pass.addEach_reordered hcalls
  rw [← (orderly_postorder hok).record hg, ← (orderly_postorder (r.run_ok hok)).record hh]
    at hagree hemissions hdeclarations
  refine ⟨fun node => (hagree node).emissions, hemissions.map Emission.instruction, ?_,
    hdeclarations⟩
  have hfaults : (h.postorder id).filterMap (fault Registry.builtin h) =
      (h.postorder id).filterMap (fault Registry.builtin g) :=
    List.filterMap_congr fun node hm => (r.fault_eq (hnode node (hperm.mem_iff.mpr hm))).symm
  rw [(orderly_postorder hok).errors hg, (orderly_postorder (r.run_ok hok)).errors hh, hfaults]
  exact hperm.filterMap _

/-- A number that is added to another one and also is a component of a vector, with the
edges into the vector in the order that is given. -/
def Graph.sharing (first second : Edge) : Graph where
  nodes := [{ id := "a", type := "float", data := { name := "a" } },
    { id := "b", type := "float", data := { name := "b" } },
    { id := "s", type := "add", data := { name := "s" } },
    { id := "v", type := "vec2", data := { name := "v" } }]
  edges := [first, second, { id := "3", source := "a", target := "s" },
    { id := "4", source := "b", target := "s" }]

/-- The edges into the vector. -/
def Edge.horizontal : Edge := { id := "1", source := "a", target := "v", targetHandle := some "x" }

def Edge.vertical : Edge := { id := "2", source := "s", target := "v", targetHandle := some "y" }

theorem Graph.sharing_reordered :
    (Graph.sharing .horizontal .vertical).Reordered (.sharing .vertical .horizontal) where
  nodes := rfl
  uniforms := rfl
  distinct := by decide
  edges := .swap ..
  handles := by
    intro target handle
    by_cases hx : handle = "x"
    · subst hx
      simp [sharing, Edge.horizontal, Edge.vertical, List.filter_cons]
    · simp [sharing, Edge.horizontal, Edge.vertical, List.filter_cons, Ne.symm hx]
  ordered := by
    intro id node hn hk
    by_cases hv : id = "v"
    · subst hv
      cases hn
      simp [Node.isArithmetic, Node.kind] at hk
    · simp [sharing, Edge.horizontal, Edge.vertical, Ne.symm hv]

/-- The vector comes out the same whichever of its edges is first, although the number is
assigned anew at another place. -/
theorem run_reordered_sharing :
    let p := (run Registry.builtin (.sharing .horizontal .vertical) "v" {}).1
    let q := (run Registry.builtin (.sharing .vertical .horizontal) "v" {}).1
    (run Registry.builtin (.sharing .horizontal .vertical) "v" {}).2 = none ∧
      p.instructions ≠ q.instructions ∧ p.instructions.Perm q.instructions ∧
      p.declarations = q.declarations := by
  have hok : (run Registry.builtin (.sharing .horizontal .vertical) "v" {}).2 = none := by
    decide +kernel
  obtain ⟨_, hsame⟩ := run_reordered Graph.sharing_reordered "v"
  obtain ⟨_, hinstructions, _, hdeclarations⟩ := hsame hok
  exact ⟨hok, by decide +kernel, hinstructions, hdeclarations⟩

end ShaderGraph
