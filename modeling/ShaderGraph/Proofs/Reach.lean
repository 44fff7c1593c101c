import Mathlib.Logic.Relation
import ShaderGraph.Graph.Basic

/-!
What lies behind a node: the nodes that are met by going from it against the
edges, the cycles among them, and recursion over them. An id without a node has
nothing behind it, whatever edges end there.

Recursion over the inputs of a node is bounded by a depth. `Within` says that
the bound is not met, and then the recursion equation holds (`fold_eq`).
-/

namespace ShaderGraph.Graph

variable {graph : Graph}

/-! ## Look-ups -/

theorem node?_id {id : String} {node : Node} (h : graph.node? id = some node) : node.id = id := by
  have hp := List.find?_some h
  simpa using hp

theorem node?_mem {id : String} {node : Node} (h : graph.node? id = some node) :
    node ∈ graph.nodes := by
  simpa using List.mem_of_find?_eq_some h

theorem mem_inputNodes {id : String} {input : Node} :
    input ∈ graph.inputNodes id ↔
      ∃ edge ∈ graph.inputEdges id, graph.node? edge.source = some input := by
  simp [inputNodes, List.mem_filterMap]

/-- An input is the node that its own id finds. -/
theorem node?_of_input {id : String} {input : Node} (h : input ∈ graph.inputNodes id) :
    graph.node? input.id = some input := by
  obtain ⟨edge, _, he⟩ := mem_inputNodes.mp h
  rw [node?_id he]
  exact he

/-- A sum over the inputs is a sum over the edges, when missing nodes add nothing. -/
theorem inputNodes_flatMap {α : Type} (f : String → List α)
    (hf : ∀ id, graph.node? id = none → f id = []) (id : String) :
    (graph.inputNodes id).flatMap (fun input => f input.id) =
      (graph.inputEdges id).flatMap (fun edge => f edge.source) := by
  unfold inputNodes
  induction graph.inputEdges id with
  | nil => rfl
  | cons edge edges ih =>
    cases hn : graph.node? edge.source with
    | none => simp [hn, hf _ hn, ih]
    | some node => simp [hn, node?_id hn, ih]

/-! ## Reached nodes and cycles -/

/-- The node `source` is an input of `id`. -/
def Feeds (graph : Graph) (source id : String) : Prop :=
  ∃ input ∈ graph.inputNodes id, input.id = source

/-- The nodes that are met from a sink by going to inputs. -/
inductive Reached (graph : Graph) (sink : String) : Node → Prop
  | sink {node : Node} : graph.node? sink = some node → Reached graph sink node
  | input {node input : Node} :
      Reached graph sink node → input ∈ graph.inputNodes node.id → Reached graph sink input

/-- The node feeds itself, through others or directly. -/
def OnCycle (graph : Graph) (id : String) : Prop := Relation.TransGen graph.Feeds id id

theorem Reached.node? {sink : String} {node : Node} (h : graph.Reached sink node) :
    graph.node? node.id = some node := by
  cases h with
  | sink h => rw [node?_id h]; exact h
  | input _ hi => exact node?_of_input hi

theorem Reached.trans {sink : String} {node other : Node} (h : graph.Reached sink node)
    (ho : graph.Reached node.id other) : graph.Reached sink other := by
  induction ho with
  | sink hn =>
    rw [h.node?] at hn
    cases hn
    exact h
  | input _ hi ih => exact ih.input hi

/-- What is behind an input is behind the node. -/
theorem Reached.of_input {id : String} {node input other : Node}
    (hn : graph.node? id = some node) (hi : input ∈ graph.inputNodes id)
    (h : graph.Reached input.id other) : graph.Reached id other := by
  have hm : graph.Reached id input := (Reached.sink hn).input (node?_id hn ▸ hi)
  exact hm.trans h

/-! ## Depth -/

/-- Every way back from `id` ends after fewer than `depth` further nodes. -/
def Within (graph : Graph) : Nat → String → Prop
  | 0, id => graph.node? id = none
  | depth + 1, id =>
    (graph.node? id).isSome → ∀ input ∈ graph.inputNodes id, graph.Within depth input.id

theorem within_of_absent {id : String} (h : graph.node? id = none) (depth : Nat) :
    graph.Within depth id := by
  cases depth with
  | zero => exact h
  | succ depth => intro hs; simp [h] at hs

theorem Within.succ {depth : Nat} {id : String} (h : graph.Within depth id) :
    graph.Within (depth + 1) id := by
  induction depth generalizing id with
  | zero => exact within_of_absent h 1
  | succ depth ih => exact fun hs input hi => ih (h hs input hi)

theorem Within.input {depth : Nat} {node input : Node} (h : graph.Within depth node.id)
    (hn : graph.node? node.id = some node) (hi : input ∈ graph.inputNodes node.id) :
    graph.Within depth input.id := by
  cases depth with
  | zero => rw [Within, hn] at h; cases h
  | succ depth => exact (h (by simp [hn]) input hi).succ

/-- The other end of an edge is no farther than the node. -/
theorem Within.source {depth : Nat} {id : String} {node : Node}
    (h : graph.Within (depth + 1) id) (hn : graph.node? id = some node) {edge : Edge}
    (he : edge ∈ graph.inputEdges id) : graph.Within depth edge.source := by
  cases hs : graph.node? edge.source with
  | none => exact within_of_absent hs depth
  | some input =>
    rw [← node?_id hs]
    exact h (by simp [hn]) input (mem_inputNodes.mpr ⟨edge, he, hs⟩)

theorem Within.reached {depth : Nat} {sink : String} {node : Node}
    (h : graph.Within depth sink) (hr : graph.Reached sink node) :
    graph.Within depth node.id := by
  induction hr with
  | sink hn => rw [node?_id hn]; exact h
  | input hr hi ih => exact ih.input hr.node? hi

/-- Going around a cycle would go on for ever. -/
theorem Within.not_onCycle {depth : Nat} {id : String} (h : graph.Within depth id) :
    ¬ graph.OnCycle id := by
  intro hc
  induction depth generalizing id with
  | zero =>
    obtain ⟨_, ⟨input, hi, rfl⟩, _⟩ := Relation.TransGen.head'_iff.mp hc
    rw [Within, node?_of_input hi] at h
    cases h
  | succ depth ih =>
    -- the last node of the way is on the same cycle and one step nearer to the end
    obtain ⟨last, hway, hlast⟩ := Relation.TransGen.tail'_iff.mp hc
    obtain ⟨_, ⟨self, hself, rfl⟩, _⟩ := Relation.TransGen.head'_iff.mp hc
    obtain ⟨input, hi, rfl⟩ := hlast
    have hs : (graph.node? self.id).isSome := by rw [node?_of_input hself]; rfl
    exact ih (h hs input hi) (Relation.TransGen.head' ⟨input, hi, rfl⟩ hway)

/-! ## Recursion over inputs -/

/-- Recursion from a node over its inputs, `depth` nodes deep at most. -/
def fold {α : Type} (graph : Graph) (absent : α) (step : Node → (String → α) → α) :
    Nat → String → α
  | 0, _ => absent
  | depth + 1, id =>
    match graph.node? id with
    | none => absent
    | some node => step node (graph.fold absent step depth)

/-- A step that looks only at the other ends of the edges into its node. -/
def LooksAtInputs {α : Type} (graph : Graph) (step : Node → (String → α) → α) : Prop :=
  ∀ node f g, (∀ edge ∈ graph.inputEdges node.id, f edge.source = g edge.source) →
    step node f = step node g

/-- A depth that no way without a repetition exceeds. -/
def bound (graph : Graph) : Nat := graph.nodes.length + 1

variable {α : Type} {absent : α} {step : Node → (String → α) → α}

theorem fold_absent {id : String} (h : graph.node? id = none) (depth : Nat) :
    graph.fold absent step depth id = absent := by
  cases depth with
  | zero => rfl
  | succ depth => simp [fold, h]

theorem fold_succ {id : String} {node : Node} (h : graph.node? id = some node) (depth : Nat) :
    graph.fold absent step (depth + 1) id = step node (graph.fold absent step depth) := by
  simp [fold, h]

/-- More depth than needed changes nothing. -/
theorem fold_succ_eq (hstep : graph.LooksAtInputs step) {depth : Nat} {id : String}
    (h : graph.Within depth id) :
    graph.fold absent step (depth + 1) id = graph.fold absent step depth id := by
  induction depth generalizing id with
  | zero => rw [fold_absent h, fold_absent h]
  | succ depth ih =>
    cases hn : graph.node? id with
    | none => rw [fold_absent hn, fold_absent hn]
    | some node =>
      rw [fold_succ hn, fold_succ hn]
      apply hstep
      intro edge he
      cases hs : graph.node? edge.source with
      | none => rw [fold_absent hs, fold_absent hs]
      | some input =>
        have hi : input ∈ graph.inputNodes id :=
          mem_inputNodes.mpr ⟨edge, node?_id hn ▸ he, hs⟩
        have hw := h (by simp [hn]) input hi
        rw [node?_id hs] at hw
        exact ih hw

/-- **Recursion equation.** -/
theorem fold_eq (hstep : graph.LooksAtInputs step) {depth : Nat} {node : Node}
    (h : graph.Within depth node.id) (hn : graph.node? node.id = some node) :
    graph.fold absent step depth node.id = step node (graph.fold absent step depth) := by
  rw [← fold_succ_eq hstep h, fold_succ hn]

end ShaderGraph.Graph
