import Mathlib.Data.List.Nodup
import ShaderGraph.Proofs.Reach

/-!
The plain order of compilation: all that comes before a node, input by input,
and then the node. A node stands in it as often as ways lead to it, and always
after its inputs. Nothing is said here about how the nodes are compiled.
-/

namespace ShaderGraph.Graph

variable {graph : Graph}

/-- The lists of the inputs one after the other, and then the node. -/
def postorderStep (graph : Graph) (node : Node) (before : String → List Node) : List Node :=
  (graph.inputNodes node.id).flatMap (fun input => before input.id) ++ [node]

/-- The nodes behind `id` in the order of compilation. -/
def postorder (graph : Graph) (id : String) : List Node :=
  graph.fold [] graph.postorderStep graph.bound id

theorem postorderStep_looksAtInputs : graph.LooksAtInputs graph.postorderStep := by
  intro node f g h
  have hf : ∀ input ∈ graph.inputNodes node.id, f input.id = g input.id := by
    intro input hi
    obtain ⟨edge, he, hs⟩ := mem_inputNodes.mp hi
    rw [node?_id hs]
    exact h edge he
  unfold postorderStep
  rw [List.flatMap_congr hf]

theorem postorder_absent {id : String} (h : graph.node? id = none) : graph.postorder id = [] :=
  fold_absent h graph.bound

/-- **The order, unfolded.** -/
theorem postorder_eq {node : Node} (h : graph.Within graph.bound node.id)
    (hn : graph.node? node.id = some node) :
    graph.postorder node.id =
      (graph.inputNodes node.id).flatMap (fun input => graph.postorder input.id) ++ [node] :=
  fold_eq postorderStep_looksAtInputs h hn

theorem mem_postorder_self {depth : Nat} {id : String} {node : Node}
    (h : graph.Within depth id) (hn : graph.node? id = some node) :
    node ∈ graph.fold [] graph.postorderStep depth id := by
  cases depth with
  | zero => rw [Within, hn] at h; cases h
  | succ depth => simp [fold_succ hn, postorderStep]

theorem reached_of_mem_fold {depth : Nat} {id : String} {node : Node}
    (h : node ∈ graph.fold [] graph.postorderStep depth id) : graph.Reached id node := by
  induction depth generalizing id with
  | zero => simp [fold] at h
  | succ depth ih =>
    cases hn : graph.node? id with
    | none => simp [fold_absent hn] at h
    | some self =>
      simp only [fold_succ hn, postorderStep, List.mem_append, List.mem_flatMap,
        List.mem_singleton] at h
      rcases h with ⟨input, hi, hm⟩ | rfl
      · exact Reached.of_input hn (node?_id hn ▸ hi) (ih hm)
      · exact .sink hn

/-! ## Inputs come first -/

/-- Each node of the list finds its inputs among those that are done. -/
def Ready (graph : Graph) : List Node → List Node → Prop
  | _, [] => True
  | done, node :: nodes =>
    (∀ input ∈ graph.inputNodes node.id, input ∈ done) ∧ graph.Ready (done ++ [node]) nodes

theorem ready_append {done nodes more : List Node} :
    graph.Ready done (nodes ++ more) ↔
      graph.Ready done nodes ∧ graph.Ready (done ++ nodes) more := by
  induction nodes generalizing done with
  | nil => simp [Ready]
  | cons node nodes ih => simp [Ready, ih, and_assoc]

theorem Ready.before {done before after : List Node} {node : Node}
    (h : graph.Ready done (before ++ node :: after)) :
    ∀ input ∈ graph.inputNodes node.id, input ∈ done ++ before :=
  (ready_append.mp h).2.1

private theorem ready_flatMap {f : Node → List Node} {inputs : List Node}
    (h : ∀ input ∈ inputs, ∀ done, graph.Ready done (f input)) (done : List Node) :
    graph.Ready done (inputs.flatMap f) := by
  induction inputs generalizing done with
  | nil => trivial
  | cons input inputs ih =>
    rw [List.flatMap_cons, ready_append]
    exact ⟨h input (List.mem_cons_self ..) done,
      ih (fun other ho => h other (List.mem_cons_of_mem _ ho)) _⟩

theorem ready_fold {depth : Nat} {id : String} (h : graph.Within depth id) (done : List Node) :
    graph.Ready done (graph.fold [] graph.postorderStep depth id) := by
  induction depth generalizing id done with
  | zero => trivial
  | succ depth ih =>
    cases hn : graph.node? id with
    | none => rw [fold_absent hn]; trivial
    | some node =>
      have hin : ∀ input ∈ graph.inputNodes node.id, graph.Within depth input.id := by
        intro input hi
        exact h (by simp [hn]) input (node?_id hn ▸ hi)
      rw [fold_succ hn, postorderStep, ready_append]
      refine ⟨ready_flatMap (fun input hi => ih (hin input hi)) done, ?_, trivial⟩
      intro input hi
      apply List.mem_append_right
      exact List.mem_flatMap.mpr ⟨input, hi, mem_postorder_self (hin input hi) (node?_of_input hi)⟩

/-- The order holds exactly the nodes that are reached. -/
theorem mem_postorder_iff {id : String} (h : graph.Within graph.bound id) {node : Node} :
    node ∈ graph.postorder id ↔ graph.Reached id node := by
  constructor
  · exact reached_of_mem_fold
  · intro hr
    induction hr with
    | sink hn => exact mem_postorder_self h hn
    | input _ hi ih =>
      obtain ⟨before, after, he⟩ := List.append_of_mem ih
      have hready := ready_fold h []
      rw [← postorder, he] at hready
      rw [he]
      exact List.mem_append_left _ (by simpa using hready.before _ hi)

/-! ## Ways to a node -/

/-- Goes from a node back along edges: each number picks one of the edges that
end at the node where the way has come to. -/
def follow (graph : Graph) : String → List Nat → Option Node
  | id, [] => graph.node? id
  | id, k :: way =>
    match graph.node? id, (graph.inputEdges id)[k]? with
    | some _, some edge => graph.follow edge.source way
    | _, _ => none

/-- The ways through the edges one after the other, and then the way that stays. -/
def waysStep (graph : Graph) (node : Node) (ways : String → List (List Nat)) : List (List Nat) :=
  (graph.inputEdges node.id).zipIdx.flatMap (fun (edge, k) => (ways edge.source).map (k :: ·)) ++
    [[]]

theorem follow_absent {id : String} (h : graph.node? id = none) (way : List Nat) :
    graph.follow id way = none := by
  cases way with
  | nil => exact h
  | cons k way => simp [follow, h]

private theorem follow_cons {id : String} {node : Node} {edge : Edge} {k : Nat}
    (hn : graph.node? id = some node) (he : (graph.inputEdges id)[k]? = some edge)
    (way : List Nat) : graph.follow id (k :: way) = graph.follow edge.source way := by
  simp [follow, hn, he]

/-- The ways come in the order of their ends. -/
theorem map_follow_ways (depth : Nat) (id : String) :
    (graph.fold [] graph.waysStep depth id).map (graph.follow id) =
      (graph.fold [] graph.postorderStep depth id).map some := by
  induction depth generalizing id with
  | zero => rfl
  | succ depth ih =>
    cases hn : graph.node? id with
    | none => simp [fold_absent hn]
    | some node =>
      have hid := node?_id hn
      rw [fold_succ hn, fold_succ hn, waysStep, postorderStep, inputNodes_flatMap _
        (fun other ho => fold_absent ho depth), List.map_append, List.map_append, hid]
      congr 1
      · rw [List.map_flatMap, List.map_flatMap]
        conv_rhs => rw [← List.zipIdx_map_fst 0 (graph.inputEdges id), List.flatMap_map]
        apply List.flatMap_congr
        rintro ⟨edge, k⟩ hk
        have he := List.mem_zipIdx_iff_getElem?.mp hk
        simp only [List.map_map]
        rw [← ih edge.source]
        exact List.map_congr_left fun way _ => follow_cons hn he way
      · simp [follow, hn]

theorem ways_nodup (depth : Nat) (id : String) : (graph.fold [] graph.waysStep depth id).Nodup := by
  induction depth generalizing id with
  | zero => exact List.nodup_nil
  | succ depth ih =>
    cases hn : graph.node? id with
    | none => rw [fold_absent hn]; exact List.nodup_nil
    | some node =>
      rw [fold_succ hn, waysStep]
      refine List.Nodup.append ?_ (List.nodup_singleton _) ?_
      · refine List.nodup_flatMap.mpr ⟨?_, ?_⟩
        · rintro ⟨edge, k⟩ _
          exact (ih edge.source).map fun a b h => (List.cons.inj h).2
        · -- ways through different edges differ in their first number
          have hk : ((graph.inputEdges node.id).zipIdx.map Prod.snd).Nodup := by
            rw [List.zipIdx_map_snd]
            exact List.nodup_range'
          refine (List.pairwise_map.mp hk).imp ?_
          rintro ⟨edge, k⟩ ⟨other, j⟩ hne way h₁ h₂
          simp only [List.mem_map] at h₁ h₂
          obtain ⟨_, _, rfl⟩ := h₁
          obtain ⟨_, _, he⟩ := h₂
          exact hne (List.cons.inj he).1.symm
      · intro way hw hnil
        simp only [List.mem_singleton] at hnil
        simp [hnil] at hw

theorem mem_ways {depth : Nat} {id : String} (h : graph.Within depth id) {way : List Nat}
    (hw : (graph.follow id way).isSome) : way ∈ graph.fold [] graph.waysStep depth id := by
  induction way generalizing depth id with
  | nil =>
    obtain ⟨node, hn⟩ := Option.isSome_iff_exists.mp hw
    cases depth with
    | zero => rw [Within] at h; simp [follow, h] at hw
    | succ depth =>
      rw [follow] at hn
      simp [fold_succ hn, waysStep]
  | cons k way ih =>
    cases hn : graph.node? id with
    | none => simp [follow_absent hn] at hw
    | some node =>
      cases depth with
      | zero => rw [Within, hn] at h; cases h
      | succ depth =>
        have hid := node?_id hn
        cases he : (graph.inputEdges id)[k]? with
        | none => simp [follow, hn, he] at hw
        | some edge =>
          rw [follow_cons hn he] at hw
          have hsource := h.source hn (List.mem_of_getElem? he)
          rw [fold_succ hn, waysStep, hid]
          apply List.mem_append_left
          exact List.mem_flatMap.mpr ⟨(edge, k), List.mem_zipIdx_iff_getElem?.mpr he,
            List.mem_map.mpr ⟨way, ih hsource hw, rfl⟩⟩

/-- **One place for each way.** The ways back from a node can be listed without
repetition so that the list of their ends is the order of compilation. -/
theorem postorder_ways {id : String} (h : graph.Within graph.bound id) :
    ∃ ways : List (List Nat), ways.Nodup ∧
      (∀ way, way ∈ ways ↔ (graph.follow id way).isSome) ∧
      ways.map (graph.follow id) = (graph.postorder id).map some := by
  refine ⟨graph.fold [] graph.waysStep graph.bound id, ways_nodup _ _, fun way => ⟨?_, mem_ways h⟩,
    map_follow_ways _ _⟩
  intro hw
  have hf := List.mem_map_of_mem (f := graph.follow id) hw
  rw [map_follow_ways] at hf
  obtain ⟨node, _, hnode⟩ := List.mem_map.mp hf
  rw [← hnode]
  rfl

end ShaderGraph.Graph
