import ShaderGraph.Proofs.Emission
import ShaderGraph.Proofs.Postorder

/-!
A run that is not stopped applies the generators along the plain order of the
nodes (`run_eq_postorder`). The marks of visited nodes that the walk sets on its
way are gone at its end, whether it is stopped or not (`visit_visiting`), so the
next run starts as the first one did.
-/

namespace ShaderGraph

variable {registry : Registry} {graph : Graph}

/-- Lets nodes add their parts one after the other, up to the first error. -/
def compileAll (registry : Registry) (graph : Graph) : List Node → Pass → Pass × Option RunError
  | [], pass => (pass, none)
  | node :: nodes, pass =>
    match compileNode registry graph node pass with
    | (pass, some error) => (pass, some error)
    | (pass, none) => compileAll registry graph nodes pass

theorem compileAll_append {nodes more : List Node} {pass pass' : Pass}
    (h : compileAll registry graph nodes pass = (pass', none)) :
    compileAll registry graph (nodes ++ more) pass = compileAll registry graph more pass' := by
  induction nodes generalizing pass with
  | nil => cases h; rfl
  | cons node nodes ih =>
    simp only [compileAll, List.cons_append] at h ⊢
    split at h
    · cases h
    · exact ih h

/-- A list that is compiled without an error has no error in its first part. -/
theorem compileAll_split {nodes more : List Node} {pass pass' : Pass}
    (h : compileAll registry graph (nodes ++ more) pass = (pass', none)) :
    ∃ inner, compileAll registry graph nodes pass = (inner, none) ∧
      compileAll registry graph more inner = (pass', none) := by
  induction nodes generalizing pass with
  | nil => exact ⟨pass, rfl, h⟩
  | cons node nodes ih =>
    simp only [compileAll, List.cons_append] at h ⊢
    split at h
    · cases h
    · exact ih h

theorem compileAll_on (nodes : List Node) (pass : Pass) (visiting : List String) :
    compileAll registry graph nodes (pass.on visiting) =
      ((compileAll registry graph nodes pass).1.on visiting,
        (compileAll registry graph nodes pass).2) := by
  induction nodes generalizing pass with
  | nil => rfl
  | cons node nodes ih =>
    simp only [compileAll, compileNode_on]
    rcases compileNode registry graph node pass with ⟨inner, _ | e⟩
    · exact ih inner
    · rfl

theorem compileAll_visiting (nodes : List Node) (pass : Pass) :
    (compileAll registry graph nodes pass).1.visiting = pass.visiting :=
  congrArg (fun r => r.1.visiting) (compileAll_on nodes pass pass.visiting)

theorem compileAll_singleton (node : Node) (pass : Pass) :
    compileAll registry graph [node] pass = compileNode registry graph node pass := by
  simp only [compileAll]
  rcases compileNode registry graph node pass with ⟨inner, _ | e⟩ <;> rfl

/-- Marks that are set before can as well be set after. -/
theorem compileAll_unmark {nodes : List Node} {pass inner : Pass} {visiting : List String}
    (h : compileAll registry graph nodes (pass.on visiting) = (inner, none)) :
    ∃ made, compileAll registry graph nodes pass = (made, none) ∧ made.on visiting = inner ∧
      made.visiting = pass.visiting := by
  rw [compileAll_on] at h
  obtain ⟨hinner, hnone⟩ := Prod.mk.inj h
  exact ⟨_, Prod.ext rfl hnone, hinner, compileAll_visiting nodes pass⟩

/-! ## One step of the walk -/

theorem inTurn_visiting {step : String → Pass → Pass × Option RunError}
    (h : ∀ id pass, (step id pass).1.visiting = pass.visiting) (ids : List String) (pass : Pass) :
    (inTurn step ids pass).1.visiting = pass.visiting := by
  induction ids generalizing pass with
  | nil => rfl
  | cons id ids ih =>
    have hs := h id pass
    simp only [inTurn]
    split
    · rename_i he
      rw [he] at hs
      exact hs
    · rename_i he
      rw [he] at hs
      exact (ih _).trans hs

theorem visit_absent {id : String} (h : graph.node? id = none) (depth : Nat) (pass : Pass) :
    visit registry graph depth id pass = (pass, none) := by
  unfold visit
  simp [h]

theorem visit_zero {id : String} {node : Node} (h : graph.node? id = some node) (pass : Pass) :
    visit registry graph 0 id pass = (pass, some (.cyclicGraph node.id)) := by
  unfold visit
  simp [h]

theorem visit_revisit {id : String} {node : Node} {pass : Pass} (h : graph.node? id = some node)
    (hv : node.id ∈ pass.visiting) (depth : Nat) :
    visit registry graph depth id pass = (pass, some (.cyclicGraph node.id)) := by
  unfold visit
  cases depth with
  | zero => simp [h]
  | succ depth => simp [h, hv]

/-- The inputs of a node, then the node, with the node marked meanwhile. -/
private def entered (registry : Registry) (graph : Graph) (depth : Nat) (node : Node)
    (pass : Pass) : Pass × Option RunError :=
  match inTurn (visit registry graph depth) ((graph.inputNodes node.id).map Node.id)
    (pass.on (node.id :: pass.visiting)) with
  | (inner, some e) => (inner, some e)
  | (inner, none) => compileNode registry graph node inner

private theorem visit_unmark {id : String} {node : Node} {pass : Pass}
    (h : graph.node? id = some node) (hv : node.id ∉ pass.visiting) (depth : Nat) :
    visit registry graph (depth + 1) id pass =
      ((entered registry graph depth node pass).1.on
          ((entered registry graph depth node pass).1.visiting.erase node.id),
        (entered registry graph depth node pass).2) := by
  rw [visit]
  simp only [h, List.contains_eq_mem, hv, decide_false, Bool.false_eq_true, ↓reduceIte]
  rfl

private theorem entered_visiting {depth : Nat}
    (h : ∀ id pass, (visit registry graph depth id pass).1.visiting = pass.visiting) (node : Node)
    (pass : Pass) :
    (entered registry graph depth node pass).1.visiting = node.id :: pass.visiting := by
  have hin := inTurn_visiting h ((graph.inputNodes node.id).map Node.id)
    (pass.on (node.id :: pass.visiting))
  unfold entered
  split
  · rename_i he
    rw [he] at hin
    exact hin
  · rename_i inner he
    rw [he] at hin
    exact (compileNode_visiting (Prod.eta _).symm).trans hin

/-- **Visits leave no marks**, also when they are stopped. -/
theorem visit_visiting (depth : Nat) (id : String) (pass : Pass) :
    (visit registry graph depth id pass).1.visiting = pass.visiting := by
  induction depth generalizing id pass with
  | zero =>
    cases hn : graph.node? id with
    | none => rw [visit_absent hn]
    | some node => rw [visit_zero hn]
  | succ depth ih =>
    cases hn : graph.node? id with
    | none => rw [visit_absent hn]
    | some node =>
      by_cases hv : node.id ∈ pass.visiting
      · rw [visit_revisit hn hv]
      · rw [visit_unmark hn hv, entered_visiting ih]
        simp

/-- A node that is not yet being visited: its inputs, then the node itself. -/
theorem visit_enter {id : String} {node : Node} {pass : Pass} (h : graph.node? id = some node)
    (hv : node.id ∉ pass.visiting) (depth : Nat) :
    visit registry graph (depth + 1) id pass =
      match inTurn (visit registry graph depth) ((graph.inputNodes node.id).map Node.id)
        (pass.on (node.id :: pass.visiting)) with
      | (inner, some e) => (inner.on pass.visiting, some e)
      | (inner, none) => ((compileNode registry graph node inner).1.on pass.visiting,
          (compileNode registry graph node inner).2) := by
  rw [visit_unmark h hv, entered_visiting (visit_visiting depth), List.erase_cons_head]
  unfold entered
  split <;> rfl

/-! ## A run that is not stopped -/

private theorem inTurn_ok {depth : Nat} {ids : List String} {pass pass' : Pass}
    (hone : ∀ id pass pass', visit registry graph depth id pass = (pass', none) →
      graph.Within depth id ∧
        compileAll registry graph (graph.fold [] graph.postorderStep depth id) pass = (pass', none))
    (h : inTurn (visit registry graph depth) ids pass = (pass', none)) :
    (∀ id ∈ ids, graph.Within depth id) ∧
      compileAll registry graph (ids.flatMap (graph.fold [] graph.postorderStep depth)) pass =
        (pass', none) := by
  induction ids generalizing pass with
  | nil => exact ⟨by simp, h⟩
  | cons id ids ih =>
    simp only [inTurn] at h
    split at h
    · cases h
    · rename_i inner hv
      obtain ⟨hw, hc⟩ := hone id pass inner hv
      obtain ⟨hws, hcs⟩ := ih h
      refine ⟨by simpa using ⟨hw, hws⟩, ?_⟩
      rw [List.flatMap_cons, compileAll_append hc]
      exact hcs

/-- The walk meets no bound, and goes along the plain order. -/
theorem visit_ok {depth : Nat} {id : String} {pass pass' : Pass}
    (h : visit registry graph depth id pass = (pass', none)) :
    graph.Within depth id ∧
      compileAll registry graph (graph.fold [] graph.postorderStep depth id) pass =
        (pass', none) := by
  induction depth generalizing id pass pass' with
  | zero =>
    cases hn : graph.node? id with
    | none =>
      rw [visit_absent hn] at h
      exact ⟨hn, h⟩
    | some node => rw [visit_zero hn] at h; cases h
  | succ depth ih =>
    cases hn : graph.node? id with
    | none =>
      rw [visit_absent hn] at h
      rw [Graph.fold_absent hn]
      exact ⟨Graph.within_of_absent hn _, h⟩
    | some node =>
      by_cases hv : node.id ∈ pass.visiting
      · rw [visit_revisit hn hv] at h; cases h
      · rw [visit_enter hn hv] at h
        split at h
        · cases h
        · rename_i inner hin
          obtain ⟨hws, hcs⟩ := inTurn_ok (fun _ _ _ => ih) hin
          constructor
          · intro _ input hi
            apply hws
            rw [← Graph.node?_id hn] at hi
            exact List.mem_map_of_mem hi
          · obtain ⟨made, hmade, rfl, hvisiting⟩ := compileAll_unmark hcs
            rw [List.flatMap_map] at hmade
            rw [Graph.fold_succ hn, Graph.postorderStep, compileAll_append hmade,
              compileAll_singleton, ← h, compileNode_on]
            -- the marks that the walk sets for the inputs do not show in what they add
            have hself : (compileNode registry graph node made).1.visiting = pass.visiting :=
              (compileNode_visiting (Prod.eta _).symm).trans hvisiting
            rw [← hself]
            rfl

/-- **A run goes along the plain order.** When it is not stopped, it leaves the
pass as the generators leave it that are applied to `postorder id` one after the
other. That list is given by its recursion equation; it has one place for each
way of going back from `id` along edges, the node at the end of the way, and
every node in it comes after all its inputs. -/
theorem run_eq_postorder (registry : Registry) (graph : Graph) (id : String) (pass : Pass)
    (h : (run registry graph id pass).2 = none) :
    run registry graph id pass = compileAll registry graph (graph.postorder id) pass ∧
      (∀ other, graph.node? other = none → graph.postorder other = []) ∧
      (∀ node, graph.Reached id node → graph.postorder node.id =
        (graph.inputNodes node.id).flatMap (fun input => graph.postorder input.id) ++ [node]) ∧
      (∃ ways : List (List Nat), ways.Nodup ∧
        (∀ way, way ∈ ways ↔ (graph.follow id way).isSome) ∧
        ways.map (graph.follow id) = (graph.postorder id).map some) ∧
      (∀ before node after, graph.postorder id = before ++ node :: after →
        ∀ input ∈ graph.inputNodes node.id, input ∈ before) := by
  have hrun : run registry graph id pass = ((run registry graph id pass).1, none) :=
    Prod.ext rfl h
  obtain ⟨hwithin, hall⟩ := visit_ok hrun
  refine ⟨hrun.trans hall.symm, fun _ => Graph.postorder_absent, ?_,
    Graph.postorder_ways hwithin, ?_⟩
  · intro node hr
    exact Graph.postorder_eq (hwithin.reached hr) hr.node?
  · intro before node after he input hi
    have hready := Graph.ready_fold hwithin []
    rw [← Graph.bound, ← Graph.postorder, he] at hready
    simpa using hready.before input hi

/-- A number, added to itself and shown. -/
def Graph.doubled : Graph where
  nodes := [{ id := "x", type := "float", data := { name := "x" } },
    { id := "sum", type := "add", data := { name := "sum" } },
    { id := "out", type := "preview" }]
  edges := [{ id := "1", source := "x", target := "sum" },
    { id := "2", source := "x", target := "sum" },
    { id := "3", source := "sum", target := "out" }]

theorem run_eq_postorder_doubled :
    (run Registry.builtin Graph.doubled "out" {}).2 = none ∧
      (Graph.doubled.postorder "out").map Node.id = ["x", "x", "sum", "out"] ∧
      run Registry.builtin Graph.doubled "out" {} =
        compileAll Registry.builtin Graph.doubled (Graph.doubled.postorder "out") {} :=
  ⟨by decide +kernel, by decide +kernel,
    (run_eq_postorder Registry.builtin Graph.doubled "out" {} (by decide +kernel)).1⟩

end ShaderGraph
