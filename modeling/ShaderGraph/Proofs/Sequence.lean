import ShaderGraph.Proofs.Outline

/-!
Runs one after the other on the same pass, those that are stopped among them.
Which nodes a run compiles and what stops it does not depend on the pass: `trace`
gives both. A run lets the nodes of its trace add their parts (`run_trace`), and
in a trace every node comes after its inputs (`orderly_trace`), so a pass keeps to
the plan of the graph however its runs end (`settled_traces`).

The main statement is `runs_emit_alike`: a node is emitted with one type, one name
and one value, whatever has been run before.
-/

namespace ShaderGraph

variable {registry : Registry} {graph : Graph}

/-- The nodes that are compiled for ids in turn, up to the first error. -/
def traceInTurn (step : String → List Node × Option RunError) :
    List String → List Node × Option RunError
  | [] => ([], none)
  | id :: ids =>
    match step id with
    | (nodes, some error) => (nodes, some error)
    | (nodes, none) =>
      let later := traceInTurn step ids
      (nodes ++ later.1, later.2)

/-- The nodes that are compiled when a node is visited, and what stops the visit. -/
def traceVisit (registry : Registry) (graph : Graph) :
    Nat → List String → String → List Node × Option RunError
  | depth, visiting, id =>
    match graph.node? id with
    | none => ([], none)
    | some node =>
      match depth with
      | 0 => ([], some (.cyclicGraph node.id))
      | depth + 1 =>
        if node.id ∈ visiting then ([], some (.cyclicGraph node.id))
        else
          match traceInTurn (traceVisit registry graph depth (node.id :: visiting))
            ((graph.inputNodes node.id).map Node.id) with
          | (nodes, some error) => (nodes, some error)
          | (nodes, none) =>
            match dispatch registry graph node with
            | .error error => (nodes, some error)
            | .ok _ => (nodes ++ [node], none)

/-- The nodes that a run compiles, and what stops it. -/
def trace (registry : Registry) (graph : Graph) (id : String) : List Node × Option RunError :=
  traceVisit registry graph graph.bound [] id

/-- Runs ids one after the other, whether a run is stopped or not. -/
def runs (registry : Registry) (graph : Graph) (ids : List String) (pass : Pass) : Pass :=
  ids.foldl (fun pass id => (run registry graph id pass).1) pass

/-- The nodes that are compiled when ids are run one after the other. -/
def traces (registry : Registry) (graph : Graph) (ids : List String) : List Node :=
  ids.flatMap fun id => (trace registry graph id).1

/-! ## Runs go along their traces -/

/-- The nodes of the trace add their parts, and the outcome is what they leave,
with the error of the trace. -/
def GoesAlong (registry : Registry) (graph : Graph) (trace : List Node × Option RunError)
    (pass : Pass) (outcome : Pass × Option RunError) : Prop :=
  compileAll registry graph trace.1 pass = (outcome.1, none) ∧ outcome.2 = trace.2

theorem inTurn_goesAlong {depth : Nat} {visiting : List String}
    (h : ∀ id pass, pass.visiting = visiting →
      GoesAlong registry graph (traceVisit registry graph depth visiting id) pass
        (visit registry graph depth id pass))
    (ids : List String) {pass : Pass} (hv : pass.visiting = visiting) :
    GoesAlong registry graph (traceInTurn (traceVisit registry graph depth visiting) ids) pass
      (inTurn (visit registry graph depth) ids pass) := by
  induction ids generalizing pass with
  | nil => exact ⟨rfl, rfl⟩
  | cons id ids ih =>
    obtain ⟨hone, herror⟩ := h id pass hv
    have hkept : (visit registry graph depth id pass).1.visiting = visiting :=
      (visit_visiting depth id pass).trans hv
    rw [inTurn, traceInTurn]
    rcases ht : traceVisit registry graph depth visiting id with ⟨nodes, _ | e⟩
    · rcases hvisit : visit registry graph depth id pass with ⟨inner, error⟩
      rw [ht, hvisit] at hone herror
      rw [hvisit] at hkept
      obtain ⟨hlater, hend⟩ := ih hkept
      subst herror
      refine ⟨?_, hend⟩
      rw [compileAll_append hone]
      exact hlater
    · rcases hvisit : visit registry graph depth id pass with ⟨inner, error⟩
      rw [ht, hvisit] at hone herror
      subst herror
      exact ⟨hone, rfl⟩

/-- A node that is not yet being visited goes on the trace after its inputs, if it
has a generator. -/
theorem compileNode_goesAlong {nodes : List Node} {node : Node} {pass made : Pass}
    (h : compileAll registry graph nodes pass = (made, none)) :
    GoesAlong registry graph
      (match dispatch registry graph node with
      | .error error => (nodes, some error)
      | .ok _ => (nodes ++ [node], none))
      pass (compileNode registry graph node made) := by
  cases hd : dispatch registry graph node with
  | error e =>
    have hc : compileNode registry graph node made = (made, some e) := by
      rw [compileNode_eq, hd]
    rw [hc]
    exact ⟨h, rfl⟩
  | ok found =>
    have hc : (compileNode registry graph node made).2 = none := by
      rw [compileNode_eq, hd]
    refine ⟨?_, hc⟩
    rw [compileAll_append h, compileAll_singleton]
    exact Prod.ext rfl hc

/-- **A visit goes along its trace.** -/
theorem visit_goesAlong (depth : Nat) (id : String) (pass : Pass) :
    GoesAlong registry graph (traceVisit registry graph depth pass.visiting id) pass
      (visit registry graph depth id pass) := by
  induction depth generalizing id pass with
  | zero =>
    unfold traceVisit
    cases hn : graph.node? id with
    | none => rw [visit_absent hn]; exact ⟨rfl, rfl⟩
    | some node => rw [visit_zero hn]; exact ⟨rfl, rfl⟩
  | succ depth ih =>
    unfold traceVisit
    cases hn : graph.node? id with
    | none => rw [visit_absent hn]; exact ⟨rfl, rfl⟩
    | some node =>
      by_cases hv : node.id ∈ pass.visiting
      · rw [visit_revisit hn hv]
        simp only [hv, ↓reduceIte]
        exact ⟨rfl, rfl⟩
      · have hinputs : GoesAlong registry graph
            (traceInTurn (traceVisit registry graph depth (node.id :: pass.visiting))
              ((graph.inputNodes node.id).map Node.id))
            (pass.on (node.id :: pass.visiting)) _ :=
          inTurn_goesAlong (fun id pass hv => hv ▸ ih id pass) _ rfl
        rw [visit_enter hn hv]
        simp only [hv, ↓reduceIte]
        rcases hin : inTurn (visit registry graph depth) ((graph.inputNodes node.id).map Node.id)
          (pass.on (node.id :: pass.visiting)) with ⟨inner, error⟩
        rcases ht : traceInTurn (traceVisit registry graph depth (node.id :: pass.visiting))
          ((graph.inputNodes node.id).map Node.id) with ⟨nodes, stop⟩
        rw [hin, ht] at hinputs
        obtain ⟨hnodes, rfl⟩ := hinputs
        obtain ⟨made, hmade, rfl, hvisiting⟩ := compileAll_unmark hnodes
        cases error with
        | some e =>
          refine ⟨?_, rfl⟩
          rw [hmade, ← hvisiting]
          rfl
        | none =>
          -- the marks that are set for the inputs do not show in what the node adds
          have hself : (compileNode registry graph node made).1.visiting = pass.visiting :=
            (compileNode_visiting (Prod.eta _).symm).trans hvisiting
          have hunmark : (compileNode registry graph node
              (made.on (node.id :: pass.visiting))).1.on pass.visiting =
              (compileNode registry graph node made).1 := by
            rw [compileNode_on, ← hself]
            rfl
          have herror : (compileNode registry graph node
              (made.on (node.id :: pass.visiting))).2 =
              (compileNode registry graph node made).2 := by
            rw [compileNode_on]
          simp only [hunmark, herror]
          exact compileNode_goesAlong hmade

/-- **A run goes along its trace.** -/
theorem run_trace (registry : Registry) (graph : Graph) (id : String) {pass : Pass}
    (h : pass.visiting = []) :
    compileAll registry graph (trace registry graph id).1 pass =
        ((run registry graph id pass).1, none) ∧
      (run registry graph id pass).2 = (trace registry graph id).2 := by
  have hvisit : GoesAlong registry graph (traceVisit registry graph graph.bound pass.visiting id)
      pass (run registry graph id pass) := visit_goesAlong graph.bound id pass
  rw [h] at hvisit
  exact hvisit

theorem run_visiting (id : String) (pass : Pass) :
    (run registry graph id pass).1.visiting = pass.visiting := visit_visiting _ id pass

/-- **Runs go along their traces.** -/
theorem runs_traces (registry : Registry) (graph : Graph) (ids : List String) {pass : Pass}
    (h : pass.visiting = []) :
    compileAll registry graph (traces registry graph ids) pass =
      (runs registry graph ids pass, none) := by
  induction ids generalizing pass with
  | nil => rfl
  | cons id ids ih =>
    have hrun := (run_trace registry graph id h).1
    have hvisiting : (run registry graph id pass).1.visiting = [] := (run_visiting id pass).trans h
    rw [traces, List.flatMap_cons, compileAll_append hrun]
    exact ih hvisiting

/-! ## Inputs come first -/

/-- Nodes of the graph, each of them after its inputs and none on a cycle. -/
structure Orderly (graph : Graph) (depth : Nat) (nodes : List Node) : Prop where
  present : ∀ node ∈ nodes, graph.node? node.id = some node
  within : ∀ node ∈ nodes, graph.Within depth node.id
  ready : ∀ done, graph.Ready done nodes

namespace Orderly

variable {depth : Nat} {nodes more : List Node}

theorem nil : Orderly graph depth [] where
  present := by simp
  within := by simp
  ready := fun _ => trivial

theorem append (h : Orderly graph depth nodes) (hmore : Orderly graph depth more) :
    Orderly graph depth (nodes ++ more) where
  present := by
    intro node hn
    rcases List.mem_append.mp hn with hn | hn
    · exact h.present node hn
    · exact hmore.present node hn
  within := by
    intro node hn
    rcases List.mem_append.mp hn with hn | hn
    · exact h.within node hn
    · exact hmore.within node hn
  ready := fun done => Graph.ready_append.mpr ⟨h.ready done, hmore.ready _⟩

theorem succ (h : Orderly graph depth nodes) : Orderly graph (depth + 1) nodes where
  present := h.present
  within := fun node hn => (h.within node hn).succ
  ready := h.ready

/-- A node may come after its inputs. -/
theorem push {node : Node} (h : Orderly graph depth nodes) (hn : graph.node? node.id = some node)
    (hin : ∀ input ∈ graph.inputNodes node.id, input ∈ nodes) :
    Orderly graph (depth + 1) (nodes ++ [node]) where
  present := by
    intro other ho
    rcases List.mem_append.mp ho with ho | ho
    · exact h.present other ho
    · rw [List.mem_singleton.mp ho]
      exact hn
  within := by
    intro other ho
    rcases List.mem_append.mp ho with ho | ho
    · exact (h.within other ho).succ
    · rw [List.mem_singleton.mp ho]
      exact fun _ input hi => h.within input (hin input hi)
  ready := by
    intro done
    refine Graph.ready_append.mpr ⟨h.ready done, ?_, trivial⟩
    intro input hi
    exact List.mem_append_right done (hin input hi)

theorem split (h : Orderly graph depth (nodes ++ more)) : Orderly graph depth nodes where
  present := fun node hn => h.present node (List.mem_append_left _ hn)
  within := fun node hn => h.within node (List.mem_append_left _ hn)
  ready := fun done => (Graph.ready_append.mp (h.ready done)).1

end Orderly

/-- The trace is in order and, if nothing stops it, has the nodes with these ids. -/
def Covers (graph : Graph) (depth : Nat) (ids : List String)
    (trace : List Node × Option RunError) : Prop :=
  Orderly graph depth trace.1 ∧
    (trace.2 = none → ∀ id ∈ ids, ∀ node, graph.node? id = some node → node ∈ trace.1)

theorem traceInTurn_covers {depth : Nat} {visiting : List String}
    (h : ∀ id, Covers graph depth [id] (traceVisit registry graph depth visiting id))
    (ids : List String) :
    Covers graph depth ids (traceInTurn (traceVisit registry graph depth visiting) ids) := by
  induction ids with
  | nil => exact ⟨.nil, by simp⟩
  | cons id ids ih =>
    obtain ⟨horder, hcovers⟩ := h id
    obtain ⟨hlater, hcoversLater⟩ := ih
    rw [traceInTurn]
    rcases ht : traceVisit registry graph depth visiting id with ⟨nodes, _ | e⟩
    · rw [ht] at horder hcovers
      refine ⟨horder.append hlater, ?_⟩
      intro hnone other ho node hn
      rcases List.mem_cons.mp ho with rfl | ho
      · exact List.mem_append_left _ (hcovers rfl other (by simp) node hn)
      · exact List.mem_append_right _ (hcoversLater hnone other ho node hn)
    · rw [ht] at horder
      refine ⟨horder, ?_⟩
      rintro ⟨⟩

theorem traceVisit_covers (depth : Nat) (visiting : List String) (id : String) :
    Covers graph depth [id] (traceVisit registry graph depth visiting id) := by
  induction depth generalizing visiting id with
  | zero =>
    unfold traceVisit
    cases hn : graph.node? id with
    | none => exact ⟨.nil, by simp [hn]⟩
    | some node => exact ⟨.nil, by rintro ⟨⟩⟩
  | succ depth ih =>
    unfold traceVisit
    cases hn : graph.node? id with
    | none => exact ⟨.nil, by simp [hn]⟩
    | some node =>
      by_cases hv : node.id ∈ visiting
      · simp only [hv, ↓reduceIte]
        exact ⟨.nil, by rintro ⟨⟩⟩
      · simp only [hv, ↓reduceIte]
        have hinputs : Covers graph depth ((graph.inputNodes node.id).map Node.id)
            (traceInTurn (traceVisit registry graph depth (node.id :: visiting))
              ((graph.inputNodes node.id).map Node.id)) :=
          traceInTurn_covers (fun id => ih (node.id :: visiting) id) _
        rcases ht : traceInTurn (traceVisit registry graph depth (node.id :: visiting))
          ((graph.inputNodes node.id).map Node.id) with ⟨nodes, _ | e⟩
        · rw [ht] at hinputs
          obtain ⟨horder, hcovers⟩ := hinputs
          have hself : graph.node? node.id = some node := by
            rw [Graph.node?_id hn]
            exact hn
          have hin : ∀ input ∈ graph.inputNodes node.id, input ∈ nodes := fun input hi =>
            hcovers rfl input.id (List.mem_map_of_mem hi) input (Graph.node?_of_input hi)
          cases dispatch registry graph node with
          | error e => exact ⟨horder.succ, by rintro ⟨⟩⟩
          | ok found =>
            refine ⟨horder.push hself hin, ?_⟩
            intro _ other ho found hf
            rw [List.mem_singleton.mp ho, hn] at hf
            cases hf
            simp
        · rw [ht] at hinputs
          exact ⟨hinputs.1.succ, by rintro ⟨⟩⟩

theorem orderly_trace (registry : Registry) (graph : Graph) (id : String) :
    Orderly graph graph.bound (trace registry graph id).1 :=
  (traceVisit_covers graph.bound [] id).1

theorem orderly_traces (registry : Registry) (graph : Graph) (ids : List String) :
    Orderly graph graph.bound (traces registry graph ids) := by
  induction ids with
  | nil => exact .nil
  | cons id ids ih => exact (orderly_trace registry graph id).append ih

/-! ## Induction along nodes in order -/

/-- A node is compiled next, after its inputs, in a pass that keeps to the plan. -/
structure Step (registry : Registry) (graph : Graph) (done : List Node) (node : Node)
    (pass pass' : Pass) : Prop where
  settled : Settled registry graph done pass
  earlier : ∀ other ∈ done, graph.Within graph.bound other.id
  present : graph.node? node.id = some node
  within : graph.Within graph.bound node.id
  inputs : ∀ input ∈ graph.inputNodes node.id, input ∈ done
  compiled : compileNode registry graph node pass = (pass', none)

namespace Step

variable {done : List Node} {node : Node} {pass pass' : Pass}

/-- What the sources of the node offer is what the graph says. -/
theorem offered (h : Step registry graph done node pass pass') :
    ∀ edge ∈ graph.inputEdges node.id,
      pass.offered edge.source = outline registry graph edge.source :=
  h.settled.source h.inputs

theorem next (h : Step registry graph done node pass pass') :
    Settled registry graph (done ++ [node]) pass' :=
  (h.settled.step h.present h.within h.inputs h.compiled).2

/-- The node emits what is planned for it, in one form or the other. -/
theorem instructions (h : Step registry graph done node pass pass') :
    ∃ js : List Instruction, pass'.instructions = pass.instructions ++ js ∧
      ∀ j ∈ js, ∃ i ∈ planned registry graph node, i.EmittedAs j := by
  have hemissions := (h.settled.step h.present h.within h.inputs h.compiled).1
  obtain ⟨js, hjs, hall⟩ := Pass.emissions_addAll pass node.id (planned registry graph node)
  refine ⟨js, ?_, hall⟩
  simp [Pass.instructions, hemissions, hjs, Function.comp_def]

end Step

section Induction

variable {P : List Node → Pass → Prop}
  (hstep : ∀ done node pass pass', Step registry graph done node pass pass' →
    P done pass → P (done ++ [node]) pass')

include hstep

private theorem induction_from {done nodes : List Node} {pass pass' : Pass}
    (hs : Settled registry graph done pass)
    (hd : ∀ node ∈ done, graph.Within graph.bound node.id) (hP : P done pass)
    (hn : ∀ node ∈ nodes, graph.node? node.id = some node ∧ graph.Within graph.bound node.id)
    (hr : graph.Ready done nodes) (hc : compileAll registry graph nodes pass = (pass', none)) :
    P (done ++ nodes) pass' := by
  induction nodes generalizing done pass with
  | nil =>
    cases hc
    simpa using hP
  | cons node nodes ih =>
    rw [ShaderGraph.compileAll] at hc
    split at hc
    · cases hc
    · rename_i inner hnode
      obtain ⟨hself, hrest⟩ := List.forall_mem_cons.mp hn
      have hone : Step registry graph done node pass inner :=
        ⟨hs, hd, hself.1, hself.2, hr.1, hnode⟩
      have hall := ih hone.next (by simpa [or_imp, forall_and] using ⟨hd, hself.2⟩)
        (hstep _ _ _ _ hone hP) hrest hr.2 hc
      rw [List.append_assoc] at hall
      exact hall

/-- **What holds at the start and is kept by every node** holds when nodes have
been compiled in order. -/
theorem Orderly.induction {nodes : List Node} {pass : Pass}
    (ho : Orderly graph graph.bound nodes) (hP : P [] {})
    (hc : compileAll registry graph nodes {} = (pass, none)) : P nodes pass :=
  induction_from hstep settled_nil (by simp) hP
    (fun node hn => ⟨ho.present node hn, ho.within node hn⟩) (ho.ready []) hc

end Induction

theorem Orderly.settled {nodes : List Node} {pass : Pass} (ho : Orderly graph graph.bound nodes)
    (hc : compileAll registry graph nodes {} = (pass, none)) :
    Settled registry graph nodes pass :=
  ho.induction (fun _ _ _ _ hone _ => hone.next) settled_nil hc

/-- The nodes of a run that is not stopped, in the order of compilation. -/
theorem orderly_postorder {id : String} {pass : Pass}
    (h : (run registry graph id pass).2 = none) :
    Orderly graph graph.bound (graph.postorder id) := by
  obtain ⟨hn, hready, _⟩ := run_ready h
  exact ⟨fun node hm => (hn node hm).1, fun node hm => (hn node hm).2, hready⟩

/-! ## What is recorded over several runs -/

/-- Nodes in order can be compiled without an error up to any place where the
whole list can, and the pass agrees with the graph there. -/
theorem settled_before {nodes before after : List Node} {pass : Pass}
    (ho : Orderly graph graph.bound nodes) (hs : nodes = before ++ after)
    (hc : compileAll registry graph nodes {} = (pass, none)) :
    ∃ inner, compileAll registry graph before {} = (inner, none) ∧
      Settled registry graph before inner ∧
      compileAll registry graph after inner = (pass, none) := by
  subst hs
  obtain ⟨inner, hbefore, hafter⟩ := compileAll_split hc
  exact ⟨inner, hbefore, ho.split.settled hbefore, hafter⟩

/-- Every node of a list in order is compiled in a pass that keeps to the plan. -/
theorem Orderly.step_at {nodes done rest : List Node} {node : Node} {pass : Pass}
    (ho : Orderly graph graph.bound nodes) (hs : nodes = done ++ node :: rest)
    (hc : compileAll registry graph nodes {} = (pass, none)) :
    ∃ inner made, compileAll registry graph done {} = (inner, none) ∧
      Step registry graph done node inner made := by
  obtain ⟨inner, hdone, hsettled, hrest⟩ := settled_before ho hs hc
  subst hs
  rw [compileAll] at hrest
  split at hrest
  · cases hrest
  · rename_i made hnode
    exact ⟨inner, made, hdone, hsettled, ho.split.within, ho.present node (by simp),
      ho.within node (by simp), (ho.ready []).before, hnode⟩

theorem settled_traces (registry : Registry) (graph : Graph) (ids : List String) :
    Settled registry graph (traces registry graph ids) (runs registry graph ids {}) := by
  have hruns : compileAll registry graph (traces registry graph ids) {} = _ :=
    runs_traces registry graph ids rfl
  exact (orderly_traces registry graph ids).settled hruns

/-- An assignment stands for the last instruction that its node hands in. -/
theorem Shape.assignment {is : List Instruction} {i j : Instruction} (h : Shape is) (hi : i ∈ is)
    (hj : i.EmittedAs j) (hk : j.kind.isAssignment) :
    is.getLast? = some i ∧ j.value = i.value := by
  have hassign : i.kind = .assign := by
    rcases hj with rfl | ⟨hi', _⟩
    · have hno := h.not_reassign hi
      cases hki : j.kind <;> simp_all [InstructionKind.isAssignment]
    · exact hi'
  refine ⟨h.last hi (by simp [hassign]), ?_⟩
  rcases hj with rfl | ⟨_, rfl⟩ <;> rfl

namespace Settled

variable {done : List Node} {pass : Pass}

/-- All that is emitted for a node goes back to what that node hands in. -/
theorem emitted (h : Settled registry graph done pass) {e f : Emission}
    (he : e ∈ pass.emissions) (hf : f ∈ pass.emissions) (hn : e.node = f.node) :
    ∃ node, ∃ i ∈ planned registry graph node, ∃ j ∈ planned registry graph node,
      i.EmittedAs e.instruction ∧ j.EmittedAs f.instruction := by
  obtain ⟨node, hnode, hid, i, hi, hie⟩ := h.recorded e he
  obtain ⟨other, hother, hid', j, hj, hjf⟩ := h.recorded f hf
  have hsame : graph.node? node.id = graph.node? other.id := by rw [← hid, ← hid', hn]
  rw [h.present node hnode, h.present other hother] at hsame
  cases hsame
  exact ⟨node, i, hi, j, hj, hie, hjf⟩

theorem emission_socket (h : Settled registry graph done pass) {e f : Emission}
    (he : e ∈ pass.emissions) (hf : f ∈ pass.emissions) (hn : e.node = f.node) :
    e.instruction.socket = f.instruction.socket := by
  obtain ⟨node, i, hi, j, hj, hie, hjf⟩ := h.emitted he hf hn
  have hshape := planned_shape registry graph node
  have hij : i.socket = j.socket :=
    Option.some.inj ((hshape.socket hi).symm.trans (hshape.socket hj))
  rw [hie.socket, hjf.socket, hij]

theorem emission_value (h : Settled registry graph done pass) {e f : Emission}
    (he : e ∈ pass.emissions) (hf : f ∈ pass.emissions) (hn : e.node = f.node)
    (hke : e.instruction.kind.isAssignment) (hkf : f.instruction.kind.isAssignment) :
    e.instruction.value = f.instruction.value := by
  obtain ⟨node, i, hi, j, hj, hie, hjf⟩ := h.emitted he hf hn
  have hshape := planned_shape registry graph node
  obtain ⟨hlast, hvalue⟩ := hshape.assignment hi hie hke
  obtain ⟨hlast', hvalue'⟩ := hshape.assignment hj hjf hkf
  cases hlast.symm.trans hlast'
  rw [hvalue, hvalue']

/-- What is declared is what the graph says. -/
theorem outline_of_declaration (h : Settled registry graph done pass) {id : String}
    {d : Declaration} (hd : pass.declaration? id = some d) :
    outline registry graph id = some ⟨d.dataType, d.name⟩ := by
  apply h.again
  simp [Pass.offered, hd]

/-- What is offered was compiled. -/
theorem mem_of_offered (h : Settled registry graph done pass) {id : String} {s : Socket}
    (hs : pass.offered id = some s) : ∃ node ∈ done, node.id = id := by
  by_contra hno
  push Not at hno
  rw [h.fresh id hno] at hs
  cases hs

/-- What is declared at one time is declared ever after. -/
theorem keeps {before after : List Node} {inner : Pass}
    (h : Settled registry graph (before ++ after) pass)
    (hinner : Settled registry graph before inner) {id : String} {d : Declaration}
    (hd : inner.declaration? id = some d) : ∃ d', pass.declaration? id = some d' := by
  have hoffered : inner.offered id = some ⟨d.dataType, d.name⟩ := by simp [Pass.offered, hd]
  obtain ⟨node, hn, rfl⟩ := hinner.mem_of_offered hoffered
  have hpass := h.offered node (List.mem_append_left _ hn)
  rw [hinner.again hoffered] at hpass
  obtain ⟨d', hd', _⟩ := Option.map_eq_some_iff.mp hpass
  exact ⟨d', hd'⟩

end Settled

theorem runs_outline (ids : List String) {id : String} {d : Declaration}
    (hd : (runs registry graph ids {}).declaration? id = some d) :
    outline registry graph id = some ⟨d.dataType, d.name⟩ :=
  (settled_traces registry graph ids).outline_of_declaration hd

/-- **Emitting a node again never changes it.** Take any sequence of runs on one pass,
stopped or not. All that is emitted for a node has one type and one name, and its
assignments have one value. The runs let the nodes of their traces add their parts
one after the other; what a node has declared at any time in between, it has
declared with the same type and name ever after. Two sequences of runs never
disagree on the type or the name that a node has declared. -/
theorem runs_emit_alike (registry : Registry) (graph : Graph) (ids : List String) :
    let pass := runs registry graph ids {}
    (∀ e ∈ pass.emissions, ∀ f ∈ pass.emissions, e.node = f.node →
      e.instruction.dataType = f.instruction.dataType ∧
        e.instruction.name = f.instruction.name ∧
        (e.instruction.kind.isAssignment → f.instruction.kind.isAssignment →
          e.instruction.value = f.instruction.value)) ∧
      compileAll registry graph (traces registry graph ids) {} = (pass, none) ∧
      (∀ before after, traces registry graph ids = before ++ after → ∀ id d,
        (compileAll registry graph before {}).1.declaration? id = some d →
          ∃ d', pass.declaration? id = some d' ∧ d'.dataType = d.dataType ∧ d'.name = d.name) ∧
      (∀ others id d d', pass.declaration? id = some d →
        (runs registry graph others {}).declaration? id = some d' →
          d'.dataType = d.dataType ∧ d'.name = d.name) := by
  have hsettled := settled_traces registry graph ids
  have hruns : compileAll registry graph (traces registry graph ids) {} = _ :=
    runs_traces registry graph ids rfl
  refine ⟨?_, hruns, ?_, ?_⟩
  · intro e he f hf hn
    have hsocket := hsettled.emission_socket he hf hn
    exact ⟨congrArg Socket.dataType hsocket, congrArg Socket.name hsocket,
      hsettled.emission_value he hf hn⟩
  · intro before after hsplit id d hd
    obtain ⟨inner, hbefore, hinner, _⟩ :=
      settled_before (orderly_traces registry graph ids) hsplit hruns
    rw [hbefore] at hd
    rw [hsplit] at hsettled
    obtain ⟨d', hd'⟩ := hsettled.keeps hinner hd
    have hsame := (hinner.outline_of_declaration hd).symm.trans
      (hsettled.outline_of_declaration hd')
    cases d
    cases d'
    cases hsame
    exact ⟨_, hd', rfl, rfl⟩
  · intro others id d d' hd hd'
    have hsame := (runs_outline ids hd).symm.trans (runs_outline others hd')
    cases d
    cases d'
    cases hsame
    exact ⟨rfl, rfl⟩

end ShaderGraph
