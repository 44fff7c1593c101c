import Mathlib.Data.List.Perm.Subperm
import ShaderGraph.Proofs.Run

/-!
Compilation ends on every graph, and it fails only for a reason that can be read
off the graph: a cycle behind the sink, or a kind that is not registered.

`Walk` is the walk over the graph with no bound on its depth. It is stopped only
by the marks on the way, and its derivations are its finite runs; the bounded
walk has one from every start, so its bound is never met.
-/

namespace ShaderGraph

variable {registry : Registry} {graph : Graph}

/-- The node is no longer being visited. -/
def Pass.leave (pass : Pass) (id : String) : Pass := pass.on (pass.visiting.erase id)

/-- Visits nodes in turn: each is marked, then its inputs are visited, then it is
compiled and the mark is taken away, whatever has happened. -/
inductive Walk (registry : Registry) (graph : Graph) :
    List String → Pass → Pass × Option RunError → Prop
  | done {pass : Pass} : Walk registry graph [] pass (pass, none)
  | absent {id : String} {ids : List String} {pass : Pass} {outcome : Pass × Option RunError} :
      graph.node? id = none → Walk registry graph ids pass outcome →
      Walk registry graph (id :: ids) pass outcome
  | revisit {id : String} {ids : List String} {pass : Pass} {node : Node} :
      graph.node? id = some node → node.id ∈ pass.visiting →
      Walk registry graph (id :: ids) pass (pass, some (.cyclicGraph node.id))
  | stopped {id : String} {ids : List String} {pass inner : Pass} {node : Node} {e : RunError} :
      graph.node? id = some node → node.id ∉ pass.visiting →
      Walk registry graph ((graph.inputNodes node.id).map Node.id)
        (pass.on (node.id :: pass.visiting)) (inner, some e) →
      Walk registry graph (id :: ids) pass (inner.leave node.id, some e)
  | refused {id : String} {ids : List String} {pass inner made : Pass} {node : Node}
      {e : RunError} :
      graph.node? id = some node → node.id ∉ pass.visiting →
      Walk registry graph ((graph.inputNodes node.id).map Node.id)
        (pass.on (node.id :: pass.visiting)) (inner, none) →
      compileNode registry graph node inner = (made, some e) →
      Walk registry graph (id :: ids) pass (made.leave node.id, some e)
  | compiled {id : String} {ids : List String} {pass inner made : Pass} {node : Node}
      {outcome : Pass × Option RunError} :
      graph.node? id = some node → node.id ∉ pass.visiting →
      Walk registry graph ((graph.inputNodes node.id).map Node.id)
        (pass.on (node.id :: pass.visiting)) (inner, none) →
      compileNode registry graph node inner = (made, none) →
      Walk registry graph ids (made.leave node.id) outcome →
      Walk registry graph (id :: ids) pass outcome

theorem Pass.leave_eq {pass inner : Pass} {id : String}
    (h : inner.visiting = id :: pass.visiting) : inner.leave id = inner.on pass.visiting := by
  rw [Pass.leave, h, List.erase_cons_head]

theorem Walk.visiting {ids : List String} {pass : Pass} {outcome : Pass × Option RunError}
    (h : Walk registry graph ids pass outcome) : outcome.1.visiting = pass.visiting := by
  induction h with
  | done => rfl
  | absent _ _ ih => exact ih
  | revisit => rfl
  | stopped _ _ _ ih => rw [Pass.leave_eq ih]; rfl
  | refused _ _ _ hc ih =>
    rw [Pass.leave_eq ((compileNode_visiting hc).trans ih)]
    rfl
  | compiled _ _ _ hc _ ihinputs ih =>
    rw [ih, Pass.leave_eq ((compileNode_visiting hc).trans ihinputs)]
    rfl

/-! ## The bound is not met -/

/-- Distinct nodes are being visited, and the depth that is left is enough for
all others and one more. -/
structure Room (graph : Graph) (depth : Nat) (visiting : List String) : Prop where
  nodup : visiting.Nodup
  present : ∀ id ∈ visiting, (graph.node? id).isSome
  enough : graph.nodes.length < visiting.length + depth

theorem Room.pos {depth : Nat} {visiting : List String} (h : Room graph depth visiting) :
    0 < depth := by
  have hsub : visiting ⊆ graph.nodes.map Node.id := by
    intro id hid
    obtain ⟨node, hn⟩ := Option.isSome_iff_exists.mp (h.present id hid)
    exact List.mem_map.mpr ⟨node, Graph.node?_mem hn, Graph.node?_id hn⟩
  have hle := (List.subperm_of_subset h.nodup hsub).length_le
  have hlt := h.enough
  rw [List.length_map] at hle
  omega

theorem Room.enter {depth : Nat} {visiting : List String} {node : Node}
    (h : Room graph (depth + 1) visiting) (hn : (graph.node? node.id).isSome)
    (hv : node.id ∉ visiting) : Room graph depth (node.id :: visiting) where
  nodup := List.nodup_cons.mpr ⟨hv, h.nodup⟩
  present := List.forall_mem_cons.mpr ⟨hn, h.present⟩
  enough := by
    have hlt := h.enough
    rw [List.length_cons]
    omega

/-- **The walk ends.** -/
theorem inTurn_walk {depth : Nat} (ids : List String) {pass : Pass}
    (h : Room graph depth pass.visiting) :
    Walk registry graph ids pass (inTurn (visit registry graph depth) ids pass) := by
  induction depth generalizing ids pass with
  | zero => exact absurd h.pos (Nat.lt_irrefl 0)
  | succ depth ihdepth =>
    induction ids generalizing pass with
    | nil => exact .done
    | cons id ids ih =>
      rw [inTurn]
      cases hn : graph.node? id with
      | none =>
        rw [visit_absent hn]
        exact .absent hn (ih h)
      | some node =>
        by_cases hv : node.id ∈ pass.visiting
        · rw [visit_revisit hn hv]
          exact .revisit hn hv
        · have hroom : Room graph depth (node.id :: pass.visiting) :=
            h.enter (by rw [Graph.node?_id hn, hn]; rfl) hv
          have hwalk : Walk registry graph ((graph.inputNodes node.id).map Node.id)
              (pass.on (node.id :: pass.visiting)) _ := ihdepth _ hroom
          rw [visit_enter hn hv]
          rcases hin : inTurn (visit registry graph depth) ((graph.inputNodes node.id).map Node.id)
            (pass.on (node.id :: pass.visiting)) with ⟨inner, _ | e⟩
          · rw [hin] at hwalk
            rcases hc : compileNode registry graph node inner with ⟨made, _ | e⟩
            · have hleave := Pass.leave_eq ((compileNode_visiting hc).trans hwalk.visiting)
              simp only [hc, ← hleave]
              refine .compiled hn hv hwalk hc (ih ?_)
              rw [hleave]
              exact h
            · simp only [hc, ← Pass.leave_eq ((compileNode_visiting hc).trans hwalk.visiting)]
              exact .refused hn hv hwalk hc
          · rw [hin] at hwalk
            simp only [← Pass.leave_eq hwalk.visiting]
            exact .stopped hn hv hwalk

theorem run_walk (id : String) {pass : Pass} (h : pass.visiting = []) :
    Walk registry graph [id] pass (run registry graph id pass) := by
  have hroom : Room graph graph.bound pass.visiting := by
    rw [h]
    exact ⟨List.nodup_nil, by simp, by simp [Graph.bound]⟩
  have hw : Walk registry graph [id] pass _ := inTurn_walk [id] hroom
  have hone : inTurn (visit registry graph graph.bound) [id] pass = run registry graph id pass := by
    rw [inTurn]
    show _ = visit registry graph graph.bound id pass
    rcases visit registry graph graph.bound id pass with ⟨inner, _ | e⟩ <;> rfl
  rw [← hone]
  exact hw

/-! ## What stops it -/

/-- The kinds that have to be registered for a node: its own and, where that one
makes the node a reference to a uniform that exists, the kind of the uniform. -/
inductive AsksFor (registry : Registry) (graph : Graph) (node : Node) : String → Prop
  | own : AsksFor registry graph node node.kind
  | uniform {id : String} {value : Option Json} {u : Uniform} :
      registry.find? node.kind = some .uniform → node.data.payload = .uniform id value →
      graph.uniform? id = some u → AsksFor registry graph node u.kind.name

def Supported (registry : Registry) (graph : Graph) (node : Node) : Prop :=
  ∀ kind, AsksFor registry graph node kind → (registry.find? kind).isSome

/-- A reason for an error in what is behind the sink. -/
def Fault (registry : Registry) (graph : Graph) (sink : String) : RunError → Prop
  | .cyclicGraph n => ∃ node, graph.Reached sink node ∧ node.id = n ∧ graph.OnCycle n
  | .unknownNodeKind n kind => ∃ node, graph.Reached sink node ∧ node.id = n ∧
      AsksFor registry graph node kind ∧ registry.find? kind = none

theorem dispatch_error {node : Node} {e : RunError} (h : dispatch registry graph node = .error e) :
    ∃ kind, e = .unknownNodeKind node.id kind ∧ AsksFor registry graph node kind ∧
      registry.find? kind = none := by
  unfold dispatch at h
  cases hk : registry.find? node.kind with
  | none =>
    rw [hk] at h
    cases h
    exact ⟨_, rfl, .own, hk⟩
  | some generator =>
    simp only [hk] at h
    split at h
    · rename_i id value hp
      cases hu : graph.uniform? id with
      | none => simp [hu] at h
      | some u =>
        simp only [hu] at h
        cases hr : registry.find? u.kind.name with
        | some target => simp [hr] at h
        | none =>
          simp only [hr] at h
          cases h
          exact ⟨_, rfl, .uniform hk hp hu, hr⟩
    · cases h

theorem supported_of_dispatch {node : Node} {found : Generator × Node}
    (h : dispatch registry graph node = .ok found) : Supported registry graph node := by
  intro kind hask
  unfold dispatch at h
  cases hask with
  | own =>
    cases hk : registry.find? node.kind with
    | none => simp [hk] at h
    | some generator => rfl
  | @uniform id value u hk hp hu =>
    simp only [hk, hp, hu] at h
    cases hr : registry.find? u.kind.name with
    | none => simp [hr] at h
    | some target => rfl

/-- What is still to be visited is behind the sink, and feeds all that is being
visited. -/
structure Ahead (graph : Graph) (sink : String) (ids visiting : List String) : Prop where
  reached : ∀ id ∈ ids, ∀ node, graph.node? id = some node → graph.Reached sink node
  feeds : ∀ id ∈ ids, (graph.node? id).isSome →
    ∀ v ∈ visiting, Relation.TransGen graph.Feeds id v

theorem Ahead.tail {sink id : String} {ids visiting : List String}
    (h : Ahead graph sink (id :: ids) visiting) : Ahead graph sink ids visiting where
  reached := fun other ho => h.reached other (List.mem_cons_of_mem _ ho)
  feeds := fun other ho => h.feeds other (List.mem_cons_of_mem _ ho)

theorem Ahead.inputs {sink id : String} {ids visiting : List String} {node : Node}
    (h : Ahead graph sink (id :: ids) visiting) (hn : graph.node? id = some node) :
    Ahead graph sink ((graph.inputNodes node.id).map Node.id) (node.id :: visiting) where
  reached := by
    intro other ho found hf
    obtain ⟨input, hi, rfl⟩ := List.mem_map.mp ho
    rw [Graph.node?_of_input hi] at hf
    cases hf
    exact (h.reached id (List.mem_cons_self ..) node hn).input hi
  feeds := by
    intro other ho _ v hv
    obtain ⟨input, hi, rfl⟩ := List.mem_map.mp ho
    have hfeeds : graph.Feeds input.id node.id := ⟨input, hi, rfl⟩
    rcases List.mem_cons.mp hv with rfl | hv
    · exact .single hfeeds
    · have hid := h.feeds id (List.mem_cons_self ..) (by simp [hn]) v hv
      rw [← Graph.node?_id hn] at hid
      exact .head hfeeds hid

/-- Every error of a walk has its reason behind the sink. -/
theorem Walk.fault {ids : List String} {pass : Pass} {outcome : Pass × Option RunError}
    (h : Walk registry graph ids pass outcome) {sink : String}
    (hahead : Ahead graph sink ids pass.visiting) {e : RunError} (he : outcome.2 = some e) :
    Fault registry graph sink e := by
  induction h with
  | done => cases he
  | absent _ _ ih => exact ih hahead.tail he
  | @revisit id ids pass node hn hv =>
    cases he
    refine ⟨node, hahead.reached id (List.mem_cons_self ..) node hn, rfl, ?_⟩
    have hcycle := hahead.feeds id (List.mem_cons_self ..) (by simp [hn]) node.id hv
    rw [← Graph.node?_id hn] at hcycle
    exact hcycle
  | stopped hn _ _ ih => exact ih (hahead.inputs hn) he
  | @refused id ids pass inner made node _ hn _ _ hc _ =>
    cases he
    rw [compileNode_eq] at hc
    cases hd : dispatch registry graph node with
    | ok found => simp [hd] at hc
    | error e' =>
      simp only [hd] at hc
      cases hc
      obtain ⟨kind, rfl, hkind, hnone⟩ := dispatch_error hd
      exact ⟨node, hahead.reached id (List.mem_cons_self ..) node hn, rfl, hkind, hnone⟩
  | compiled _ _ hw hc _ _ ih =>
    refine ih ?_ he
    rw [Pass.leave_eq ((compileNode_visiting hc).trans hw.visiting)]
    exact hahead.tail

/-! ## Success -/

theorem compileAll_supported {nodes : List Node} {pass pass' : Pass}
    (h : compileAll registry graph nodes pass = (pass', none)) :
    ∀ node ∈ nodes, Supported registry graph node := by
  intro node hn
  obtain ⟨before, after, rfl⟩ := List.append_of_mem hn
  obtain ⟨inner, _, hrest⟩ := compileAll_split h
  rw [compileAll, compileNode_eq] at hrest
  cases hd : dispatch registry graph node with
  | error e => simp [hd] at hrest
  | ok found => exact supported_of_dispatch hd

/-- Where a run is not stopped, nothing behind its sink could stop it. -/
theorem run_ok {id : String} {pass : Pass} (h : (run registry graph id pass).2 = none)
    {node : Node} (hr : graph.Reached id node) :
    ¬ graph.OnCycle node.id ∧ Supported registry graph node := by
  obtain ⟨hwithin, hall⟩ := visit_ok (Prod.ext rfl h)
  exact ⟨(hwithin.reached hr).not_onCycle,
    compileAll_supported hall node ((Graph.mem_postorder_iff hwithin).mpr hr)⟩

theorem run_fault {id : String} {pass : Pass} {e : RunError} (hv : pass.visiting = [])
    (h : (run registry graph id pass).2 = some e) : Fault registry graph id e := by
  refine (run_walk id hv).fault ⟨?_, by simp [hv]⟩ h
  intro other ho node hn
  rw [List.mem_singleton.mp ho] at hn
  exact .sink hn

/-- A reason for an error is a reason not to succeed. -/
theorem Fault.elim {sink : String} {e : RunError} (h : Fault registry graph sink e)
    (hfine : ∀ node, graph.Reached sink node →
      ¬ graph.OnCycle node.id ∧ Supported registry graph node) : False := by
  cases e with
  | cyclicGraph n =>
    obtain ⟨node, hr, rfl, hc⟩ := h
    exact (hfine node hr).1 hc
  | unknownNodeKind n kind =>
    obtain ⟨node, hr, rfl, hask, hnone⟩ := h
    have hsome := (hfine node hr).2 kind hask
    rw [hnone] at hsome
    cases hsome

theorem compile_error_iff {sink : String} {e : RunError} :
    compile registry graph sink = .error e ↔ (run registry graph sink {}).2 = some e := by
  unfold compile
  rcases run registry graph sink {} with ⟨pass, _ | e'⟩ <;> simp

theorem compile_ok_iff {sink : String} :
    (∃ shader, compile registry graph sink = .ok shader) ↔
      (run registry graph sink {}).2 = none := by
  unfold compile
  rcases run registry graph sink {} with ⟨pass, _ | e'⟩ <;> simp

/-- **The outcome of a compilation.** It is that of a finite walk from the sink.
There is a shader exactly when no node behind the sink lies on a cycle and all
kinds that those nodes ask for are registered. An error names a node behind the
sink that does lie on a cycle, or that does ask for a kind which is missing. -/
theorem compile_outcome (registry : Registry) (graph : Graph) (sink : String) :
    (∃ pass error, Walk registry graph [sink] {} (pass, error) ∧
      compile registry graph sink =
        match error with
        | some e => .error e
        | none => .ok pass.finish) ∧
      ((∃ shader, compile registry graph sink = .ok shader) ↔
        ∀ node, graph.Reached sink node →
          ¬ graph.OnCycle node.id ∧ Supported registry graph node) ∧
      (∀ n, compile registry graph sink = .error (.cyclicGraph n) →
        ∃ node, graph.Reached sink node ∧ node.id = n ∧ graph.OnCycle n) ∧
      (∀ n kind, compile registry graph sink = .error (.unknownNodeKind n kind) →
        ∃ node, graph.Reached sink node ∧ node.id = n ∧
          AsksFor registry graph node kind ∧ registry.find? kind = none) := by
  have hfault : ∀ e, compile registry graph sink = .error e → Fault registry graph sink e :=
    fun e he => run_fault rfl (compile_error_iff.mp he)
  have hwalk : Walk registry graph [sink] {} (run registry graph sink {}) := run_walk sink rfl
  refine ⟨?_, ⟨?_, ?_⟩, fun n => hfault _, fun n kind => hfault _⟩
  · rcases hrun : run registry graph sink {} with ⟨pass, error⟩
    rw [hrun] at hwalk
    refine ⟨pass, error, hwalk, ?_⟩
    rw [compile, hrun]
    cases error <;> rfl
  · intro hok node hr
    exact run_ok (compile_ok_iff.mp hok) hr
  · intro hfine
    cases hc : compile registry graph sink with
    | ok shader => exact ⟨shader, rfl⟩
    | error e => exact ((hfault e hc).elim hfine).elim

end ShaderGraph
