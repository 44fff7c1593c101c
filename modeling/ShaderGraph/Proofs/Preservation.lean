import ShaderGraph.Proofs.Latest
import ShaderGraph.Proofs.Meaning

/-!
Compilation keeps the meaning of a graph. The assignments of a finished pass are
run as they stand in the stream; each node that is compiled leaves its variable
with the value that the node has in the graph (`Simulated`). A node that comes by
again is emitted once more with expressions whose variables are all bound by
then, so the copy assigns what is there already.
-/

namespace ShaderGraph

variable {V : Type} {interp : Interpretation V} {registry : Registry} {graph : Graph}

/-! ## The instructions of one node -/

namespace Shape

variable {is : List Instruction}

/-- A node either assigns to its variable or declares it as coming from outside. -/
theorem executeAssigns (h : Shape is) (interp : Interpretation V) (env : Env V) :
    (executeAssigns interp env is = env ∧
        ∀ i, is.getLast? = some i → ∃ v, i.external? interp = some v) ∨
      ∃ i, is.getLast? = some i ∧ i.kind = .assign ∧
        ShaderGraph.executeAssigns interp env is = i.assign interp env := by
  cases h with
  | nothing => exact .inl ⟨rfl, by simp⟩
  | @value i hk =>
    by_cases ha : i.kind = .assign
    · exact .inr ⟨i, rfl, ha, by simp [ShaderGraph.executeAssigns, execute, ha]⟩
    · refine .inl ⟨by simp [ShaderGraph.executeAssigns, execute, ha], ?_⟩
      rintro _ ⟨⟩
      rcases hk with hk | hk | hk
      · exact ⟨interp.uniform i.name, by simp [Instruction.external?, hk]⟩
      · exact ⟨interp.varying i.name, by simp [Instruction.external?, hk]⟩
      · exact absurd hk ha
  | @call i j hi hj _ =>
    exact .inr ⟨j, rfl, hj, by simp [ShaderGraph.executeAssigns, execute, hi, hj]⟩

end Shape

theorem steady_of_not_reassign {is : List Instruction} (env : Env V)
    (h : ∀ i ∈ is, i.kind ≠ .reassign) : Steady interp env is := by
  induction is generalizing env with
  | nil => trivial
  | cons i is ih =>
    obtain ⟨hi, his⟩ := List.forall_mem_cons.mp h
    exact ⟨fun hk => absurd hk hi, ih _ his⟩

/-- Copies that change nothing. -/
theorem steady_of_idle {is : List Instruction} {env : Env V}
    (h : ∀ i ∈ is, i.kind.isAssignment → i.assign interp env = env) :
    executeAssigns interp env is = env ∧ Steady interp env is := by
  have hidle : ∀ js : List Instruction,
      (∀ i ∈ js, i.kind.isAssignment → i.assign interp env = env) →
        executeAssigns interp env js = env := by
    intro js hjs
    apply execute_idle
    intro i hi hk
    rw [beq_iff_eq] at hk
    exact hjs i hi (by rw [hk]; rfl)
  refine ⟨hidle is h, ?_⟩
  induction is with
  | nil => trivial
  | cons i is ih =>
    obtain ⟨hi, his⟩ := List.forall_mem_cons.mp h
    refine ⟨fun hk => hi (by rw [hk]; rfl), ?_⟩
    rw [hidle [i] (by simpa using hi)]
    exact ih his

namespace Instruction

variable {env : Env V} {i : Instruction}

theorem external?_kind {v : V} (h : i.external? interp = some v) :
    i.kind = .uniform ∨ i.kind = .varying := by
  cases hk : i.kind <;> simp_all [external?]

theorem result_assign (h : i.kind = .assign) :
    i.result interp env = i.value.bind (·.eval interp env) := by
  simp [result, external?, h]

theorem assign_of_bound (h : i.value.bind (·.eval interp env) = env i.name) :
    i.assign interp env = env := by
  funext name
  by_cases hn : name = i.name
  · simp [assign, hn, h]
  · simp [assign, hn]

end Instruction

theorem Gives.of_last {env : Env V} {is : List Instruction} {i : Instruction} {v : Option V}
    (h : Gives interp env is v) (hl : is.getLast? = some i) :
    ∃ x, v = some x ∧ i.result interp env = some x := by
  rw [Gives, hl] at h
  obtain ⟨x, hx⟩ := Option.isSome_iff_exists.mp h.1
  exact ⟨x, hx, h.2.trans hx⟩

/-! ## One node more -/

/-- The nodes of a run. None is lost or leads to a cycle, each keeps to a variable
of its own, varyings apart, and what comes from outside is bound from the start. -/
structure Setting (interp : Interpretation V) (registry : Registry) (graph : Graph)
    (nodes : List Node) (start : Env V) : Prop where
  present : ∀ n ∈ nodes, graph.node? n.id = some n
  within : ∀ n ∈ nodes, graph.Within graph.bound n.id
  apart : ∀ n ∈ nodes, ∀ m ∈ nodes, ∀ i ∈ planned registry graph n,
    ∀ j ∈ planned registry graph m, i.name = j.name →
      n.id = m.id ∨ i.kind = .varying ∧ j.kind = .varying
  external : ∀ n ∈ nodes, ∀ i ∈ planned registry graph n, ∀ v,
    i.external? interp = some v → start i.name = some v

/-- The variable of a node is that of an instruction which the node hands in. -/
theorem Setting.of_outline {nodes : List Node} {start : Env V} {node : Node} {s : Socket}
    (h : Setting interp registry graph nodes start) (hmem : node ∈ nodes)
    (hs : outline registry graph node.id = some s) :
    ∃ i ∈ planned registry graph node, i.socket = s := by
  rw [outline_eq (h.within node hmem) (h.present node hmem)] at hs
  obtain ⟨i, hi, rfl⟩ := Option.map_eq_some_iff.mp hs
  exact ⟨i, List.mem_of_getLast? hi, rfl⟩

/-- Whatever is no copy was handed in by one of the nodes. -/
theorem Settled.handedIn {done : List Node} {pass : Pass} (h : Settled registry graph done pass)
    {j : Instruction} (hj : j ∈ pass.instructions) (hk : j.kind ≠ .reassign) :
    ∃ m ∈ done, j ∈ planned registry graph m := by
  obtain ⟨e, he, rfl⟩ := List.mem_map.mp hj
  obtain ⟨m, hm, _, i, hi, hemitted⟩ := h.recorded e (Array.mem_toList_iff.mp he)
  rcases hemitted with heq | ⟨_, heq⟩
  · exact ⟨m, hm, heq ▸ hi⟩
  · rw [heq] at hk
    exact absurd rfl hk

/-- The variables of the nodes that are done hold the values of the nodes, and no
reassignment has changed a variable. -/
structure Simulated (interp : Interpretation V) (registry : Registry) (graph : Graph)
    (start : Env V) (done : List Node) (pass : Pass) : Prop where
  agrees : ∀ node ∈ done, Agrees (executeAssigns interp start pass.instructions)
    (outline registry graph node.id) (graph.value interp registry node.id)
  steady : Steady interp start pass.instructions

/-- A node of the run that comes after its inputs. -/
structure Next (graph : Graph) (nodes done : List Node) (node : Node) : Prop where
  mem : node ∈ nodes
  before : ∀ m ∈ done, m ∈ nodes
  ready : ∀ input ∈ graph.inputNodes node.id, input ∈ done

namespace Simulated

variable {start : Env V} {done nodes : List Node} {node : Node} {pass pass' : Pass}

/-- What the next node hands in evaluates to its value. -/
theorem gives (h : Simulated interp registry graph start done pass)
    (hset : Setting interp registry graph nodes start) (hnext : Next graph nodes done node) :
    Gives interp (executeAssigns interp start pass.instructions) (planned registry graph node)
      (graph.value interp registry node.id) := by
  rw [Graph.value_eq (hset.within node hnext.mem) (hset.present node hnext.mem)]
  apply plannedFrom_gives
  intro edge he
  cases hs : graph.node? edge.source with
  | none =>
    rw [outline_absent hs, Graph.value_absent hs]
    trivial
  | some input =>
    have hi := hnext.ready input (Graph.mem_inputNodes.mpr ⟨edge, he, hs⟩)
    rw [← Graph.node?_id hs]
    exact h.agrees input hi

/-- A node that assigns to its variable gives it its value. -/
theorem assigning (h : Simulated interp registry graph start done pass)
    (hset : Setting interp registry graph nodes start) (hnext : Next graph nodes done node)
    {i : Instruction} (hlast : (planned registry graph node).getLast? = some i)
    (hk : i.kind = .assign) :
    Agrees (i.assign interp (executeAssigns interp start pass.instructions))
      (outline registry graph node.id) (graph.value interp registry node.id) := by
  obtain ⟨x, hx, hresult⟩ := (h.gives hset hnext).of_last hlast
  rw [Instruction.result_assign hk] at hresult
  rw [outline_eq (hset.within node hnext.mem) (hset.present node hnext.mem), hlast, hx]
  exact Agrees.assigned hresult

/-- A node that is done already emits only copies, and they change nothing. -/
theorem idle (h : Simulated interp registry graph start done pass)
    (hset : Setting interp registry graph nodes start) (hnext : Next graph nodes done node)
    (hnode : node ∈ done) {i j : Instruction} (hi : i ∈ planned registry graph node)
    (hj : i.EmittedAs j) (hk : j.kind.isAssignment) :
    j.assign interp (executeAssigns interp start pass.instructions) =
      executeAssigns interp start pass.instructions := by
  have hshape := planned_shape registry graph node
  have hassign : i.kind = .assign := by
    rcases hj with rfl | ⟨hi', _⟩
    · have := hshape.not_reassign hi
      cases hki : j.kind <;> simp_all [InstructionKind.isAssignment]
    · exact hi'
  have hlast := hshape.last hi (by simp [hassign])
  obtain ⟨x, hx, hresult⟩ := (h.gives hset hnext).of_last hlast
  have hagrees := h.agrees node hnode
  rw [outline_eq (hset.within node hnext.mem) (hset.present node hnext.mem), hlast, hx] at hagrees
  rw [Instruction.result_assign hassign] at hresult
  have hidle := Instruction.assign_of_bound (hresult.trans (Eq.symm hagrees))
  rcases hj with rfl | ⟨_, rfl⟩ <;> exact hidle

/-- **A node that comes by again** changes nothing. -/
theorem again (h : Simulated interp registry graph start done pass)
    (hset : Setting interp registry graph nodes start) (hnext : Next graph nodes done node)
    (hnode : node ∈ done) {js : List Instruction}
    (hjs : ∀ j ∈ js, ∃ i ∈ planned registry graph node, i.EmittedAs j)
    (hp : pass'.instructions = pass.instructions ++ js) :
    Simulated interp registry graph start (done ++ [node]) pass' := by
  have hidle : ∀ j ∈ js, j.kind.isAssignment →
      j.assign interp (executeAssigns interp start pass.instructions) =
        executeAssigns interp start pass.instructions := by
    intro j hj hk
    obtain ⟨i, hi, he⟩ := hjs j hj
    exact h.idle hset hnext hnode hi he hk
  obtain ⟨henv, hsteady⟩ := steady_of_idle hidle
  refine ⟨?_, ?_⟩
  · rw [hp, executeAssigns, execute_append, ← executeAssigns, henv]
    intro m hm
    rcases List.mem_append.mp hm with hm | hm
    · exact h.agrees m hm
    · cases List.mem_singleton.mp hm
      exact h.agrees node hnode
  · rw [hp, steady_append]
    exact ⟨h.steady, hsteady⟩

section First

variable (hset : Setting interp registry graph nodes start) (hnext : Next graph nodes done node)
  (hfresh : ∀ m ∈ done, m.id ≠ node.id)

include hset hnext hfresh

/-- What comes from outside is not assigned to by the nodes before. -/
theorem external (hs : Settled registry graph done pass) {i : Instruction}
    (hi : i ∈ planned registry graph node) {v : V} (hv : i.external? interp = some v) :
    executeAssigns interp start pass.instructions i.name = some v := by
  rw [executeAssigns, execute_untouched]
  · exact hset.external node hnext.mem i hi v hv
  intro j hj hk hname
  rw [beq_iff_eq] at hk
  obtain ⟨m, hm, hjm⟩ := hs.handedIn hj (by simp [hk])
  rcases hset.apart m (hnext.before m hm) node hnext.mem j hjm i hi hname with h | ⟨h, _⟩
  · exact hfresh m hm h
  · rw [hk] at h
    cases h

/-- What the node assigns to is not the variable of a node before. -/
theorem unshared {i : Instruction} (hi : i ∈ planned registry graph node)
    (hk : i.kind = .assign) {m : Node} (hm : m ∈ done) {s : Socket}
    (hs : outline registry graph m.id = some s) : s.name ≠ i.name := by
  intro hname
  obtain ⟨j, hj, rfl⟩ := hset.of_outline (hnext.before m hm) hs
  rcases hset.apart m (hnext.before m hm) node hnext.mem j hj i hi hname with h | ⟨_, h⟩
  · exact hfresh m hm h
  · rw [hk] at h
    cases h

/-- A node that assigns to nothing finds its variable bound from the start. -/
theorem declaring (h : Simulated interp registry graph start done pass)
    (hs : Settled registry graph done pass)
    (hk : ∀ i, (planned registry graph node).getLast? = some i →
      ∃ v, i.external? interp = some v) :
    Agrees (executeAssigns interp start pass.instructions) (outline registry graph node.id)
      (graph.value interp registry node.id) := by
  have hgives := h.gives hset hnext
  rw [outline_eq (hset.within node hnext.mem) (hset.present node hnext.mem)]
  cases hlast : (planned registry graph node).getLast? with
  | none =>
    rw [Gives, hlast] at hgives
    rw [hgives]
    trivial
  | some i =>
    obtain ⟨x, hx, hresult⟩ := hgives.of_last hlast
    obtain ⟨v, hv⟩ := hk i hlast
    rw [hx, ← hresult, Instruction.result, hv]
    exact external hset hnext hfresh hs (List.mem_of_getLast? hlast) hv

/-- **A node that comes by for the first time** runs all that it hands in. -/
theorem first (h : Simulated interp registry graph start done pass)
    (hs : Settled registry graph done pass)
    (hp : pass'.instructions = pass.instructions ++ planned registry graph node) :
    Simulated interp registry graph start (done ++ [node]) pass' := by
  have hshape := planned_shape registry graph node
  refine ⟨?_, ?_⟩
  · rw [hp, executeAssigns, execute_append, ← executeAssigns]
    intro m hm
    -- what the node runs is at most its last instruction, so one assignment at most is new
    rcases hshape.executeAssigns interp
        (executeAssigns interp start pass.instructions) with ⟨henv, hk⟩ | ⟨i, hlast, hk, henv⟩
    · rw [henv]
      rcases List.mem_append.mp hm with hm | hm
      · exact h.agrees m hm
      · cases List.mem_singleton.mp hm
        exact declaring hset hnext hfresh h hs hk
    · rw [henv]
      rcases List.mem_append.mp hm with hm | hm
      · apply (h.agrees m hm).assign
        intro s hs
        exact unshared hset hnext hfresh (List.mem_of_getLast? hlast) hk hm hs
      · cases List.mem_singleton.mp hm
        exact h.assigning hset hnext hlast hk
  · rw [hp, steady_append]
    exact ⟨h.steady, steady_of_not_reassign _ fun _ => hshape.not_reassign⟩

end First

/-- **One node more.** -/
theorem step (h : Simulated interp registry graph start done pass)
    (hs : Settled registry graph done pass)
    (hset : Setting interp registry graph nodes start) (hnext : Next graph nodes done node)
    (hc : compileNode registry graph node pass = (pass', none)) :
    Simulated interp registry graph start (done ++ [node]) pass' ∧
      Settled registry graph (done ++ [node]) pass' := by
  have hpresent := hset.present node hnext.mem
  obtain ⟨hemissions, hsettled⟩ :=
    hs.step hpresent (hset.within node hnext.mem) hnext.ready hc
  refine ⟨?_, hsettled⟩
  by_cases hnode : node ∈ done
  · obtain ⟨js, he, hjs⟩ := Pass.emissions_addAll pass node.id (planned registry graph node)
    apply h.again hset hnext hnode hjs
    simp [Pass.instructions, hemissions, he, Function.comp_def]
  · have hfresh : ∀ m ∈ done, m.id ≠ node.id := by
      intro m hm hid
      have hp := hs.present m hm
      rw [hid, hpresent] at hp
      cases hp
      exact hnode hm
    apply first hset hnext hfresh h hs
    have he := Pass.emissions_addAll_fresh (planned_shape registry graph node)
      (hs.fresh node.id hfresh)
    simp [Pass.instructions, hemissions, he, Function.comp_def]

/-- **A list of nodes**, each after its inputs. -/
theorem compileAll {rest : List Node} (h : Simulated interp registry graph start done pass)
    (hs : Settled registry graph done pass)
    (hset : Setting interp registry graph nodes start) (hdone : ∀ m ∈ done, m ∈ nodes)
    (hrest : ∀ m ∈ rest, m ∈ nodes) (hr : graph.Ready done rest)
    (hc : ShaderGraph.compileAll registry graph rest pass = (pass', none)) :
    Simulated interp registry graph start (done ++ rest) pass' := by
  induction rest generalizing done pass with
  | nil =>
    cases hc
    simpa using h
  | cons node rest ih =>
    rw [ShaderGraph.compileAll] at hc
    split at hc
    · cases hc
    · rename_i inner hnode
      obtain ⟨hmem, hrest⟩ := List.forall_mem_cons.mp hrest
      obtain ⟨hsim, hsettled⟩ := h.step hs hset ⟨hmem, hdone, hr.1⟩ hnode
      have hdone' : ∀ m ∈ done ++ [node], m ∈ nodes := by
        simpa [or_imp, forall_and] using ⟨hdone, hmem⟩
      have hall := ih hsim hsettled hdone' hrest hr.2 hc
      rw [List.append_assoc] at hall
      exact hall

end Simulated

theorem simulated_nil (start : Env V) : Simulated interp registry graph start [] {} where
  agrees := by simp
  steady := trivial

/-! ## Whole runs -/

/-- The nodes behind the sink declare variables of different names, except that
all nodes of kind uv share one. -/
def NamesApart (graph : Graph) (sink : String) (pass : Pass) : Prop :=
  ∀ n m : Node, graph.Reached sink n → graph.Reached sink m →
    ∀ d e : Declaration, pass.declaration? n.id = some d → pass.declaration? m.id = some e →
      d.name = e.name → n.id = m.id ∨ n.kind = "uv" ∧ m.kind = "uv"

/-- It is enough to compare the nodes of the graph by what they have declared. -/
theorem namesApart_of_nodes {sink : String} {pass : Pass}
    (h : ∀ n ∈ graph.nodes, ∀ m ∈ graph.nodes, (pass.variableName? n.id).isSome →
      pass.variableName? n.id = pass.variableName? m.id →
        n.id = m.id ∨ n.kind = "uv" ∧ m.kind = "uv") : NamesApart graph sink pass := by
  intro n m hn hm d e hd he hname
  apply h n (Graph.node?_mem hn.node?) m (Graph.node?_mem hm.node?)
  · simp [Pass.variableName?, hd]
  · simp [Pass.variableName?, hd, he, hname]

theorem planned_uv {node : Node} (h : node.kind = "uv") :
    planned Registry.builtin graph node = [⟨.varying, .vec2, "vUv", none⟩] := by
  have huv : Registry.builtin.find? node.kind = some .uv := by rw [h]; rfl
  simp [planned, plannedFrom, dispatch, huv, Generator.plan]

/-- What a node hands in is what it has declared. -/
theorem Settled.declaration {done : List Node} {node : Node} {pass : Pass}
    (h : Settled registry graph done pass) (hd : node ∈ done)
    (hw : graph.Within graph.bound node.id) {i : Instruction}
    (hi : i ∈ planned registry graph node) :
    ∃ d, pass.declaration? node.id = some d ∧ d.name = i.name := by
  have ho := h.offered node hd
  rw [outline_eq hw (h.present node hd), (planned_shape registry graph node).socket hi,
    Pass.offered] at ho
  obtain ⟨d, hd, hs⟩ := Option.map_eq_some_iff.mp ho
  exact ⟨d, hd, congrArg Socket.name hs⟩

section Run

variable {sink : String}

theorem NamesApart.planned (hrun : (run Registry.builtin graph sink {}).2 = none)
    (h : NamesApart graph sink (run Registry.builtin graph sink {}).1) {n m : Node}
    (hn : n ∈ graph.postorder sink) (hm : m ∈ graph.postorder sink) {i j : Instruction}
    (hi : i ∈ planned Registry.builtin graph n) (hj : j ∈ planned Registry.builtin graph m)
    (hname : i.name = j.name) : n.id = m.id ∨ i.kind = .varying ∧ j.kind = .varying := by
  obtain ⟨hwithin, _⟩ := visit_ok (Prod.ext rfl hrun)
  have hsettled := settled_run hrun
  have hn' := (Graph.mem_postorder_iff hwithin).mp hn
  have hm' := (Graph.mem_postorder_iff hwithin).mp hm
  obtain ⟨d, hd, hdi⟩ := hsettled.declaration hn (hwithin.reached hn') hi
  obtain ⟨e, he, hej⟩ := hsettled.declaration hm (hwithin.reached hm') hj
  rcases h n m hn' hm' d e hd he (hdi.trans (hname.trans hej.symm)) with hid | ⟨hn, hm⟩
  · exact .inl hid
  · rw [planned_uv hn] at hi
    rw [planned_uv hm] at hj
    cases List.mem_singleton.mp hi
    cases List.mem_singleton.mp hj
    exact .inr ⟨rfl, rfl⟩

/-- What comes from outside is bound from the start, to a value that its name and kind tell. -/
theorem initialEnv_external {nodes : List Node} {pass : Pass}
    (h : Settled registry graph nodes pass)
    (hapart : ∀ n ∈ nodes, ∀ m ∈ nodes, ∀ i ∈ planned registry graph n,
      ∀ j ∈ planned registry graph m, i.name = j.name →
        n.id = m.id ∨ i.kind = .varying ∧ j.kind = .varying)
    {n : Node} (hn : n ∈ nodes) {i : Instruction} (hi : i ∈ planned registry graph n) {v : V}
    (hv : i.external? interp = some v) :
    initialEnv interp pass.instructions i.name = some v := by
  have hkind := Instruction.external?_kind hv
  have hrecorded : i ∈ pass.instructions := h.declared n hn i hi
  have hbound : (initialEnv interp pass.instructions i.name).isSome := by
    rw [initialEnv, List.findSome?_isSome_iff]
    exact ⟨i, hrecorded, by simp [hv]⟩
  obtain ⟨w, hw⟩ := Option.isSome_iff_exists.mp hbound
  obtain ⟨j, hj, hjw⟩ := List.exists_of_findSome?_eq_some hw
  split at hjw
  · rename_i hname
    have hkind' := Instruction.external?_kind hjw
    obtain ⟨m, hm, hjm⟩ := h.handedIn hj (by rcases hkind' with hk | hk <;> simp [hk])
    rw [hw, ← hjw, ← hv]
    rcases hapart n hn m hm i hi j hjm hname.symm with hid | ⟨hik, hjk⟩
    · have hnm : graph.node? n.id = graph.node? m.id := by rw [hid]
      rw [h.present n hn, h.present m hm] at hnm
      cases hnm
      have hshape := planned_shape registry graph n
      have hlast := hshape.last hi (by rcases hkind with hk | hk <;> simp [hk])
      have hlast' := hshape.last hjm (by rcases hkind' with hk | hk <;> simp [hk])
      cases hlast.symm.trans hlast'
      rfl
    · simp [Instruction.external?, hik, hjk, hname]
  · cases hjw

theorem setting_run (hrun : (run Registry.builtin graph sink {}).2 = none)
    (h : NamesApart graph sink (run Registry.builtin graph sink {}).1) :
    Setting interp Registry.builtin graph (graph.postorder sink)
      (initialEnv interp (run Registry.builtin graph sink {}).1.instructions) where
  present := fun n hn => ((run_ready hrun).1 n hn).1
  within := fun n hn => ((run_ready hrun).1 n hn).2
  apart := fun _ hn _ hm _ hi _ hj => h.planned hrun hn hm hi hj
  external := fun _ hn _ hi _ =>
    initialEnv_external (settled_run hrun) (fun _ hn _ hm _ hi _ hj => h.planned hrun hn hm hi hj)
      hn hi

theorem simulated_run (hrun : (run Registry.builtin graph sink {}).2 = none)
    (h : NamesApart graph sink (run Registry.builtin graph sink {}).1) :
    Simulated interp Registry.builtin graph
      (initialEnv interp (run Registry.builtin graph sink {}).1.instructions)
      (graph.postorder sink) (run Registry.builtin graph sink {}).1 := by
  obtain ⟨_, hready, hall⟩ := run_ready hrun
  exact (simulated_nil _).compileAll settled_nil (setting_run hrun h) (by simp)
    (fun _ hm => hm) (hready []) hall

theorem agrees_run (hrun : (run Registry.builtin graph sink {}).2 = none)
    (h : NamesApart graph sink (run Registry.builtin graph sink {}).1) {node : Node}
    (hr : graph.Reached sink node) :
    Agrees (executeAssigns interp
        (initialEnv interp (run Registry.builtin graph sink {}).1.instructions)
        (run Registry.builtin graph sink {}).1.instructions)
      ((run Registry.builtin graph sink {}).1.offered node.id)
      (graph.value interp Registry.builtin node.id) := by
  obtain ⟨hwithin, _⟩ := visit_ok (Prod.ext rfl hrun)
  have hmem := (Graph.mem_postorder_iff hwithin).mpr hr
  rw [(settled_run hrun).offered node hmem]
  exact (simulated_run hrun h).agrees node hmem

end Run

/-- **Compilation keeps the meaning of a graph.** Take any interpretation and a run
that is not stopped, on a graph whose nodes declare different names. The values of
the nodes are given by recursion over their incoming edges, which are those that
`inputEdges` finds; if no two edges share an id, these are all that end at the node. Running the assignments of the
stream in order, with the declared uniforms and varyings bound, gives the variable
of every node behind the sink the value of that node, and a node that declares
nothing has none. At no point of the stream does it matter whether the
reassignments before it are run as well. -/
theorem run_preserves_meaning {V : Type} (interp : Interpretation V) (graph : Graph)
    (sink : String) (hrun : (run Registry.builtin graph sink {}).2 = none)
    (hnames : NamesApart graph sink (run Registry.builtin graph sink {}).1) :
    let pass := (run Registry.builtin graph sink {}).1
    let value := graph.value interp Registry.builtin
    let start := initialEnv interp pass.instructions
    (∀ id, graph.node? id = none → value id = none) ∧
      (∀ node, graph.Reached sink node →
        value node.id = nodeValue interp Registry.builtin graph node value) ∧
      (∀ node, graph.Reached sink node → pass.declaration? node.id = none → value node.id = none) ∧
      (∀ node, graph.Reached sink node → ∀ d, pass.declaration? node.id = some d →
        ∃ v, value node.id = some v ∧
          executeAssigns interp start pass.instructions d.name = some v) ∧
      (∀ before after, pass.instructions = before ++ after →
        executeAll interp start before = executeAssigns interp start before) ∧
      ((graph.edges.map Edge.id).Nodup →
        ∀ id, graph.inputEdges id = graph.edges.filter (·.target == id)) := by
  obtain ⟨hwithin, _⟩ := visit_ok (Prod.ext rfl hrun)
  refine ⟨fun _ => Graph.value_absent, ?_, ?_, ?_, ?_, Graph.inputEdges_of_nodup⟩
  · intro node hr
    exact Graph.value_eq (hwithin.reached hr) hr.node?
  · intro node hr hd
    rcases (agrees_run hrun hnames hr).cases with ⟨_, hv⟩ | ⟨s, _, hs, _⟩
    · exact hv
    · simp [Pass.offered, hd] at hs
  · intro node hr d hd
    rcases (agrees_run hrun hnames hr).cases with ⟨hs, _⟩ | ⟨s, v, hs, hv, henv⟩
    · simp [Pass.offered, hd] at hs
    · simp only [Pass.offered, hd, Option.map_some, Option.some.injEq] at hs
      subst hs
      exact ⟨v, hv, henv⟩
  · intro before after hsplit
    exact ((simulated_run hrun hnames).steady.before interp hsplit).executeAll

/-- Two nodes for the same coordinates, multiplied, moved by a stored number, multiplied by one
for which none is stored, and doubled. -/
def Graph.moved : Graph where
  nodes := [{ id := "a", type := "uv" }, { id := "b", type := "uv" },
    { id := "square", type := "multiply", data := { name := "square" } },
    { id := "x", type := "float",
      data := { name := "x", payload := .literal (Binary64.ofDecimal? false 25 (-1)) } },
    { id := "sum", type := "add", data := { name := "sum" } },
    { id := "y", type := "float", data := { name := "y" } },
    { id := "product", type := "multiply", data := { name := "product" } },
    { id := "twice", type := "add", data := { name := "twice" } }]
  edges := [{ id := "1", source := "a", target := "square" },
    { id := "2", source := "b", target := "square" },
    { id := "3", source := "square", target := "sum" },
    { id := "4", source := "x", target := "sum" },
    { id := "5", source := "y", target := "product" },
    { id := "6", source := "sum", target := "product" },
    { id := "7", source := "product", target := "twice" },
    { id := "8", source := "product", target := "twice" }]

/-- Everything stands for what it is written as. -/
def Interpretation.written : Interpretation String where
  literal text := text
  operator name left right := "(" ++ left ++ " " ++ name ++ " " ++ right ++ ")"
  construct type values := type.name ++ "(" ++ ", ".intercalate values ++ ")"
  call name values := name ++ "(" ++ ", ".intercalate values ++ ")"
  uniform name := name
  varying name := name

theorem run_preserves_meaning_moved :
    (run Registry.builtin Graph.moved "twice" {}).2 = none ∧
      NamesApart Graph.moved "twice" (run Registry.builtin Graph.moved "twice" {}).1 ∧
      Graph.moved.value .written Registry.builtin "twice" =
        some "((1. * ((vUv * vUv) + 2.5)) + (1. * ((vUv * vUv) + 2.5)))" ∧
      executeAssigns .written
          (initialEnv .written (run Registry.builtin Graph.moved "twice" {}).1.instructions)
          (run Registry.builtin Graph.moved "twice" {}).1.instructions "twice" =
        some "((1. * ((vUv * vUv) + 2.5)) + (1. * ((vUv * vUv) + 2.5)))" ∧
      Graph.moved.inputEdges "twice" = Graph.moved.edges.filter (·.target == "twice") := by
  have hrun : (run Registry.builtin Graph.moved "twice" {}).2 = none := by decide +kernel
  have hnames : NamesApart Graph.moved "twice" (run Registry.builtin Graph.moved "twice" {}).1 :=
    namesApart_of_nodes (by decide +kernel)
  have hvalue : Graph.moved.value .written Registry.builtin "twice" =
      some "((1. * ((vUv * vUv) + 2.5)) + (1. * ((vUv * vUv) + 2.5)))" := by decide +kernel
  have hnode : (Graph.moved.node? "twice").isSome := by decide
  have hname : (run Registry.builtin Graph.moved "twice" {}).1.variableName? "twice" =
      some "twice" := by decide +kernel
  obtain ⟨node, hnode⟩ := Option.isSome_iff_exists.mp hnode
  obtain ⟨d, hd, hdn⟩ := Option.map_eq_some_iff.mp hname
  have hid := Graph.node?_id hnode
  obtain ⟨_, _, _, hall, _, hedges⟩ :=
    run_preserves_meaning .written Graph.moved "twice" hrun hnames
  obtain ⟨v, hv, henv⟩ := hall node (.sink hnode) d (by rw [hid, hd])
  rw [hid, hvalue] at hv
  rw [hdn, ← hv] at henv
  exact ⟨hrun, hnames, hvalue, henv, hedges (by decide) "twice"⟩

end ShaderGraph
