import Mathlib.Data.List.Nodup
import Mathlib.Data.List.Pairwise
import ShaderGraph.Graph.Sample
import ShaderGraph.Proofs.Preservation
import ShaderGraph.Proofs.Readback

/-!
The declarations and functions at the head of a shader. What a node declares there it
declares once, however often it is compiled: the head holds the declarations of the
nodes behind the sink, one after the other in the order in which they first came by
(`Orderly.declarations`). Nothing compares the declarations of different nodes. So a
head without repetitions takes nodes that do not declare the same: one for the texture
coordinates, and no two for one function (`top_level_unique_iff`).
-/

namespace ShaderGraph

variable {registry : Registry} {graph : Graph}

/-! ## One node -/

namespace Pass

/-- What is taken from a node that has declared something is no further declaration. -/
theorem accept_declared {d : Declaration} {i j : Instruction} (h : accept (some d) i = some j) :
    j.kind.isDeclareOnce = false := by
  unfold accept at h
  simp only at h
  split at h
  · cases h
  · rename_i honce
    split at h
    · cases h
      rfl
    · cases h
      simpa using honce

theorem instructions_add (pass : Pass) (id : String) (i : Instruction) :
    (pass.add id i).instructions =
      pass.instructions ++ (accept (pass.declaration? id) i).toList := by
  rw [instructions, emissions_add]
  cases accept (pass.declaration? id) i <;> simp [instructions]

/-- A node that has declared something declares nothing more. -/
theorem addAll_declarations {id : String} {d : Declaration} {pass : Pass}
    (hd : pass.declaration? id = some d) (is : List Instruction) :
    (pass.addAll id is).instructions.filter (·.kind.isDeclareOnce) =
      pass.instructions.filter (·.kind.isDeclareOnce) := by
  induction is generalizing pass d with
  | nil => rfl
  | cons i is ih =>
    show (((pass.add id i).addAll id is).instructions.filter _) = _
    have hself : ∃ e, (pass.add id i).declaration? id = some e := by
      simp only [declaration?_add, ↓reduceIte, hd]
      cases accept (some d) i with
      | none => exact ⟨d, rfl⟩
      | some j => exact ⟨j.declaration, rfl⟩
    have hnone : (accept (pass.declaration? id) i).toList.filter (·.kind.isDeclareOnce) = [] := by
      rw [hd, List.filter_eq_nil_iff]
      intro j hj
      rw [accept_declared (Option.mem_toList.mp hj)]
      exact Bool.false_ne_true
    obtain ⟨e, he⟩ := hself
    rw [ih he, instructions_add, List.filter_append, hnone, List.append_nil]

end Pass

/-- What a node declares at the head of a shader. -/
def declarationsOf (registry : Registry) (graph : Graph) (node : Node) : List Instruction :=
  (planned registry graph node).filter (·.kind.isDeclareOnce)

namespace Step

variable {done : List Node} {node : Node} {pass pass' : Pass}

theorem emissions (h : Step registry graph done node pass pass') :
    pass'.emissions = (pass.addAll node.id (planned registry graph node)).emissions :=
  (h.settled.step h.present h.within h.inputs h.compiled).1

/-- A node that comes by for the first time declares what it hands in. -/
theorem declarations_first (h : Step registry graph done node pass pass') (hnew : node ∉ done) :
    pass'.instructions.filter (·.kind.isDeclareOnce) =
      pass.instructions.filter (·.kind.isDeclareOnce) ++ declarationsOf registry graph node := by
  have hfresh : pass.offered node.id = none := by
    apply h.settled.fresh
    intro other ho hid
    have hother := h.settled.present other ho
    rw [hid, h.present] at hother
    cases hother
    exact hnew ho
  have hall := Pass.emissions_addAll_fresh (planned_shape registry graph node) hfresh
  simp [Pass.instructions, h.emissions, hall, declarationsOf, Function.comp_def]

/-- A node that comes by again declares nothing. -/
theorem declarations_again (h : Step registry graph done node pass pass') (hold : node ∈ done) :
    pass'.instructions.filter (·.kind.isDeclareOnce) =
      pass.instructions.filter (·.kind.isDeclareOnce) := by
  have hinstructions : pass'.instructions =
      (pass.addAll node.id (planned registry graph node)).instructions := by
    simp only [Pass.instructions, h.emissions]
  rw [hinstructions]
  cases hp : planned registry graph node with
  | nil => rfl
  | cons i is =>
    obtain ⟨d, hd, _⟩ := h.settled.declaration hold h.within
      (show i ∈ planned registry graph node by simp [hp])
    exact Pass.addAll_declarations hd _

end Step

/-- **Every node declares once**, when it first comes by. -/
theorem Orderly.declarations {nodes : List Node} {pass : Pass}
    (ho : Orderly graph graph.bound nodes)
    (hc : compileAll registry graph nodes {} = (pass, none)) :
    ∃ firsts : List Node, firsts.Nodup ∧ firsts.Sublist nodes ∧
      (∀ node, node ∈ firsts ↔ node ∈ nodes) ∧
      pass.instructions.filter (·.kind.isDeclareOnce) =
        firsts.flatMap (declarationsOf registry graph) := by
  refine ho.induction (P := fun nodes pass =>
    ∃ firsts : List Node, firsts.Nodup ∧ firsts.Sublist nodes ∧
      (∀ node, node ∈ firsts ↔ node ∈ nodes) ∧
      pass.instructions.filter (·.kind.isDeclareOnce) =
        firsts.flatMap (declarationsOf registry graph)) ?_ ⟨[], by simp [Pass.instructions]⟩ hc
  rintro done node pass pass' hone ⟨firsts, hnodup, hsub, hmem, hdeclared⟩
  by_cases hold : node ∈ done
  · refine ⟨firsts, hnodup, hsub.trans (List.sublist_append_left done [node]), ?_, ?_⟩
    · intro other
      rw [hmem, List.mem_append, List.mem_singleton]
      constructor
      · exact .inl
      · rintro (ho | rfl)
        · exact ho
        · exact hold
    · rw [hone.declarations_again hold, hdeclared]
  · refine ⟨firsts ++ [node], ?_, hsub.append (List.Sublist.refl _), ?_, ?_⟩
    · refine List.nodup_append.mpr ⟨hnodup, List.nodup_singleton node, ?_⟩
      rintro a ha b hb rfl
      rw [List.mem_singleton.mp hb] at ha
      exact hold ((hmem node).mp ha)
    · intro other
      rw [List.mem_append, List.mem_append, hmem]
    · rw [hone.declarations_first hold, hdeclared, List.flatMap_append, List.flatMap_singleton]

/-! ## Declarations of different nodes -/

/-- The name under which something comes in from outside. -/
def Instruction.outside? (i : Instruction) : Option String :=
  if i.kind = .uniform ∨ i.kind = .varying then some i.name else none

/-- The source that the node imports. -/
def Node.importedSource? (node : Node) : Option String :=
  match node.data.payload with
  | .function definition code =>
    if node.kind = "function" ∧ definition.output?.isSome then some code else none
  | _ => none

/-- The node's value comes in from outside under the name of the node. -/
def Node.isBoundOutside (graph : Graph) (node : Node) : Prop :=
  ∃ i ∈ planned Registry.builtin graph node, i.kind = .uniform

section Repetitions

variable {β : Type} {nodes : List Node}

/-- A list without repetitions, if each node adds one entry at most: no two nodes add the same. -/
theorem nodup_flatMap_iff {f : Node → List β} (hn : nodes.Nodup)
    (hone : ∀ node, (f node).Nodup) :
    (nodes.flatMap f).Nodup ↔
      ∀ a ∈ nodes, ∀ b ∈ nodes, ∀ x, x ∈ f a → x ∈ f b → a = b := by
  rw [List.nodup_flatMap]
  constructor
  · rintro ⟨_, hapart⟩ a ha b hb x hxa hxb
    by_contra hne
    have : Std.Symm (Function.onFun List.Disjoint f) := ⟨fun _ _ hd _ hb ha => hd ha hb⟩
    exact hapart.forall ha hb hne hxa hxb
  · intro hsame
    refine ⟨fun node _ => hone node, hn.pairwise_of_forall_ne ?_⟩
    intro a ha b hb hne x hxa hxb
    exact hne (hsame a ha b hb x hxa hxb)

/-- What is read off declarations is read off those of the nodes. -/
theorem filterMap_declarations {f : Instruction → Option β} {is : List Instruction}
    (hf : ∀ i, (f i).isSome → i.kind.isDeclareOnce)
    (h : is.filter (·.kind.isDeclareOnce) = nodes.flatMap (declarationsOf registry graph)) :
    is.filterMap f = nodes.flatMap fun node => (planned registry graph node).filterMap f := by
  have hfilter : ∀ js : List Instruction,
      (js.filter (·.kind.isDeclareOnce)).filterMap f = js.filterMap f := by
    intro js
    rw [List.filterMap_filter]
    refine List.filterMap_congr fun i _ => ?_
    split
    · rfl
    · rename_i hno
      exact (Option.not_isSome_iff_eq_none.mp fun hs => hno (hf i hs)).symm
  rw [← hfilter, h, List.filterMap_flatMap]
  exact List.flatMap_congr fun node _ => hfilter _

theorem Shape.filterMap_nodup {f : Instruction → Option β} {is : List Instruction}
    (hf : ∀ i, (f i).isSome → i.kind.isDeclareOnce) (h : Shape is) : (is.filterMap f).Nodup := by
  cases h with
  | nothing => exact List.nodup_nil
  | @value i _ => cases hi : f i <;> simp [hi]
  | @call i j _ hj _ =>
    have hnone : f j = none := by
      by_contra hsome
      have honce := hf j (Option.isSome_iff_ne_none.mpr hsome)
      rw [hj] at honce
      cases honce
    cases hi : f i <;> simp [hi, hnone]

end Repetitions

theorem Instruction.outside?_isDeclareOnce (i : Instruction) (h : i.outside?.isSome) :
    i.kind.isDeclareOnce := by
  unfold outside? at h
  split at h
  · rename_i hk
    rcases hk with hk | hk <;> rw [hk] <;> rfl
  · cases h

theorem Instruction.imported?_isDeclareOnce (i : Instruction) (h : i.imported?.isSome) :
    i.kind.isDeclareOnce := by
  unfold imported? at h
  split at h
  · rename_i hk
    rw [hk]
    rfl
  · cases h

/-! ## What the built-in kinds declare -/

theorem Generator.valueInstruction_uniform {node : Node} {type : DataType} {value : Expression}
    (h : (valueInstruction node type value).kind ≠ .assign) :
    (valueInstruction node type value).kind = .uniform ∧
      (valueInstruction node type value).name = node.name := by
  unfold valueInstruction at h ⊢
  split at h
  · rename_i hu
    simp [hu]
  · exact absurd rfl h

/-- What stands at the head is a variable with the node's name, the texture coordinates,
or a function with its source. -/
theorem Generator.plan_declares {node : Node} {offered : String → Option Socket} {g : Generator}
    {is : List Instruction} (h : plan graph node offered g = .ok is) {i : Instruction}
    (hi : i ∈ is) (hk : i.kind ≠ .assign) :
    (i.kind = .uniform ∧ i.name = node.name) ∨
      (g = .uv ∧ i = ⟨.varying, .vec2, "vUv", none⟩) ∨
      (g = .function ∧ ∃ definition code, node.data.payload = .function definition code ∧
        definition.output?.isSome ∧ i.kind = .imported ∧ i.value = some (.verbatim code)) := by
  cases g with
  | literal =>
    cases h
    rw [List.mem_singleton.mp hi] at hk ⊢
    exact .inl (valueInstruction_uniform hk)
  | operation operator =>
    obtain ⟨_, _, _, _, _, _, _, rfl⟩ := plan_operation h
    rw [List.mem_singleton.mp hi] at hk ⊢
    exact .inl (valueInstruction_uniform hk)
  | vec2 =>
    cases h
    rw [List.mem_singleton.mp hi] at hk ⊢
    exact .inl (valueInstruction_uniform hk)
  | vec3 =>
    cases h
    rw [List.mem_singleton.mp hi] at hk ⊢
    exact .inl (valueInstruction_uniform hk)
  | time =>
    cases h
    rw [List.mem_singleton.mp hi]
    exact .inl ⟨rfl, rfl⟩
  | color =>
    cases h
    rw [List.mem_singleton.mp hi]
    exact .inl ⟨rfl, rfl⟩
  | uniform => cases h; cases hi
  | function =>
    cases h
    rcases planFunction_cases graph node offered with
      he | ⟨definition, code, output, _, hpayload, houtput, _, he⟩
    · rw [he] at hi
      cases hi
    · rw [he] at hi
      rcases List.mem_pair.mp hi with rfl | rfl
      · exact .inr (.inr ⟨rfl, definition, code, hpayload, by simp [houtput], rfl, rfl⟩)
      · exact absurd rfl hk
  | uv =>
    cases h
    exact .inr (.inl ⟨rfl, List.mem_singleton.mp hi⟩)
  | preview => rw [plan_preview_nil h] at hi; cases hi

theorem dispatch_uv {node seen : Node}
    (h : dispatch Registry.builtin graph node = .ok (.uv, seen)) : node.kind = "uv" ∧ seen = node :=
  dispatch_named (fun kind => by cases kind <;> decide) (by decide) h

section Builtin

variable {node : Node}

theorem planned_declares {i : Instruction} (hi : i ∈ planned Registry.builtin graph node)
    (hk : i.kind ≠ .assign) :
    (i.kind = .uniform ∧ i.name = node.name) ∨
      (node.kind = "uv" ∧ i = ⟨.varying, .vec2, "vUv", none⟩) ∨
      (i.kind = .imported ∧ ∃ code, node.importedSource? = some code ∧
        i.value = some (.verbatim code)) := by
  obtain ⟨g, seen, is, hd, hplan, hi⟩ := mem_planned hi
  rcases Generator.plan_declares hplan hi hk with
    ⟨hu, hname⟩ | ⟨rfl, hi⟩ | ⟨rfl, definition, code, hpayload, houtput, himported, hvalue⟩
  · exact .inl ⟨hu, hname.trans (dispatch_name hd)⟩
  · exact .inr (.inl ⟨(dispatch_uv hd).1, hi⟩)
  · obtain ⟨hkind, rfl⟩ := dispatch_function hd
    refine .inr (.inr ⟨himported, code, ?_, hvalue⟩)
    simp [Node.importedSource?, hpayload, hkind, houtput]

theorem mem_outside {name : String} :
    name ∈ (planned Registry.builtin graph node).filterMap Instruction.outside? ↔
      (node.kind = "uv" ∧ name = "vUv") ∨ (node.isBoundOutside graph ∧ name = node.name) := by
  constructor
  · intro hmem
    obtain ⟨i, hi, hname⟩ := List.mem_filterMap.mp hmem
    unfold Instruction.outside? at hname
    split at hname
    · rename_i hk
      cases hname
      have hne : i.kind ≠ .assign := by rcases hk with hk | hk <;> simp [hk]
      rcases planned_declares hi hne with ⟨hu, hown⟩ | ⟨huv, rfl⟩ | ⟨himported, _⟩
      · exact .inr ⟨⟨i, hi, hu⟩, hown⟩
      · exact .inl ⟨huv, rfl⟩
      · rw [himported] at hk
        rcases hk with hk | hk <;> cases hk
    · cases hname
  · rintro (⟨huv, rfl⟩ | ⟨⟨i, hi, hu⟩, rfl⟩)
    · rw [planned_uv huv]
      decide
    · have hown : i.name = node.name := by
        rcases planned_declares hi (by simp [hu]) with ⟨_, hown⟩ | ⟨_, rfl⟩ | ⟨himported, _⟩
        · exact hown
        · cases hu
        · rw [himported] at hu
          cases hu
      exact List.mem_filterMap.mpr ⟨i, hi, by simp [Instruction.outside?, hu, hown]⟩

theorem mem_imported {code : String} :
    code ∈ (planned Registry.builtin graph node).filterMap Instruction.imported? ↔
      node.importedSource? = some code := by
  constructor
  · intro hmem
    obtain ⟨i, hi, hcode⟩ := List.mem_filterMap.mp hmem
    unfold Instruction.imported? at hcode
    split at hcode
    · rename_i hk
      rcases planned_declares hi (by simp [hk]) with ⟨hu, _⟩ | ⟨_, rfl⟩ | ⟨_, found, hsource, hvalue⟩
      · rw [hk] at hu
        cases hu
      · cases hk
      · cases hcode
        rw [hsource, Instruction.valueText, hvalue]
        rfl
    · cases hcode
  · intro hsource
    unfold Node.importedSource? at hsource
    split at hsource
    · rename_i definition found hpayload
      split at hsource
      · rename_i hboth
        cases hsource
        obtain ⟨output, houtput⟩ := Option.isSome_iff_exists.mp hboth.2
        have hd : dispatch Registry.builtin graph node = .ok (.function, node) :=
          dispatch_of_kind (by rw [hboth.1, builtin_eq]; rfl) (by simp)
        refine List.mem_filterMap.mpr
          ⟨⟨.imported, output.dataType, node.name, some (.verbatim code)⟩, ?_, rfl⟩
        simp [planned, plannedFrom, hd, Generator.plan, Generator.planFunction, hpayload, houtput]
      · cases hsource
    · cases hsource

end Builtin

/-- What a compilation shows is laid out from the stream up to the preview that came last. -/
theorem Orderly.source_shows {nodes : List Node} {pass : Pass}
    (ho : Orderly graph graph.bound nodes)
    (hc : compileAll registry graph nodes {} = (pass, none)) :
    pass.source = {} ∨ ∃ is color alpha, is <+: pass.instructions ∧
      pass.source = ShaderSource.preview is color alpha := by
  refine ho.induction (P := fun _ pass => pass.source = {} ∨ ∃ is color alpha,
    is <+: pass.instructions ∧ pass.source = ShaderSource.preview is color alpha) ?_ (.inl rfl) hc
  intro done node pass pass' hone hdone
  obtain ⟨js, hjs, _⟩ := hone.instructions
  have hsource := hone.source
  rw [hjs]
  cases hs : shown registry graph node with
  | none =>
    rw [hs] at hsource
    rcases hdone with hempty | ⟨is, color, alpha, hprefix, hshader⟩
    · exact .inl (hsource.trans hempty)
    · exact .inr ⟨is, color, alpha, hprefix.trans (List.prefix_append _ _), hsource.trans hshader⟩
  | some found =>
    rw [hs] at hsource
    exact .inr ⟨pass.instructions, found.1, found.2, List.prefix_append _ _, hsource⟩

/-- **When the head of a shader repeats nothing.** Let the nodes of a graph have different
names, and let a run with the built-in kinds not be stopped. Then the stream declares at its
head what the nodes behind the sink declare, each of them once, in an order in which they are
compiled; the fragment shader, if there is one, is laid out from a beginning of the stream.
No name is declared twice exactly if at most one of the nodes is of kind uv and, if there is
one, no value from outside has the name of the texture coordinates. No source is imported
twice exactly if no two of the nodes carry the same one. -/
theorem top_level_unique_iff (graph : Graph) (sink : String)
    (hnames : (graph.nodes.map Node.name).Nodup)
    (h : (run Registry.builtin graph sink {}).2 = none) :
    let pass := (run Registry.builtin graph sink {}).1
    (∃ nodes : List Node, nodes.Nodup ∧ nodes.Sublist (graph.postorder sink) ∧
      (∀ node, node ∈ nodes ↔ graph.Reached sink node) ∧
      pass.instructions.filter (·.kind.isDeclareOnce) =
        nodes.flatMap (declarationsOf Registry.builtin graph)) ∧
      (pass.source = {} ∨ ∃ is color alpha, is <+: pass.instructions ∧
        pass.source.fragment = renderFragment is color alpha) ∧
      ((pass.instructions.filterMap Instruction.outside?).Nodup ↔
        (∀ a b, graph.Reached sink a → graph.Reached sink b →
          a.kind = "uv" → b.kind = "uv" → a = b) ∧
        (∀ a b, graph.Reached sink a → graph.Reached sink b →
          a.kind = "uv" → b.isBoundOutside graph → b.name ≠ "vUv")) ∧
      ((pass.instructions.filterMap Instruction.imported?).Nodup ↔
        ∀ a b code, graph.Reached sink a → graph.Reached sink b →
          a.importedSource? = some code → b.importedSource? = some code → a = b) := by
  obtain ⟨hwithin, _⟩ := visit_ok (Prod.ext rfl h)
  have hall := (run_ready h).2.2
  obtain ⟨nodes, hnodup, hsub, hmem, hdeclared⟩ := (orderly_postorder h).declarations hall
  have hreached : ∀ node, node ∈ nodes ↔ graph.Reached sink node :=
    fun node => (hmem node).trans (Graph.mem_postorder_iff hwithin)
  have hnamed : ∀ a b, graph.Reached sink a → graph.Reached sink b → a.name = b.name → a = b :=
    fun a b ha hb =>
      List.inj_on_of_nodup_map hnames (Graph.node?_mem ha.node?) (Graph.node?_mem hb.node?)
  have houtside := filterMap_declarations Instruction.outside?_isDeclareOnce hdeclared
  have himported := filterMap_declarations Instruction.imported?_isDeclareOnce hdeclared
  have hshape := planned_shape Registry.builtin graph
  refine ⟨⟨nodes, hnodup, hsub, hreached, hdeclared⟩, ?_, ?_, ?_⟩
  · rcases (orderly_postorder h).source_shows hall with hempty | ⟨is, color, alpha, hprefix, hs⟩
    · exact .inl hempty
    · exact .inr ⟨is, color, alpha, hprefix, by rw [hs]; rfl⟩
  · rw [houtside, nodup_flatMap_iff hnodup fun node =>
      (hshape node).filterMap_nodup Instruction.outside?_isDeclareOnce]
    simp only [hreached, mem_outside]
    constructor
    · intro hsame
      refine ⟨?_, ?_⟩
      · intro a b ha hb hua hub
        exact hsame a ha b hb "vUv" (.inl ⟨hua, rfl⟩) (.inl ⟨hub, rfl⟩)
      · rintro a b ha hb hua ⟨i, hi, hu⟩ hname
        have hab := hsame a ha b hb "vUv" (.inl ⟨hua, rfl⟩) (.inr ⟨⟨i, hi, hu⟩, hname.symm⟩)
        subst hab
        rw [planned_uv hua] at hi
        rw [List.mem_singleton.mp hi] at hu
        cases hu
    · rintro ⟨hone, hother⟩ a ha b hb name (⟨hua, rfl⟩ | ⟨hoa, rfl⟩) (⟨hub, hb'⟩ | ⟨hob, hb'⟩)
      · exact hone a b ha hb hua hub
      · exact absurd hb'.symm (hother a b ha hb hua hob)
      · exact absurd hb' (hother b a hb ha hub hoa)
      · exact hnamed a b ha hb hb'
  · rw [himported, nodup_flatMap_iff hnodup fun node =>
      (hshape node).filterMap_nodup Instruction.imported?_isDeclareOnce]
    simp only [hreached, mem_imported]
    exact ⟨fun hsame a b code ha hb => hsame a ha b hb code,
      fun hsame a ha b hb code => hsame a b code ha hb⟩

/-- In the graph that comes with the program no function is imported twice. -/
theorem top_level_unique_iff_sample :
    (Graph.sample.nodes.map Node.name).Nodup ∧
      (run Registry.builtin Graph.sample "9" {}).2 = none ∧
      ∀ a b code, Graph.sample.Reached "9" a → Graph.sample.Reached "9" b →
        a.importedSource? = some code → b.importedSource? = some code → a = b :=
  ⟨by decide +kernel, by decide +kernel,
    (top_level_unique_iff Graph.sample "9" (by decide +kernel) (by decide +kernel)).2.2.2.mp
      (by decide +kernel)⟩

/-- Two nodes for the texture coordinates, and two that carry the same function. -/
def Graph.repeating : Graph where
  nodes := [{ id := "1", type := "uv", data := { name := "here" } },
    { id := "2", type := "uv", data := { name := "there" } },
    { id := "3", type := "function", data := { name := "half", payload := half } },
    { id := "4", type := "function", data := { name := "again", payload := half } },
    { id := "5", type := "add", data := { name := "sum" } },
    { id := "6", type := "preview", data := { name := "out" } }]
  edges := [{ id := "a", source := "1", target := "5" }, { id := "b", source := "2", target := "5" },
    { id := "c", source := "5", target := "6" }, { id := "d", source := "3", target := "6" },
    { id := "e", source := "4", target := "6" }]
where
  half : Payload :=
    .function { outputs := [⟨.float, "half"⟩] } "float half() \x7b return 0.5; \x7d"

/-- Ids and names differ and there is no error, but the coordinates are declared twice and
the function is defined twice. -/
theorem repeating_repeats :
    (Graph.repeating.nodes.map Node.id).Nodup ∧ (Graph.repeating.nodes.map Node.name).Nodup ∧
      (compile Registry.builtin Graph.repeating "6").toOption.map CompiledShader.errors = some [] ∧
      (run Registry.builtin Graph.repeating "6" {}).1.instructions.filterMap
        Instruction.outside? = ["vUv", "vUv"] ∧
      (run Registry.builtin Graph.repeating "6" {}).1.instructions.filterMap
        Instruction.imported? = List.replicate 2 "float half() \x7b return 0.5; \x7d" := by
  decide +kernel

end ShaderGraph
