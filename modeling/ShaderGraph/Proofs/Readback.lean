import ShaderGraph.Proofs.Layout
import ShaderGraph.Proofs.WellFormed

/-!
What comes out can be read back. As long as the names in a graph are names of the language,
every instruction of a stream can be printed (`Orderly.printable`): a node hands in names,
numbers, and what its sources offer (`Generator.plan_printable`). A preview is the layout of
its stream (`compile_preview`), so the extraction accepts it and finds the functions that
were imported, and the main function.

The main statement is `definitions_of_compile`.
-/

namespace ShaderGraph

open Glsl

variable {graph : Graph}

/-! ## Numbers -/

theorem Glsl.Balanced.digits {text : List Char} (h : ∀ c ∈ text, c.isDigit) : Balanced text := by
  refine .of_plain (List.all_eq_true.mpr ?_)
  intro c hc
  simp [isPlain, isSafe, isWordChar, Char.isAlphanum, h c hc, not_isBracket_of (h c hc) (by decide)]

theorem Decimal.positional_balanced (d : Decimal) :
    Balanced d.positional.1.toList ∧ Balanced d.positional.2.toList := by
  have hdigits : ∀ c ∈ Nat.toDigits 10 d.digits, c.isDigit :=
    fun c hc => Nat.isDigit_of_mem_toDigits (by decide) (by decide) hc
  have hzeros : ∀ n, ∀ c ∈ List.replicate n '0', c.isDigit := by
    intro n c hc
    rw [List.eq_of_mem_replicate hc]
    rfl
  unfold positional
  simp only
  split
  · have hzero : Balanced "0".toList := .of_plain (by decide)
    refine ⟨hzero, ?_⟩
    rw [String.toList_ofList]
    exact (Balanced.digits (hzeros _)).append (.digits hdigits)
  · have hpadded : ∀ c ∈ Nat.toDigits 10 d.digits ++ List.replicate d.exponent.toNat '0',
        c.isDigit := by
      intro c hc
      rcases List.mem_append.mp hc with hc | hc
      · exact hdigits c hc
      · exact hzeros _ c hc
    simp only [String.toList_ofList]
    exact ⟨.digits fun c hc => hpadded c (List.mem_of_mem_take hc),
      .digits fun c hc => hpadded c (List.mem_of_mem_drop hc)⟩

theorem literalText_balanced (x : Binary64) : Balanced (literalText x).toList := by
  have hsign : Balanced (if x.isNegative then "-" else "").toList := by
    split
    · exact .of_plain (by decide)
    · exact .nil
  have hpoint : Balanced ".".toList := .of_plain (by decide)
  obtain ⟨hwhole, hfraction⟩ := (Decimal.shortest .away x).positional_balanced
  unfold literalText
  simp only
  split
  · rw [String.toList_append]
    exact hsign.append (.of_plain (by decide))
  split
  · exact .of_plain (by decide)
  split
  · rw [String.toList_append]
    exact hsign.append (.of_plain (by decide))
  · simp only [String.toList_append]
    exact ((hsign.append hwhole).append hpoint).append hfraction

/-! ## What a node hands in -/

/-- A name and a type of the language. -/
def Socket.Printable (s : Socket) : Prop := isName s.name ∧ s.dataType.IsBasic

instance (s : Socket) : Decidable s.Printable :=
  inferInstanceAs (Decidable (isName s.name ∧ s.dataType.IsBasic))

/-- The outputs of the function that a node calls. -/
def Node.functionOutputs (node : Node) : List Socket :=
  match node.data.payload with
  | .function definition _ => definition.outputs
  | _ => []

/-- A node whose names are names of the language, and which gives a number or a vector. -/
def Node.Printable (node : Node) : Prop :=
  isName node.name ∧ (node.kind = "function" → ∀ output ∈ node.functionOutputs, output.Printable)

instance (node : Node) : Decidable node.Printable :=
  inferInstanceAs (Decidable (isName node.name ∧
    (node.kind = "function" → ∀ output ∈ node.functionOutputs, output.Printable)))

namespace Generator

variable {node : Node} {offered : String → Option Socket}

theorem valueInstruction_printable {type : DataType} {value : Expression} (hname : isName node.name)
    (htype : type.IsBasic) (hvalue : value.Printable) :
    (valueInstruction node type value).Printable := by
  unfold valueInstruction
  split
  · exact ⟨hname, htype, by simp⟩
  · exact ⟨hname, htype, fun _ => hvalue.balanced⟩

theorem one_printable : one.Printable := Balanced.of_plain (by decide)

section Offered

variable (ho : ∀ edge ∈ graph.inputEdges node.id, ∀ s, offered edge.source = some s → s.Printable)

include ho

theorem operandOf_printable (handle : String) :
    (operandOf offered (sourceAt? (graph.inputEdges node.id) handle)).Printable := by
  cases hs : sourceAt? (graph.inputEdges node.id) handle with
  | none => exact one_printable
  | some id =>
    obtain ⟨edge, he, rfl⟩ := sourceAt?_mem hs
    cases hsource : offered edge.source with
    | none =>
      simp only [operandOf, Option.bind_some, hsource]
      exact one_printable
    | some s =>
      simp only [operandOf, Option.bind_some, hsource]
      exact (ho edge he s hsource).1

theorem planVector_printable {type : DataType} {handles : List String} (hname : isName node.name)
    (htype : type.IsBasic) : (planVector type handles graph node offered).Printable := by
  refine valueInstruction_printable hname htype ⟨htype, ?_⟩
  intro o hmem
  obtain ⟨handle, _, rfl⟩ := List.mem_map.mp hmem
  exact operandOf_printable ho handle

theorem planFunction_printable (hname : isName node.name)
    (hout : ∀ output ∈ node.functionOutputs, output.Printable) :
    ∀ i ∈ planFunction graph node offered, i.Printable := by
  rcases planFunction_cases graph node offered with
    he | ⟨definition, code, output, arguments, hpayload, hfirst, rfl, he⟩
  · simp [he]
  · have hmem : output ∈ node.functionOutputs := by
      simp only [Node.functionOutputs, hpayload]
      exact List.mem_of_head? hfirst
    obtain ⟨houtput, htype⟩ := hout output hmem
    intro i hi
    rw [he] at hi
    rcases List.mem_pair.mp hi with rfl | rfl
    · exact ⟨hname, htype, by simp⟩
    · refine ⟨hname, htype, fun _ => Expression.Printable.balanced (e := .call _ _) ⟨houtput, ?_⟩⟩
      intro name hn
      obtain ⟨input, _, hargument⟩ := List.mem_filterMap.mp hn
      obtain ⟨s, hsource, rfl⟩ := Option.map_eq_some_iff.mp hargument
      obtain ⟨id, hid, hs⟩ := Option.bind_eq_some_iff.mp hsource
      obtain ⟨edge, hedge, rfl⟩ := sourceAt?_mem hid
      exact (ho edge hedge s hs).1

/-- **What a node hands in can be printed** if what its sources offer can. -/
theorem plan_printable {g : Generator} {is : List Instruction}
    (hop : ∀ operator, g = .operation operator → operator = "*" ∨ operator = "+")
    (hname : isName node.name)
    (hout : g = .function → ∀ output ∈ node.functionOutputs, output.Printable)
    (h : plan graph node offered g = .ok is) : ∀ i ∈ is, i.Printable := by
  have hfloat : DataType.float.IsBasic := by decide
  have hvec2 : DataType.vec2.IsBasic := by decide
  have hvec3 : DataType.vec3.IsBasic := by decide
  cases g with
  | literal =>
    cases h
    refine List.forall_mem_singleton.mpr (valueInstruction_printable hname hfloat ?_)
    cases node.data.literal? with
    | none => exact one_printable
    | some x => exact literalText_balanced x
  | operation operator =>
    obtain ⟨left, right, a, b, hes, ha, hb, rfl⟩ := plan_operation h
    obtain ⟨hleft, htype⟩ := ho left (by simp [hes]) a ha
    obtain ⟨hright, _⟩ := ho right (by simp [hes]) b hb
    exact List.forall_mem_singleton.mpr
      (valueInstruction_printable hname htype ⟨hop operator rfl, hleft, hright⟩)
  | vec2 =>
    cases h
    exact List.forall_mem_singleton.mpr (planVector_printable ho hname hvec2)
  | vec3 =>
    cases h
    exact List.forall_mem_singleton.mpr (planVector_printable ho hname hvec3)
  | function =>
    cases h
    exact planFunction_printable ho hname (hout rfl)
  | preview => simp [plan_preview_nil h]
  | uniform => cases h; simp
  | time => cases h; exact List.forall_mem_singleton.mpr ⟨hname, hfloat, by simp⟩
  | color => cases h; exact List.forall_mem_singleton.mpr ⟨hname, hvec3, by simp⟩
  | uv => cases h; exact List.forall_mem_singleton.mpr ⟨rfl, hvec2, by simp⟩

end Offered

end Generator

/-! ## Streams -/

theorem NodeFields.toData_name (fields : NodeFields) : fields.toData.name = fields.name := by
  unfold toData
  split
  · rfl
  split
  · rfl
  split
  · split <;> rfl
  · rfl

theorem dispatch_name {registry : Registry} {node seen : Node} {g : Generator}
    (h : dispatch registry graph node = .ok (g, seen)) : seen.name = node.name := by
  rcases dispatch_cases h with ⟨_, rfl⟩ | ⟨u, _, rfl⟩
  · rfl
  · exact NodeFields.toData_name _

theorem Instruction.Printable.emittedAs {i j : Instruction} (h : i.Printable)
    (hj : i.EmittedAs j) : j.Printable := by
  rcases hj with rfl | ⟨_, rfl⟩
  · exact h
  · exact ⟨h.name, h.type, by simp⟩

namespace Step

variable {done : List Node} {node : Node} {pass pass' : Pass}

/-- What is planned for a node can be printed if the stream can. -/
theorem planned_printable (h : Step Registry.builtin graph done node pass pass')
    (hnode : node.Printable) (hp : ∀ i ∈ pass.instructions, i.Printable) :
    ∀ i ∈ planned Registry.builtin graph node, i.Printable := by
  intro i hi
  obtain ⟨g, seen, is, hd, hplan, hi⟩ := mem_planned hi
  refine Generator.plan_printable ?_ ?_ ?_ ?_ hplan i hi
  -- a source offers the variable of an instruction that has been emitted
  · intro edge he s hs
    rw [dispatch_id hd] at he
    rw [← h.offered edge he] at hs
    obtain ⟨j, hj, rfl, _⟩ := h.settled.introduced h.earlier hs
    exact ⟨(hp j hj).name, (hp j hj).type⟩
  · rintro operator rfl
    exact (dispatch_operation hd).2
  · rw [dispatch_name hd]
    exact hnode.1
  · rintro rfl
    obtain ⟨hk, rfl⟩ := dispatch_function hd
    exact hnode.2 hk

/-- **One node keeps the stream printable.** -/
theorem printable (h : Step Registry.builtin graph done node pass pass')
    (hnode : node.Printable) (hp : ∀ i ∈ pass.instructions, i.Printable) :
    ∀ i ∈ pass'.instructions, i.Printable := by
  obtain ⟨js, hjs, hemitted⟩ := h.instructions
  rw [hjs]
  intro j hj
  rcases List.mem_append.mp hj with hj | hj
  · exact hp j hj
  · obtain ⟨i, hi, hij⟩ := hemitted j hj
    exact (h.planned_printable hnode hp i hi).emittedAs hij

/-- What a node shows can be printed if the stream can. -/
theorem shown_printable (h : Step Registry.builtin graph done node pass pass')
    (hp : ∀ i ∈ pass.instructions, i.Printable) {color alpha : Expression}
    (hs : shown Registry.builtin graph node = some (color, alpha)) :
    color.Printable ∧ alpha.Printable := by
  obtain ⟨⟨type, name, hcolor⟩, ⟨o, rfl, ho⟩, hreads⟩ := h.shown_introduced hs
  have hnames : ∀ name ∈ color.references ++ (Expression.operand o).references, isName name := by
    intro name hn
    obtain ⟨i, hi, rfl, _⟩ := hreads name hn
    exact (hp i hi).name
  constructor
  · have hname : isName name := hnames name (by simp [Generator.shownColor?_references hcolor])
    have hunit : (Operand.constant "1").Printable := Balanced.of_plain (by decide)
    cases type with
    | float => cases hcolor; exact ⟨by decide, List.forall_mem_singleton.mpr hname⟩
    | vec2 =>
      cases hcolor
      exact ⟨by decide, List.forall_mem_cons.mpr ⟨hname, List.forall_mem_singleton.mpr hunit⟩⟩
    | vec3 => cases hcolor; exact hname
    | vec4 => cases hcolor
    | other text => cases hcolor
  · rcases ho with rfl | ⟨name, rfl⟩
    · exact Generator.one_printable
    · exact hnames name (by simp [Expression.references, Operand.reference?])

end Step

/-- **Nodes in order** make a printable stream. -/
theorem Orderly.printable {nodes : List Node} {pass : Pass}
    (ho : Orderly graph graph.bound nodes) (hnodes : ∀ node ∈ nodes, node.Printable)
    (hc : compileAll Registry.builtin graph nodes {} = (pass, none)) :
    ∀ i ∈ pass.instructions, i.Printable := by
  refine ho.induction (P := fun nodes pass => (∀ node ∈ nodes, node.Printable) →
    ∀ i ∈ pass.instructions, i.Printable) ?_ (by simp [Pass.instructions]) hc hnodes
  intro done node pass pass' hone hdone hall
  simp only [List.mem_append, List.mem_singleton, or_imp, forall_and, forall_eq] at hall
  exact hone.printable hall.2 (hdone hall.1)

/-! ## Previews -/

section Preview

variable {sink : String} {node : Node} {shader : CompiledShader}

/-- A preview that renders shows something, and no node behind it has an error. -/
theorem shown_of_fragment (hn : graph.node? sink = some node) (hk : node.kind = "preview")
    (h : compile Registry.builtin graph sink = .ok shader) (hf : shader.source.fragment ≠ "") :
    shader.errors = [] ∧ (shown Registry.builtin graph node).isSome := by
  rcases source_eq h with ⟨hempty, _⟩ | ⟨_, hfine, other, hr, _, hother⟩
  · exact absurd (by rw [hempty]) hf
  · have hedges : graph.inputEdges node.id ≠ [] := by
      intro he
      rw [hr.eq_sink hn he] at hother
      exact hother he
    have hnone := hfine
    rw [compile_errors h, List.filterMap_eq_nil_iff] at hnone
    have hmem := (Graph.mem_postorder_iff (compile_within h)).mpr (.sink hn)
    exact ⟨hfine, (shown_isSome_iff (hnone node hmem)).mpr ⟨hk, hedges⟩⟩

/-- A preview hands in nothing. -/
theorem planned_preview (hk : node.kind = "preview") :
    planned Registry.builtin graph node = [] := by
  refine List.eq_nil_iff_forall_not_mem.mpr ?_
  intro i hi
  obtain ⟨g, seen, is, hd, hp, hi⟩ := mem_planned hi
  rw [dispatch_of_preview hk] at hd
  cases hd
  rw [Generator.plan_preview_nil hp] at hi
  cases hi

/-- **A preview lays out the whole stream**, since it comes last and hands in nothing. -/
theorem compile_preview (hn : graph.node? sink = some node) (hk : node.kind = "preview")
    (h : compile Registry.builtin graph sink = .ok shader) (hf : shader.source.fragment ≠ "") :
    ∃ before inner color alpha,
      Step Registry.builtin graph before node inner (run Registry.builtin graph sink {}).1 ∧
        (run Registry.builtin graph sink {}).1.instructions = inner.instructions ∧
        shown Registry.builtin graph node = some (color, alpha) ∧
        shader.source = ShaderSource.preview inner.instructions color alpha := by
  obtain ⟨hfine, hsome⟩ := shown_of_fragment hn hk h hf
  obtain ⟨⟨color, alpha⟩, hs⟩ := Option.isSome_iff_exists.mp hsome
  have hwithin := compile_within h
  obtain ⟨hrun, rfl⟩ := compile_run h
  have hid := Graph.node?_id hn
  subst hid
  obtain ⟨_, _, hall⟩ := run_ready hrun
  have hsplit := Graph.postorder_eq hwithin hn
  obtain ⟨inner, made, hbefore, hstep⟩ := (orderly_postorder hrun).step_at hsplit hall
  have hmade : made = (run Registry.builtin graph node.id {}).1 := by
    rw [hsplit, compileAll_append hbefore, compileAll_singleton, hstep.compiled] at hall
    exact congrArg Prod.fst hall
  subst hmade
  have hinstructions : (run Registry.builtin graph node.id {}).1.instructions =
      inner.instructions := by
    obtain ⟨js, hjs, hemitted⟩ := hstep.instructions
    have hnil : js = [] := by
      refine List.eq_nil_iff_forall_not_mem.mpr ?_
      intro j hj
      obtain ⟨i, hi, _⟩ := hemitted j hj
      rw [planned_preview hk] at hi
      cases hi
    rw [hjs, hnil, List.append_nil]
  have hsource := hstep.source
  rw [hs] at hsource
  rw [Pass.finish_errors] at hfine
  refine ⟨_, inner, color, alpha, hstep, hinstructions, hs, ?_⟩
  rw [Pass.finish_source, if_pos hfine, hsource]

end Preview

/-- The functions that a compilation imports, in the order of its stream. -/
def importedCodes (graph : Graph) (sink : String) : List String :=
  (run Registry.builtin graph sink {}).1.instructions.filterMap Instruction.imported?

/-- **A shader that comes out can be read back.** Let the sink be a preview that renders, and
let the names of the nodes behind it and the functions that they call be names of the
language, with outputs that are numbers or vectors. If every imported source is accepted and,
white space at its end aside, does not end in a backslash, the fragment shader is accepted
too: what is found in it is what is found in the imported sources, one after the other, and
the main function. -/
theorem definitions_of_compile (graph : Graph) (sink : String) (node : Node)
    (shader : CompiledShader) (hn : graph.node? sink = some node) (hk : node.kind = "preview")
    (h : compile Registry.builtin graph sink = .ok shader) (hf : shader.source.fragment ≠ "")
    (hnodes : ∀ other, graph.Reached sink other → other.Printable)
    (hcodes : ∀ code ∈ importedCodes graph sink, (∃ found, definitions code = .ok found) ∧
      (Text.trimEnd code).toList.getLast? ≠ some '\\') :
    ∃ found, (importedCodes graph sink).mapM definitions = .ok found ∧
      definitions shader.source.fragment = .ok (found.flatten ++ [⟨[], []⟩]) := by
  obtain ⟨before, inner, color, alpha, hstep, hinner, hs, hsource⟩ := compile_preview hn hk h hf
  have hwithin := compile_within h
  have hrun := (compile_run h).1
  have hprint : ∀ i ∈ (run Registry.builtin graph sink {}).1.instructions, i.Printable := by
    refine (orderly_postorder hrun).printable ?_ (run_ready hrun).2.2
    intro other ho
    exact hnodes other ((Graph.mem_postorder_iff hwithin).mp ho)
  obtain ⟨found, hfound⟩ := mapM_ok_iff.mpr fun code hc => (hcodes code hc).1
  refine ⟨found, hfound, ?_⟩
  rw [importedCodes] at hcodes hfound
  rw [hinner] at hprint hcodes hfound
  obtain ⟨hcolor, halpha⟩ := hstep.shown_printable hprint hs
  rw [hsource]
  exact definitions_renderFragment hprint hcolor halpha hfound fun code hc => (hcodes code hc).2

/-- A function whose source has a macro and ends in a comment, and a value that is used twice. -/
def Graph.spliced : Graph where
  nodes := [{ id := "x", type := "float", data := { name := "x" } },
    { id := "f", type := "function", data :=
      { name := "y"
        payload := .function ⟨[⟨.float, "a"⟩], [⟨.float, "twice"⟩]⟩
          "#define SUM a \\\n + a\nfloat twice(float a) \x7b return SUM; \x7d // twice \n" } },
    { id := "sum", type := "add", data := { name := "sum" } },
    { id := "out", type := "preview", data := { name := "out" } }]
  edges := [{ id := "1", source := "x", target := "f", targetHandle := some "a" },
    { id := "2", source := "f", target := "sum" },
    { id := "3", source := "x", target := "sum" },
    { id := "4", source := "sum", target := "out" }]

theorem definitions_of_compile_spliced :
    ∃ node shader, Graph.spliced.node? "out" = some node ∧ node.kind = "preview" ∧
      compile Registry.builtin Graph.spliced "out" = .ok shader ∧ shader.source.fragment ≠ "" ∧
      (∀ other, Graph.spliced.Reached "out" other → other.Printable) ∧
      (∀ code ∈ importedCodes Graph.spliced "out", (∃ found, definitions code = .ok found) ∧
        (Text.trimEnd code).toList.getLast? ≠ some '\\') ∧
      definitions shader.source.fragment =
        .ok [⟨[⟨.float, "a"⟩], [⟨.float, "twice"⟩]⟩, ⟨[], []⟩] := by
  obtain ⟨shader, h⟩ : ∃ shader, compile Registry.builtin Graph.spliced "out" = .ok shader :=
    compile_ok_iff.mpr (by decide +kernel)
  have hf : shader.source.fragment ≠ "" := by
    rw [(compile_run h).2]
    decide +kernel
  have hnodes : ∀ other, Graph.spliced.Reached "out" other → other.Printable := by
    have hall : ∀ node ∈ Graph.spliced.nodes, node.Printable := by decide +kernel
    intro other hr
    exact hall other (Graph.node?_mem hr.node?)
  have hmapped : (importedCodes Graph.spliced "out").mapM definitions =
      .ok [[⟨[⟨.float, "a"⟩], [⟨.float, "twice"⟩]⟩]] := by decide +kernel
  have hlast : ∀ code ∈ importedCodes Graph.spliced "out",
      (Text.trimEnd code).toList.getLast? ≠ some '\\' := by decide +kernel
  have hcodes : ∀ code ∈ importedCodes Graph.spliced "out",
      (∃ found, definitions code = .ok found) ∧
        (Text.trimEnd code).toList.getLast? ≠ some '\\' :=
    fun code hc => ⟨mapM_ok_iff.mp ⟨_, hmapped⟩ code hc, hlast code hc⟩
  have hsink : ∃ node, Graph.spliced.node? "out" = some node ∧ node.kind = "preview" :=
    ⟨_, rfl, by decide⟩
  obtain ⟨node, hn, hk⟩ := hsink
  obtain ⟨found, hfound, hdefinitions⟩ := definitions_of_compile Graph.spliced "out" node shader hn
    hk h hf hnodes hcodes
  rw [hmapped] at hfound
  cases hfound
  exact ⟨node, shader, hn, hk, h, hf, hnodes, hcodes, hdefinitions⟩

end ShaderGraph
