import ShaderGraph.Proofs.Showing

/-!
No variable is used before it is declared. What a node reads are the variables of its
sources (`Generator.plan_readsFrom`, `Generator.shown?_reads`), and whatever a pass offers
was emitted as a declaration (`Settled.introduced`); so a stream of instructions stays
in scope (`InScope`) while nodes are compiled. The text of a shader has one line for each
instruction (`InScope.laidOut`), and a line comes after those that declare what it reads
(`InScope.declaredAhead`).

The main statement is `runs_declare_before_use`.
-/

namespace ShaderGraph

variable {registry : Registry} {graph : Graph}

/-! ## What is read and what is declared -/

/-- The variable that an operand reads. -/
def Operand.reference? : Operand → Option String
  | reference name => some name
  | constant _ => none

/-- The variables that an expression reads. -/
def Expression.references : Expression → List String
  | operand o => o.reference?.toList
  | operation _ left right => [left, right]
  | construct _ components => components.filterMap Operand.reference?
  | call _ arguments => arguments
  | verbatim _ => []

/-- A variable, or the constant one. -/
def Operand.VariableOrOne (o : Operand) : Prop := o = Generator.one ∨ ∃ name, o = .reference name

/-- A literal, or an expression whose operands are variables or the constant one. -/
def Expression.OverVariables : Expression → Prop
  | operand o => ∃ text, o = .constant text
  | construct _ components => ∀ o ∈ components, o.VariableOrOne
  | verbatim _ => False
  | operation .. => True
  | call .. => True

/-- The variable is declared by one of the instructions. -/
def Introduced (is : List Instruction) (name : String) : Prop :=
  ∃ i ∈ is, i.name = name ∧ (i.kind = .assign ∨ i.kind = .uniform ∨ i.kind = .varying)

theorem Introduced.mono {is js : List Instruction} {name : String} (h : Introduced is name)
    (hsub : is ⊆ js) : Introduced js name := by
  obtain ⟨i, hi, hrest⟩ := h
  exact ⟨i, hsub hi, hrest⟩

/-- What is assigned has a value, and it is made from such variables. -/
def Instruction.ReadsFrom (i : Instruction) (among : String → Prop) : Prop :=
  i.kind.isAssignment →
    ∃ v, i.value = some v ∧ v.OverVariables ∧ ∀ name ∈ v.references, among name

theorem Instruction.ReadsFrom.mono {i : Instruction} {among among' : String → Prop}
    (h : i.ReadsFrom among) (hsub : ∀ name, among name → among' name) : i.ReadsFrom among' := by
  intro hk
  obtain ⟨v, hv, hover, hreads⟩ := h hk
  exact ⟨v, hv, hover, fun name hn => hsub name (hreads name hn)⟩

/-- Every instruction reads what is declared before it. -/
inductive InScope : List Instruction → Prop
  | nil : InScope []
  | snoc {is : List Instruction} {i : Instruction} :
      InScope is → i.ReadsFrom (Introduced is) → InScope (is ++ [i])

theorem InScope.append {is js : List Instruction} (h : InScope is)
    (hjs : ∀ j ∈ js, j.ReadsFrom (Introduced is)) : InScope (is ++ js) := by
  induction js generalizing is with
  | nil => simpa using h
  | cons j js ih =>
    obtain ⟨hj, hrest⟩ := List.forall_mem_cons.mp hjs
    have hlater : ∀ k ∈ js, k.ReadsFrom (Introduced (is ++ [j])) := by
      intro k hk
      exact (hrest k hk).mono fun _ hn => hn.mono (List.subset_append_left is [j])
    have hall := ih (h.snoc hj) hlater
    rw [List.append_assoc] at hall
    exact hall

theorem InScope.readsFrom {is before after : List Instruction} {i : Instruction} (h : InScope is)
    (hsplit : is = before ++ i :: after) : i.ReadsFrom (Introduced before) := by
  induction h generalizing after with
  | nil => simp at hsplit
  | @snoc is j _ hj ih =>
    rcases List.eq_nil_or_concat after with rfl | ⟨after, last, rfl⟩
    · obtain ⟨rfl, hlast⟩ := List.append_inj' hsplit rfl
      cases hlast
      exact hj
    · rw [List.concat_eq_append, ← List.cons_append, ← List.append_assoc] at hsplit
      exact ih (List.append_inj' hsplit rfl).1

/-! ## What a node reads -/

/-- The name of a variable that one of the node's sources offers. -/
def OfferedTo (graph : Graph) (node : Node) (offered : String → Option Socket)
    (name : String) : Prop :=
  ∃ edge ∈ graph.inputEdges node.id, ∃ s, offered edge.source = some s ∧ s.name = name

namespace Generator

variable {node : Node} {offered : String → Option Socket}

theorem operandOf_variableOrOne (source : Option String) :
    (operandOf offered source).VariableOrOne := by
  unfold operandOf
  cases source.bind offered with
  | none => exact .inl rfl
  | some s => exact .inr ⟨s.name, rfl⟩

theorem operandOf_reads {source : Option String} {name : String}
    (hs : ∀ id, source = some id → ∃ edge ∈ graph.inputEdges node.id, edge.source = id)
    (h : (operandOf offered source).reference? = some name) :
    OfferedTo graph node offered name := by
  cases source with
  | none => cases h
  | some id =>
    obtain ⟨edge, he, rfl⟩ := hs id rfl
    cases ho : offered edge.source with
    | none => simp [operandOf, ho, one, Operand.reference?] at h
    | some s =>
      simp only [operandOf, Option.bind_some, ho, Option.map_some, Option.getD_some,
        Operand.reference?, Option.some.injEq] at h
      exact ⟨edge, he, s, ho, h⟩

theorem valueInstruction_readsFrom {type : DataType} {value : Expression}
    {among : String → Prop} (hover : value.OverVariables)
    (hreads : ∀ name ∈ value.references, among name) :
    (valueInstruction node type value).ReadsFrom among := by
  unfold valueInstruction
  split
  · intro hk
    cases hk
  · intro _
    exact ⟨value, rfl, hover, hreads⟩

theorem planVector_readsFrom (type : DataType) (handles : List String) :
    (planVector type handles graph node offered).ReadsFrom (OfferedTo graph node offered) := by
  apply valueInstruction_readsFrom
  · intro o ho
    obtain ⟨handle, _, rfl⟩ := List.mem_map.mp ho
    exact operandOf_variableOrOne _
  · intro name hn
    obtain ⟨o, ho, hname⟩ := List.mem_filterMap.mp hn
    obtain ⟨handle, _, rfl⟩ := List.mem_map.mp ho
    exact operandOf_reads (fun id hid => sourceAt?_mem hid) hname

theorem planFunction_readsFrom {i : Instruction} (hi : i ∈ planFunction graph node offered) :
    i.ReadsFrom (OfferedTo graph node offered) := by
  rcases planFunction_cases graph node offered with
    he | ⟨definition, _, _, arguments, _, _, rfl, he⟩
  · rw [he] at hi
    cases hi
  · rw [he] at hi
    rcases List.mem_pair.mp hi with rfl | rfl
    · intro hk
      cases hk
    · intro _
      refine ⟨_, rfl, trivial, ?_⟩
      intro name hn
      obtain ⟨input, _, hname⟩ := List.mem_filterMap.mp hn
      obtain ⟨s, hs, rfl⟩ := Option.map_eq_some_iff.mp hname
      obtain ⟨id, hid, ho⟩ := Option.bind_eq_some_iff.mp hs
      obtain ⟨edge, he, rfl⟩ := sourceAt?_mem hid
      exact ⟨edge, he, s, ho, rfl⟩

/-- **What a node assigns** is made from what its sources offer. -/
theorem plan_readsFrom {g : Generator} {is : List Instruction}
    (h : plan graph node offered g = .ok is) {i : Instruction} (hi : i ∈ is) :
    i.ReadsFrom (OfferedTo graph node offered) := by
  cases g with
  | literal =>
    cases h
    rw [List.mem_singleton.mp hi]
    cases node.data.literal? with
    | none =>
      exact valueInstruction_readsFrom ⟨_, rfl⟩
        (by simp [Expression.references, one, Operand.reference?])
    | some x =>
      exact valueInstruction_readsFrom ⟨_, rfl⟩
        (by simp [Expression.references, Operand.reference?])
  | operation operator =>
    obtain ⟨left, right, a, b, hes, ha, hb, rfl⟩ := plan_operation h
    rw [List.mem_singleton.mp hi]
    refine valueInstruction_readsFrom trivial ?_
    intro name hn
    rcases List.mem_pair.mp hn with rfl | rfl
    · exact ⟨left, by simp [hes], a, ha, rfl⟩
    · exact ⟨right, by simp [hes], b, hb, rfl⟩
  | vec2 =>
    cases h
    rw [List.mem_singleton.mp hi]
    exact planVector_readsFrom _ _
  | vec3 =>
    cases h
    rw [List.mem_singleton.mp hi]
    exact planVector_readsFrom _ _
  | function => cases h; exact planFunction_readsFrom hi
  | preview => rw [plan_preview_nil h] at hi; cases hi
  | uniform => cases h; cases hi
  -- what comes from outside is declared, not assigned
  | time => cases h; rw [List.mem_singleton.mp hi]; intro hk; cases hk
  | color => cases h; rw [List.mem_singleton.mp hi]; intro hk; cases hk
  | uv => cases h; rw [List.mem_singleton.mp hi]; intro hk; cases hk

theorem shownColor?_references {type : DataType} {name : String} {tint : Expression}
    (h : shownColor? type name = some tint) : tint.references = [name] := by
  cases type with
  | float => cases h; rfl
  | vec2 => cases h; rfl
  | vec3 => cases h; rfl
  | vec4 => cases h
  | other text => cases h

/-- **What a preview shows** is made from what its sources offer. -/
theorem shown?_reads {tint alpha : Expression}
    (h : shown? graph node offered = some (tint, alpha)) :
    (∃ type name, shownColor? type name = some tint) ∧
      (∃ o : Operand, alpha = .operand o ∧ o.VariableOrOne) ∧
      ∀ name ∈ tint.references ++ alpha.references, OfferedTo graph node offered name := by
  unfold shown? at h
  split at h
  · cases h
  · rename_i first more hes
    split at h
    · cases h
    · rename_i s hs
      obtain ⟨found, hfound, hpair⟩ := Option.map_eq_some_iff.mp h
      cases hpair
      refine ⟨⟨_, _, hfound⟩, ⟨_, rfl, operandOf_variableOrOne _⟩, ?_⟩
      intro name hn
      rcases List.mem_append.mp hn with hn | hn
      · rw [shownColor?_references hfound, List.mem_singleton] at hn
        exact ⟨first, by simp [hes], s, hs, hn.symm⟩
      · refine operandOf_reads ?_ (Option.mem_toList.mp hn)
        intro id hid
        obtain ⟨edge, he, rfl⟩ := Option.map_eq_some_iff.mp hid
        exact ⟨edge, by simp [hes, List.mem_of_head? he], rfl⟩

end Generator

/-! ## Passes stay in scope -/

/-- What comes last of what a node hands in is a declaration. -/
theorem Shape.last_kind {is : List Instruction} {i : Instruction} (h : Shape is)
    (hi : is.getLast? = some i) : i.kind = .assign ∨ i.kind = .uniform ∨ i.kind = .varying := by
  cases h with
  | nothing => cases hi
  | value hk =>
    cases hi
    rcases hk with hk | hk | hk <;> simp [hk]
  | call _ hk _ =>
    cases hi
    exact .inl hk

/-- Whatever is offered has been declared. -/
theorem Settled.introduced {done : List Node} {pass : Pass} (h : Settled registry graph done pass)
    (hw : ∀ node ∈ done, graph.Within graph.bound node.id) {id : String} {s : Socket}
    (hs : pass.offered id = some s) : ∃ i ∈ pass.instructions, i.socket = s ∧
      (i.kind = .assign ∨ i.kind = .uniform ∨ i.kind = .varying) := by
  obtain ⟨node, hn, rfl⟩ := h.mem_of_offered hs
  rw [h.offered node hn, outline_eq (hw node hn) (h.present node hn)] at hs
  obtain ⟨i, hlast, hi⟩ := Option.map_eq_some_iff.mp hs
  have hmem := h.declared node hn i (List.mem_of_getLast? hlast)
  exact ⟨i, hmem, hi, (planned_shape registry graph node).last_kind hlast⟩

namespace Step

variable {done : List Node} {node : Node} {pass pass' : Pass}

/-- What the sources of the node offer has been declared. -/
theorem introduced (h : Step registry graph done node pass pass') {seen : Node}
    (hid : seen.id = node.id) {name : String}
    (ho : OfferedTo graph seen (outline registry graph) name) :
    Introduced pass.instructions name := by
  obtain ⟨edge, he, s, hs, rfl⟩ := ho
  rw [hid] at he
  rw [← h.offered edge he] at hs
  obtain ⟨i, hi, rfl, hk⟩ := h.settled.introduced h.earlier hs
  exact ⟨i, hi, rfl, hk⟩

theorem planned_readsFrom (h : Step registry graph done node pass pass') :
    ∀ i ∈ planned registry graph node, i.ReadsFrom (Introduced pass.instructions) := by
  intro i hi
  obtain ⟨g, seen, is, hd, hp, hi⟩ := mem_planned hi
  exact (Generator.plan_readsFrom hp hi).mono fun name hn => h.introduced (dispatch_id hd) hn

/-- **One node keeps the stream in scope.** -/
theorem inScope (h : Step registry graph done node pass pass') (hs : InScope pass.instructions) :
    InScope pass'.instructions := by
  obtain ⟨js, hjs, hemitted⟩ := h.instructions
  rw [hjs]
  refine hs.append ?_
  intro j hj
  obtain ⟨i, hi, hij⟩ := hemitted j hj
  have hreads := h.planned_readsFrom i hi
  rcases hij with rfl | ⟨hk, rfl⟩
  · exact hreads
  · intro _
    exact hreads (by simp [hk, InstructionKind.isAssignment])

/-- What the node shows has been declared. -/
theorem shown_introduced (h : Step registry graph done node pass pass') {color alpha : Expression}
    (hs : shown registry graph node = some (color, alpha)) :
    (∃ type name, Generator.shownColor? type name = some color) ∧
      (∃ o : Operand, alpha = .operand o ∧ o.VariableOrOne) ∧
      ∀ name ∈ color.references ++ alpha.references, Introduced pass.instructions name := by
  unfold shown shownFrom at hs
  split at hs
  · rename_i seen hd
    obtain ⟨hcolor, halpha, hreads⟩ := Generator.shown?_reads hs
    exact ⟨hcolor, halpha, fun name hn => h.introduced (dispatch_id hd) (hreads name hn)⟩
  · cases hs

end Step

/-- **Nodes in order stay in scope.** -/
theorem Orderly.inScope {nodes : List Node} {pass : Pass} (ho : Orderly graph graph.bound nodes)
    (hc : compileAll registry graph nodes {} = (pass, none)) : InScope pass.instructions :=
  ho.induction (P := fun _ pass => InScope pass.instructions)
    (fun _ _ _ _ hone hs => hone.inScope hs) .nil hc

/-! ## The text -/

/-- The line of an instruction at the head of a shader: the kind, type and name of a variable, or
the source of a function. -/
inductive HeadLine : Instruction → String → Prop
  | uniform {i : Instruction} :
      i.kind = .uniform → HeadLine i ("uniform " ++ i.dataType.name ++ " " ++ i.name ++ ";\n")
  | varying {i : Instruction} :
      i.kind = .varying → HeadLine i ("varying " ++ i.dataType.name ++ " " ++ i.name ++ ";\n")
  | reassign {i : Instruction} :
      i.kind = .reassign → HeadLine i ("reassign " ++ i.dataType.name ++ " " ++ i.name ++ ";\n")
  | imported {i : Instruction} :
      i.kind = .imported → HeadLine i (Text.trimEnd i.valueText ++ "\n")

/-- The line of an instruction in the main function: a variable with its value. -/
inductive MainLine : Instruction → String → Prop
  | assign {i : Instruction} {v : Expression} :
      i.kind = .assign → i.value = some v →
        MainLine i ("    " ++ i.dataType.name ++ " " ++ i.name ++ " = " ++ v.text ++ ";\n")

/-- The line in which a shader sets the colour. -/
def showLine (color alpha : Expression) : String :=
  "    gl_FragColor = vec4(" ++ color.text ++ ", " ++ alpha.text ++ ");\n"

/-- A shader in whole lines. The main function has one for every assignment and then the one
that sets the colour, and the head one for every other instruction, in order. -/
structure LaidOut (is : List Instruction) (color alpha : Expression) (head main : List String)
    (fragment : String) : Prop where
  atHead : List.Forall₂ HeadLine (is.filter (·.kind ≠ .assign)) head
  inMain : List.Forall₂ MainLine (is.filter (·.kind = .assign)) main
  text : fragment = String.join head ++ "void main() \x7b\n" ++ String.join main ++
    showLine color alpha ++ "\x7d\n"

/-- One of the instructions declares the variable, and its line stands at the head of the shader
or is among the earlier lines of the main function. -/
def DeclaredAhead (is : List Instruction) (head earlier : List String) (name : String) : Prop :=
  ∃ i ∈ is, i.name = name ∧
    ((i.kind = .uniform ∨ i.kind = .varying) ∧ (∃ line ∈ head, HeadLine i line) ∨
      i.kind = .assign ∧ ∃ line ∈ earlier, MainLine i line)

theorem renderFragment_eq (is : List Instruction) (color alpha : Expression) :
    renderFragment is color alpha =
      String.join (is.map Instruction.headerText) ++ "void main() \x7b\n" ++
        String.join (is.map Instruction.bodyText) ++ showLine color alpha ++ "\x7d\n" := by
  unfold renderFragment showLine
  simp only [String.append_assoc, String.reduceAppend]

/-- Instructions without a text leave no trace. -/
theorem join_filter {p : Instruction → Bool} {f : Instruction → String}
    (h : ∀ i, p i = false → f i = "") (is : List Instruction) :
    String.join ((is.filter p).map f) = String.join (is.map f) := by
  induction is with
  | nil => rfl
  | cons i is ih =>
    cases hp : p i with
    | true => simp [hp, ih]
    | false => simp [hp, ih, h i hp]

namespace Instruction

/-- The lines at the head of a shader. -/
def headLines (is : List Instruction) : List String :=
  (is.filter (·.kind ≠ .assign)).map headerText

/-- The lines of its main function. -/
def mainLines (is : List Instruction) : List String :=
  (is.filter (·.kind = .assign)).map bodyText

theorem join_headLines (is : List Instruction) :
    String.join (headLines is) = String.join (is.map headerText) := by
  refine join_filter ?_ is
  intro i hi
  have hk : i.kind = .assign := by simpa using hi
  simp only [headerText, hk]

theorem join_mainLines (is : List Instruction) :
    String.join (mainLines is) = String.join (is.map bodyText) := by
  refine join_filter ?_ is
  intro i hi
  have hk : i.kind ≠ .assign := by simpa using hi
  unfold bodyText
  split
  · contradiction
  · rfl

theorem headLine {i : Instruction} (h : i.kind ≠ .assign) : HeadLine i i.headerText := by
  unfold headerText
  split
  · rename_i hk
    exact .imported hk
  · rename_i hk
    exact absurd hk h
  · cases hk : i.kind with
    | assign => exact absurd hk h
    | uniform => exact .uniform hk
    | varying => exact .varying hk
    | reassign => exact .reassign hk
    | imported => contradiction

theorem mainLine {i : Instruction} {v : Expression} (hk : i.kind = .assign)
    (hv : i.value = some v) : MainLine i i.bodyText := by
  have htext : i.bodyText =
      "    " ++ i.dataType.name ++ " " ++ i.name ++ " = " ++ v.text ++ ";\n" := by
    simp only [bodyText, hk, valueText, hv, Option.map_some, Option.getD_some]
  rw [htext]
  exact .assign hk hv

/-- The line of an assignment comes after those of the instructions before it. -/
theorem mainLines_split {is before after : List Instruction} {i : Instruction}
    (hsplit : is = before ++ i :: after) (hk : i.kind = .assign) :
    mainLines is = mainLines before ++ i.bodyText :: mainLines after := by
  simp [mainLines, hsplit, hk]

end Instruction

namespace InScope

open Instruction

variable {is before : List Instruction} {i : Instruction}

/-- Every assignment has its line. -/
theorem mainLine (h : InScope is) (hi : i ∈ is) (hk : i.kind = .assign) :
    MainLine i i.bodyText := by
  obtain ⟨before, after, hsplit⟩ := List.append_of_mem hi
  obtain ⟨v, hv, _⟩ := h.readsFrom hsplit (by simp [hk, InstructionKind.isAssignment])
  exact Instruction.mainLine hk hv

theorem forall₂_mainLine (h : InScope is) (hsub : before ⊆ is) :
    List.Forall₂ MainLine (before.filter (·.kind = .assign)) (mainLines before) := by
  rw [mainLines, List.forall₂_map_right_iff, List.forall₂_same]
  intro i hi
  obtain ⟨hmem, hk⟩ := List.mem_filter.mp hi
  exact h.mainLine (hsub hmem) (of_decide_eq_true hk)

/-- **A shader is laid out in lines.** -/
theorem laidOut (h : InScope is) (color alpha : Expression) :
    LaidOut is color alpha (headLines is) (mainLines is) (renderFragment is color alpha) where
  atHead := by
    rw [headLines, List.forall₂_map_right_iff, List.forall₂_same]
    intro i hi
    exact headLine (of_decide_eq_true (List.mem_filter.mp hi).2)
  inMain := h.forall₂_mainLine (List.Subset.refl is)
  text := by rw [join_headLines, join_mainLines, renderFragment_eq]

/-- Where the instructions before a line declare a variable, the lines before it do. -/
theorem declaredAhead (h : InScope is) (hsub : before ⊆ is) {name : String}
    (hn : Introduced before name) :
    DeclaredAhead before (headLines is) (mainLines before) name := by
  obtain ⟨i, hi, hname, hk⟩ := hn
  refine ⟨i, hi, hname, ?_⟩
  have hhead (hne : i.kind ≠ .assign) : ∃ line ∈ headLines is, HeadLine i line := by
    have hmem : i ∈ is.filter (·.kind ≠ .assign) :=
      List.mem_filter.mpr ⟨hsub hi, by simpa using hne⟩
    exact ⟨_, List.mem_map_of_mem hmem, headLine hne⟩
  rcases hk with hk | hk | hk
  · have hmem : i ∈ before.filter (·.kind = .assign) := List.mem_filter.mpr ⟨hi, by simpa using hk⟩
    exact .inr ⟨hk, _, List.mem_map_of_mem hmem, h.mainLine (hsub hi) hk⟩
  · exact .inl ⟨.inl hk, hhead (by simp [hk])⟩
  · exact .inl ⟨.inr hk, hhead (by simp [hk])⟩

end InScope

/-- **No variable is used before it is declared.** Take any sequence of runs on one pass,
stopped or not. What an instruction assigns is a literal or made from variables, with the
constant one where there is none, and the instructions before it declare these variables.
The runs let the nodes of their traces add their parts one after the other. A node leaves the
shader as it is, or sets it to a preview of the instructions so far, which are in scope. Its
colour and alpha are made from variables that are declared by them. Its text consists of whole
lines, one for each instruction and the one that sets the colour; the line of a variable that
the colour is made from is among them. The line of an assignment stands in the main function
after those of the assignments before it, and the line of a variable that it reads is one of
these or at the head. -/
theorem runs_declare_before_use (registry : Registry) (graph : Graph) (ids : List String) :
    let pass := runs registry graph ids {}
    (∀ before i after, pass.instructions = before ++ i :: after → i.kind.isAssignment →
      ∃ v, i.value = some v ∧ v.OverVariables ∧ ∀ name ∈ v.references, Introduced before name) ∧
      compileAll registry graph (traces registry graph ids) {} = (pass, none) ∧
      ∀ done node rest, traces registry graph ids = done ++ node :: rest →
        let inner := (compileAll registry graph done {}).1
        let made := (compileNode registry graph node inner).1
        InScope inner.instructions ∧
          (made.source = inner.source ∨
            ∃ color alpha head main,
              made.source = ShaderSource.preview inner.instructions color alpha ∧
              (∃ type name, Generator.shownColor? type name = some color) ∧
              (∃ o : Operand, alpha = .operand o ∧ o.VariableOrOne) ∧
              LaidOut inner.instructions color alpha head main made.source.fragment ∧
              (∀ name ∈ color.references ++ alpha.references,
                Introduced inner.instructions name ∧
                  DeclaredAhead inner.instructions head main name) ∧
              ∀ before i after, inner.instructions = before ++ i :: after → i.kind = .assign →
                ∃ v earlier line later, i.value = some v ∧ main = earlier ++ line :: later ∧
                  List.Forall₂ MainLine (before.filter (·.kind = .assign)) earlier ∧
                  MainLine i line ∧
                  ∀ name ∈ v.references,
                    Introduced before name ∧ DeclaredAhead before head earlier name) := by
  have horder := orderly_traces registry graph ids
  have hruns : compileAll registry graph (traces registry graph ids) {} = _ :=
    runs_traces registry graph ids rfl
  refine ⟨fun before i after hsplit => (horder.inScope hruns).readsFrom hsplit, hruns, ?_⟩
  intro done node rest hsplit
  obtain ⟨inner, made, hdone, hstep⟩ := horder.step_at hsplit hruns
  have hbefore : Orderly graph graph.bound done := (hsplit ▸ horder).split
  have hscope := hbefore.inScope hdone
  have hsource := hstep.source
  simp only [hdone, hstep.compiled]
  refine ⟨hscope, ?_⟩
  cases hs : shown registry graph node with
  | none =>
    rw [hs] at hsource
    exact .inl hsource
  | some pair =>
    obtain ⟨color, alpha⟩ := pair
    rw [hs] at hsource
    obtain ⟨hcolor, halpha, hreads⟩ := hstep.shown_introduced hs
    refine .inr ⟨color, alpha, Instruction.headLines inner.instructions,
      Instruction.mainLines inner.instructions, hsource, hcolor, halpha, ?_, ?_, ?_⟩
    · rw [hsource]
      exact hscope.laidOut color alpha
    · intro name hn
      exact ⟨hreads name hn, hscope.declaredAhead (List.Subset.refl _) (hreads name hn)⟩
    · intro before i after hinner hk
      have hsub : before ⊆ inner.instructions := by simp [hinner]
      have hassign : i.kind.isAssignment := by simp [hk, InstructionKind.isAssignment]
      obtain ⟨v, hv, _, hfrom⟩ := hscope.readsFrom hinner hassign
      refine ⟨v, _, _, _, hv, Instruction.mainLines_split hinner hk,
        hscope.forall₂_mainLine hsub, Instruction.mainLine hk hv, ?_⟩
      intro name hn
      exact ⟨hfrom name hn, hscope.declaredAhead hsub (hfrom name hn)⟩

end ShaderGraph
