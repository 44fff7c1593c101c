import ShaderGraph.Proofs.Sequence

/-!
One pass in the hands of a caller, who may do with it whatever it offers in any order.

Instructions may be handed in for any nodes. For each node they come out as one
declaration at most, then one assignment at most, then reassignments, and the
declaration of the node is that of the last one (`addEach_disciplined`). Whatever was
done to a pass, no node is left marked as being visited, and the next run goes as it
would go on a new pass (`run_after_history`).
-/

namespace ShaderGraph

/-! ## Instructions handed in -/

/-- One declaration at most, then one assignment at most, then reassignments. -/
def Disciplined (kinds : List InstructionKind) : Prop :=
  ∃ (declaration assignment : Option InstructionKind) (n : Nat),
    kinds = declaration.toList ++ assignment.toList ++ List.replicate n .reassign ∧
      (∀ k ∈ declaration, k.isDeclareOnce) ∧ ∀ k ∈ assignment, k = .assign

namespace Disciplined

variable {kinds : List InstructionKind}

theorem nil : Disciplined [] := ⟨none, none, 0, rfl, by simp, by simp⟩

/-- The first instruction may be of any kind. -/
theorem singleton (k : InstructionKind) : Disciplined [k] := by
  cases k with
  | assign => exact ⟨none, some .assign, 0, rfl, by simp, by simp⟩
  | reassign => exact ⟨none, none, 1, rfl, by simp, by simp⟩
  | uniform => exact ⟨some .uniform, none, 0, rfl, by simp [InstructionKind.isDeclareOnce], by simp⟩
  | varying => exact ⟨some .varying, none, 0, rfl, by simp [InstructionKind.isDeclareOnce], by simp⟩
  | imported =>
    exact ⟨some .imported, none, 0, rfl, by simp [InstructionKind.isDeclareOnce], by simp⟩

theorem reassign (h : Disciplined kinds) : Disciplined (kinds ++ [.reassign]) := by
  obtain ⟨declaration, assignment, n, rfl, hd, ha⟩ := h
  refine ⟨declaration, assignment, n + 1, ?_, hd, ha⟩
  rw [List.replicate_succ', List.append_assoc]

/-- What ends in a declaration is that declaration alone. -/
theorem eq_singleton {k : InstructionKind} (h : Disciplined kinds) (hlast : kinds.getLast? = some k)
    (hk : k.isDeclareOnce) : kinds = [k] := by
  obtain ⟨declaration, assignment, n, rfl, _, ha⟩ := h
  cases n with
  | succ n =>
    rw [List.replicate_succ', ← List.append_assoc, List.getLast?_concat] at hlast
    cases hlast
    cases hk
  | zero =>
    cases assignment with
    | some a =>
      obtain rfl := ha a rfl
      simp only [Option.toList_some, List.replicate_zero, List.append_nil,
        List.getLast?_concat] at hlast
      cases hlast
      cases hk
    | none =>
      cases declaration with
      | none => cases hlast
      | some d => cases hlast; rfl

theorem assign {k : InstructionKind} (h : Disciplined kinds) (hlast : kinds.getLast? = some k)
    (hk : k.isDeclareOnce) : Disciplined (kinds ++ [.assign]) := by
  rw [h.eq_singleton hlast hk]
  exact ⟨some k, some .assign, 0, rfl, by simpa using hk, by simp⟩

end Disciplined

namespace Pass

/-- What was emitted for a node. -/
def emissionsOf (pass : Pass) (node : String) : List Instruction :=
  (pass.emissions.toList.filter (·.node == node)).map Emission.instruction

/-- Hands in instructions one after the other, each for a node. -/
def addEach (pass : Pass) (calls : List (String × Instruction)) : Pass :=
  calls.foldl (fun pass call => pass.add call.1 call.2) pass

theorem emissionsOf_add (pass : Pass) (id other : String) (i : Instruction) :
    (pass.add id i).emissionsOf other = pass.emissionsOf other ++
      if other = id then (accept (pass.declaration? id) i).toList else [] := by
  rw [emissionsOf, emissions_add, List.filter_append, List.map_append]
  by_cases ho : other = id
  · subst ho
    cases accept (pass.declaration? other) i <;> simp [emissionsOf]
  · cases accept (pass.declaration? id) i <;> simp [emissionsOf, ho, Ne.symm ho]

/-- The form in which an instruction is emitted for a node with this declaration. -/
def form (declared : Option Declaration) (i : Instruction) : Instruction :=
  if i.kind = .assign ∧ declared.any (·.kind.isAssignment) then { i with kind := .reassign } else i

/-- **What becomes of an instruction.** Only a declaration for a node that has declared
something is not taken. -/
theorem accept_eq (declared : Option Declaration) (i : Instruction) :
    accept declared i =
      if i.kind.isDeclareOnce ∧ declared.isSome then none else some (form declared i) := by
  cases declared with
  | none => simp [accept, form]
  | some d =>
    simp only [accept, form, Bool.and_eq_true, decide_eq_true_eq, Option.isSome_some, and_true,
      Option.any_some]
    split_ifs <;> rfl

/-- What is taken for a node that has declared something. -/
theorem accept_some_cases {d : Declaration} {i j : Instruction} (h : accept (some d) i = some j) :
    j.kind = .reassign ∨ j.kind = .assign ∧ d.kind.isDeclareOnce := by
  simp only [accept] at h
  split_ifs at h with honce hagain
  · cases h
    exact .inl rfl
  · cases h
    cases hk : i.kind with
    | reassign => exact .inl rfl
    | assign =>
      refine .inr ⟨rfl, ?_⟩
      cases hd : d.kind <;> simp_all [InstructionKind.isAssignment, InstructionKind.isDeclareOnce]
    | uniform => simp [hk, InstructionKind.isDeclareOnce] at honce
    | varying => simp [hk, InstructionKind.isDeclareOnce] at honce
    | imported => simp [hk, InstructionKind.isDeclareOnce] at honce

/-- The pass keeps to the discipline, and declarations are those of the last emissions. -/
structure Consistent (pass : Pass) : Prop where
  kinds : ∀ node, Disciplined ((pass.emissionsOf node).map Instruction.kind)
  declared : ∀ node,
    pass.declaration? node = (pass.emissionsOf node).getLast?.map Instruction.declaration

theorem consistent_new : Consistent {} where
  kinds := fun _ => .nil
  declared := fun _ => rfl

/-- A node that has declared nothing has emitted nothing. -/
theorem Consistent.emissionsOf_eq_nil {pass : Pass} (h : pass.Consistent) {node : String} :
    pass.declaration? node = none ↔ pass.emissionsOf node = [] := by
  rw [h.declared, Option.map_eq_none_iff, List.getLast?_eq_none_iff]

/-- The last kind that was emitted is that of the declaration. -/
theorem Consistent.last_kind {pass : Pass} (h : pass.Consistent) {node : String} {d : Declaration}
    (hd : pass.declaration? node = some d) :
    ((pass.emissionsOf node).map Instruction.kind).getLast? = some d.kind := by
  rw [h.declared] at hd
  obtain ⟨i, hi, rfl⟩ := Option.map_eq_some_iff.mp hd
  rw [List.getLast?_map, hi]
  rfl

/-- **One instruction more.** -/
theorem Consistent.add {pass : Pass} (h : pass.Consistent) (id : String) (i : Instruction) :
    (pass.add id i).Consistent := by
  cases ha : accept (pass.declaration? id) i with
  | none =>
    have hsame : pass.add id i = pass := by rw [Pass.add, ha]
    rw [hsame]
    exact h
  | some j =>
    constructor
    · intro node
      rw [emissionsOf_add, ha]
      by_cases hn : node = id
      · subst hn
        simp only [↓reduceIte, Option.toList_some, List.map_append, List.map_cons, List.map_nil]
        -- the first emission may be of any kind; after it only assignments are taken
        cases hd : pass.declaration? node with
        | none =>
          rw [h.emissionsOf_eq_nil.mp hd]
          exact .singleton j.kind
        | some d =>
          rw [hd] at ha
          rcases accept_some_cases ha with hk | ⟨hk, honce⟩
          · rw [hk]
            exact (h.kinds node).reassign
          · rw [hk]
            exact (h.kinds node).assign (h.last_kind hd) honce
      · simpa [hn] using h.kinds node
    · intro node
      rw [emissionsOf_add, declaration?_add, ha]
      by_cases hn : node = id
      · simp [hn]
      · simpa [hn] using h.declared node

theorem Consistent.addEach {pass : Pass} (h : pass.Consistent)
    (calls : List (String × Instruction)) : (pass.addEach calls).Consistent := by
  induction calls generalizing pass with
  | nil => exact h
  | cons call calls ih => exact ih (h.add call.1 call.2)

theorem emissions_add_eq_self_iff {pass : Pass} {id : String} {i : Instruction} :
    (pass.add id i).emissions = pass.emissions ↔
      i.kind.isDeclareOnce ∧ (pass.declaration? id).isSome := by
  rw [add, accept_eq]
  split_ifs with hdropped
  · simp [hdropped]
  · simp only [hdropped, iff_false]
    intro hsame
    have hsize := congrArg Array.size hsame
    simp at hsize

/-- A call that emits something emits its own instruction. -/
theorem emissions_add_eq_push {pass : Pass} {id : String} {i : Instruction}
    (h : ¬ (i.kind.isDeclareOnce ∧ (pass.declaration? id).isSome)) :
    (pass.add id i).emissions = pass.emissions.push ⟨id, form (pass.declaration? id) i⟩ := by
  rw [add, accept_eq, if_neg h]

/-- The emissions of calls are forms of their instructions, in order. -/
theorem emissions_addEach (pass : Pass) (calls : List (String × Instruction)) :
    ∃ kept added, kept.Sublist calls ∧
      (pass.addEach calls).emissions.toList = pass.emissions.toList ++ added ∧
      List.Forall₂ (fun call e => e.node = call.1 ∧ call.2.EmittedAs e.instruction) kept added := by
  induction calls generalizing pass with
  | nil => exact ⟨[], [], .slnil, by simp [addEach], .nil⟩
  | cons call calls ih =>
    obtain ⟨kept, added, hsub, hadded, hall⟩ := ih (pass.add call.1 call.2)
    have hfold : pass.addEach (call :: calls) = (pass.add call.1 call.2).addEach calls := rfl
    rw [hfold, hadded, emissions_add]
    cases ha : accept (pass.declaration? call.1) call.2 with
    | none => exact ⟨kept, added, hsub.cons call, by simp, hall⟩
    | some j =>
      exact ⟨call :: kept, ⟨call.1, j⟩ :: added, hsub.cons_cons call, by simp,
        .cons ⟨rfl, accept_eq_some ha⟩ hall⟩

end Pass

/-- **Declarations over any history of calls.** Instructions of any kind are handed in for any
nodes, one after the other. What is emitted for a node is one declaration at most, then one
assignment at most, then reassignments. All that is emitted was handed in, in this order and
for this node, except that an assignment may have become a reassignment. A further call
emits nothing exactly if it is a declaration for a node that has declared something;
otherwise it emits its instruction, and an assignment becomes a reassignment exactly if the
node has been assigned to. The declaration of a node is the kind, type and name of the last
instruction emitted for it, and there is none exactly if nothing was. -/
theorem addEach_disciplined (calls : List (String × Instruction)) :
    let pass := Pass.addEach {} calls
    (∀ node, Disciplined ((pass.emissionsOf node).map Instruction.kind)) ∧
      (∃ kept, kept.Sublist calls ∧
        List.Forall₂ (fun call e => e.node = call.1 ∧ call.2.EmittedAs e.instruction) kept
          pass.emissions.toList) ∧
      (∀ node i, (pass.add node i).emissions = pass.emissions ↔
        i.kind.isDeclareOnce ∧ (pass.declaration? node).isSome) ∧
      (∀ node i, (pass.add node i).emissions = pass.emissions ∨
        (pass.add node i).emissions =
          pass.emissions.push ⟨node, Pass.form (pass.declaration? node) i⟩) ∧
      (∀ node, pass.declaration? node =
        (pass.emissionsOf node).getLast?.map fun i => ⟨i.kind, i.dataType, i.name⟩) ∧
      ∀ node, pass.declaration? node = none ↔ pass.emissionsOf node = [] := by
  have hconsistent := Pass.consistent_new.addEach calls
  refine ⟨hconsistent.kinds, ?_, fun _ _ => Pass.emissions_add_eq_self_iff, ?_,
    hconsistent.declared, fun _ => hconsistent.emissionsOf_eq_nil⟩
  · obtain ⟨kept, added, hsub, hadded, hall⟩ := Pass.emissions_addEach {} calls
    obtain rfl : _ = added := hadded
    exact ⟨kept, hsub, hall⟩
  · intro node i
    by_cases hdropped : i.kind.isDeclareOnce ∧ ((Pass.addEach {} calls).declaration? node).isSome
    · exact .inl (Pass.emissions_add_eq_self_iff.mpr hdropped)
    · exact .inr (Pass.emissions_add_eq_push hdropped)

/-! ## Any operations -/

/-- What a caller can do with a pass. -/
inductive Operation where
  | run (id : String)
  | add (node : String) (instruction : Instruction)
  | fail (error : CompileError)
  | write (source : ShaderSource)

/-- The pass after an operation, also after a run that was stopped. -/
def Operation.perform (registry : Registry) (graph : Graph) (pass : Pass) : Operation → Pass
  | run id => (ShaderGraph.run registry graph id pass).1
  | add node i => pass.add node i
  | fail error => pass.fail error
  | write source => { pass with source }

/-- A new pass after operations one after the other. -/
def history (registry : Registry) (graph : Graph) (operations : List Operation) : Pass :=
  operations.foldl (Operation.perform registry graph) {}

variable {registry : Registry} {graph : Graph}

theorem Pass.add_visiting (pass : Pass) (id : String) (i : Instruction) :
    (pass.add id i).visiting = pass.visiting := by
  unfold add
  split <;> rfl

theorem Operation.perform_visiting (operation : Operation) (pass : Pass) :
    (operation.perform registry graph pass).visiting = pass.visiting := by
  cases operation with
  | run id => exact run_visiting id pass
  | add node i => exact pass.add_visiting node i
  | fail error => rfl
  | write source => rfl

theorem history_visiting (operations : List Operation) :
    (history registry graph operations).visiting = [] := by
  refine List.foldlRecOn operations _ (motive := fun pass : Pass => pass.visiting = []) rfl ?_
  intro pass hpass operation _
  rw [Operation.perform_visiting, hpass]

/-- **No history spoils a run.** After any operations on a pass, runs that were stopped among
them, no node is marked as being visited, and the next run ends as on a new pass: without
an error, or with the same one. It also lets the same nodes add their parts. -/
theorem run_after_history (registry : Registry) (graph : Graph) (operations : List Operation)
    (id : String) :
    let pass := history registry graph operations
    pass.visiting = [] ∧ (run registry graph id pass).2 = (run registry graph id {}).2 ∧
      ∃ nodes, compileAll registry graph nodes pass = ((run registry graph id pass).1, none) ∧
        compileAll registry graph nodes {} = ((run registry graph id {}).1, none) := by
  have hvisiting : (history registry graph operations).visiting = [] := history_visiting operations
  obtain ⟨hnodes, herror⟩ := run_trace registry graph id hvisiting
  have hnew : ({} : Pass).visiting = [] := rfl
  obtain ⟨hnodes', herror'⟩ := run_trace registry graph id hnew
  exact ⟨hvisiting, herror.trans herror'.symm, _, hnodes, hnodes'⟩

end ShaderGraph
