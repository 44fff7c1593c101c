import Mathlib.Data.List.Basic
import ShaderGraph.Graph.Basic

/-!
Edges that stay when the definition of a node changes. An edge is valid if each of its ends
that is at the node is at a socket of the new definition. All valid edges stay, in order, and
one kind of edge besides: a loop at the node is judged by where it ends, and where it starts
is overlooked (`Edge.fits_iff`). Such loops are the only difference (`retainFitting_keeps`).
-/

namespace ShaderGraph

/-- The handle is there and names one of the sockets. -/
def NamesOne (sockets : List Socket) (handle : Option String) : Prop :=
  ∃ name, handle = some name ∧ ∃ socket ∈ sockets, socket.name = name

theorem any_iff_namesOne {sockets : List Socket} {handle : Option String} :
    handle.any (fun name => sockets.any (·.name == name)) ↔ NamesOne sockets handle := by
  cases handle with
  | none => simp [NamesOne]
  | some name =>
    simp only [Option.any_some, List.any_eq_true, beq_iff_eq]
    constructor
    · rintro ⟨socket, hmem, hname⟩
      exact ⟨name, rfl, socket, hmem, hname⟩
    · rintro ⟨_, ⟨⟩, socket, hmem, hname⟩
      exact ⟨socket, hmem, hname⟩

instance (sockets : List Socket) (handle : Option String) : Decidable (NamesOne sockets handle) :=
  decidable_of_iff _ any_iff_namesOne

namespace Edge

variable {edge : Edge} {node : String} {definition : Definition}

/-- Each end of the edge that is at the node is at a socket of the definition. -/
structure Valid (edge : Edge) (node : String) (definition : Definition) : Prop where
  target : edge.target = node → NamesOne definition.inputs edge.targetHandle
  source : edge.source = node → NamesOne definition.outputs edge.sourceHandle

/-- A loop at the node that ends at a socket of the definition and starts at none. -/
structure StartsLoose (edge : Edge) (node : String) (definition : Definition) : Prop where
  target : edge.target = node
  source : edge.source = node
  ends : NamesOne definition.inputs edge.targetHandle
  starts : ¬ NamesOne definition.outputs edge.sourceHandle

instance : Decidable (edge.Valid node definition) :=
  decidable_of_iff
    ((edge.target = node → NamesOne definition.inputs edge.targetHandle) ∧
      (edge.source = node → NamesOne definition.outputs edge.sourceHandle))
    ⟨fun h => ⟨h.1, h.2⟩, fun h => ⟨h.target, h.source⟩⟩

instance : Decidable (edge.StartsLoose node definition) :=
  decidable_of_iff
    (edge.target = node ∧ edge.source = node ∧ NamesOne definition.inputs edge.targetHandle ∧
      ¬ NamesOne definition.outputs edge.sourceHandle)
    ⟨fun h => ⟨h.1, h.2.1, h.2.2.1, h.2.2.2⟩, fun h => ⟨h.target, h.source, h.ends, h.starts⟩⟩

theorem StartsLoose.not_valid (h : edge.StartsLoose node definition) :
    ¬ edge.Valid node definition := fun hvalid => h.starts (hvalid.source h.source)

/-- **The edges that stay**: those that are valid, and loops whose start is overlooked. -/
theorem fits_iff :
    edge.fits node definition ↔
      edge.Valid node definition ∨ edge.StartsLoose node definition := by
  have hinput : edge.targetHandle.any definition.hasInput ↔
      NamesOne definition.inputs edge.targetHandle := any_iff_namesOne
  have houtput : edge.sourceHandle.any definition.hasOutput ↔
      NamesOne definition.outputs edge.sourceHandle := any_iff_namesOne
  unfold fits
  split
  · rename_i htarget
    rw [hinput]
    constructor
    · intro hends
      by_cases hvalid : edge.Valid node definition
      · exact .inl hvalid
      · -- only the start can be at fault, and so the edge starts at the node as well
        have hstart : ¬ (edge.source = node → NamesOne definition.outputs edge.sourceHandle) :=
          fun hsource => hvalid ⟨fun _ => hends, hsource⟩
        obtain ⟨hsource, hloose⟩ := Classical.not_imp.mp hstart
        exact .inr ⟨htarget, hsource, hends, hloose⟩
    · rintro (hvalid | hloose)
      · exact hvalid.target htarget
      · exact hloose.ends
  · rename_i htarget
    have hloose : ¬ edge.StartsLoose node definition := fun h => htarget h.target
    split
    · rename_i hsource
      rw [houtput, or_iff_left hloose]
      exact ⟨fun h => ⟨fun ht => absurd ht htarget, fun _ => h⟩, fun h => h.source hsource⟩
    · rename_i hsource
      exact iff_of_true rfl
        (.inl ⟨fun ht => absurd ht htarget, fun hs => absurd hs hsource⟩)

end Edge

/-- Two filters keep the same of a list exactly when they agree on its members. -/
theorem filter_eq_filter_iff {α : Type} {p q : α → Bool} {as : List α} :
    as.filter p = as.filter q ↔ ∀ a ∈ as, p a = q a := by
  constructor
  · intro h a ha
    have hmem : a ∈ as.filter p ↔ a ∈ as.filter q := by rw [h]
    simp only [List.mem_filter, ha, true_and] at hmem
    exact Bool.eq_iff_iff.mpr hmem
  · exact fun h => List.filter_congr h

namespace Graph

variable (graph : Graph) (node : String) (definition : Definition)

theorem edges_retainFitting :
    (graph.retainFitting node definition).1.edges =
      graph.edges.filter fun edge =>
        edge.Valid node definition ∨ edge.StartsLoose node definition := by
  refine List.filter_congr fun edge _ => ?_
  rw [Bool.eq_iff_iff, Edge.fits_iff, decide_eq_true_iff]

theorem removed_retainFitting :
    (graph.retainFitting node definition).2 + (graph.retainFitting node definition).1.edges.length =
      graph.edges.length := by
  have hle := List.length_filter_le (·.fits node definition) graph.edges
  simp only [retainFitting]
  omega

/-- The valid edges are among those that stay, and they are all of them if no loop is loose. -/
theorem edges_retainFitting_eq_iff :
    (graph.retainFitting node definition).1.edges =
        graph.edges.filter (fun edge => edge.Valid node definition) ↔
      ∀ edge ∈ graph.edges, ¬ edge.StartsLoose node definition := by
  rw [edges_retainFitting, filter_eq_filter_iff]
  refine forall₂_congr fun edge _ => ?_
  simp only [decide_eq_decide, or_iff_left_iff_imp]
  exact ⟨fun h hloose => hloose.not_valid (h hloose), fun h hloose => absurd hloose h⟩

theorem removed_retainFitting_eq_iff :
    (graph.retainFitting node definition).2 =
        graph.edges.countP (fun edge => ¬ edge.Valid node definition) ↔
      ∀ edge ∈ graph.edges, ¬ edge.StartsLoose node definition := by
  have hremoved := removed_retainFitting graph node definition
  have hcount : graph.edges.length =
      (graph.edges.filter fun edge => edge.Valid node definition).length +
        graph.edges.countP (fun edge => ¬ edge.Valid node definition) := by
    simpa [List.countP_eq_length_filter] using
      List.length_eq_countP_add_countP (fun edge : Edge => decide (edge.Valid node definition))
        (l := graph.edges)
  -- the valid edges are a part of those that stay, so that they are as many only if they are all
  have hsublist : (graph.edges.filter fun edge => edge.Valid node definition).Sublist
      (graph.retainFitting node definition).1.edges := by
    rw [edges_retainFitting]
    refine List.monotone_filter_right _ fun edge hvalid => ?_
    rw [decide_eq_true_iff] at hvalid ⊢
    exact .inl hvalid
  rw [← edges_retainFitting_eq_iff]
  constructor
  · intro h
    exact (hsublist.eq_of_length (by omega)).symm
  · intro h
    rw [h] at hremoved
    omega

/-- **What stays when a definition changes.** Nodes and uniforms stay as they are. Of the edges
exactly the valid ones stay, in order, and the loops at the node that start loose; all others
are counted. So the result and the number are those of the valid edges exactly when the graph
has no such loop. -/
theorem retainFitting_keeps :
    (graph.retainFitting node definition).1.nodes = graph.nodes ∧
      (graph.retainFitting node definition).1.uniforms = graph.uniforms ∧
      (graph.retainFitting node definition).1.edges =
        graph.edges.filter (fun edge =>
          edge.Valid node definition ∨ edge.StartsLoose node definition) ∧
      (graph.retainFitting node definition).2 +
          (graph.retainFitting node definition).1.edges.length = graph.edges.length ∧
      ((graph.retainFitting node definition).1.edges =
          graph.edges.filter (fun edge => edge.Valid node definition) ↔
        ∀ edge ∈ graph.edges, ¬ edge.StartsLoose node definition) ∧
      ((graph.retainFitting node definition).2 =
          graph.edges.countP (fun edge => ¬ edge.Valid node definition) ↔
        ∀ edge ∈ graph.edges, ¬ edge.StartsLoose node definition) :=
  ⟨rfl, rfl, edges_retainFitting graph node definition, removed_retainFitting graph node definition,
    edges_retainFitting_eq_iff graph node definition,
    removed_retainFitting_eq_iff graph node definition⟩

/-- A node that feeds itself: through both sockets, only into one, only out of one, or through
neither. -/
def feedback : Graph where
  nodes := [{ id := "n", type := "function" }]
  edges := [
    { id := "both", source := "n", target := "n", sourceHandle := "y", targetHandle := "x" },
    { id := "in", source := "n", target := "n", sourceHandle := "gone", targetHandle := "x" },
    { id := "out", source := "n", target := "n", sourceHandle := "y", targetHandle := "gone" },
    { id := "neither", source := "n", target := "n" }]

/-- The loop that starts at no socket of the definition stays, although it is not valid. -/
theorem retainFitting_feedback :
    let definition : Definition := ⟨[⟨.float, "x"⟩], [⟨.float, "y"⟩]⟩
    (((feedback.retainFitting "n" definition).1.edges.map Edge.id,
        (feedback.retainFitting "n" definition).2) = (["both", "in"], 2)) ∧
      (feedback.edges.filter (fun edge => edge.Valid "n" definition)).map Edge.id = ["both"] ∧
      feedback.edges.countP (fun edge => ¬ edge.Valid "n" definition) = 3 := by
  decide +kernel

end Graph

end ShaderGraph
